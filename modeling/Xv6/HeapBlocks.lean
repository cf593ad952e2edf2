import Xv6.SlabRuns
import Xv6.Kmalloc

namespace Xv6

theorem roundup_align {n : Nat} (bound : n < 2 ^ 63) : roundup n kmallocAlign = (n + 7) / 8 * 8 := by
  simp only [roundup, kmallocAlign]
  omega

/-- The number of pages of a large block. -/
def blockPages (n : Nat) : Nat := nrPagesNeeded (roundup n kmallocAlign)

theorem blockPages_eq {n : Nat} (bound : n < 2 ^ 63) : blockPages n = ((n + 7) / 8 * 8 + 16383) / 16384 := by
  rw [blockPages, roundup_align bound]
  simp only [nrPagesNeeded, rshiftRoundup, lowbits, pgshift, Nat.shiftRight_eq_div_pow]
  omega

namespace Heap

/-- A set of pages that is allocated, but not to a slab. -/
structure OwnSet (h : Heap) (B : Slabs) (f : Nat) (tl : List Nat) : Prop where
  set : h.pm.AllocSet f tl
  notSlab : ∀ c, ¬ B.Holds c f

/-- The pages of a block that `kmalloc_large` handed out. -/
structure Block (h : Heap) (B : Slabs) (sets : Set (List Nat)) (a n f : Nat) : Prop where
  address : a = h.pm.pageToKvaddr f
  own : OwnSet h B f (List.range' (f + 1) (blockPages n - 1))
  type : (h.pm.page f).type = .generic
  apart : f :: List.range' (f + 1) (blockPages n - 1) ∉ sets

/-- The live block is a chunk of a slab. -/
def Chunk (h : Heap) (B : Slabs) (a n c x i : Nat) : Prop :=
  Fits c (roundup n kmallocAlign) ∧ B.Live c x i ∧ a = h.pm.pageToKvaddr x + i * cacheSize c

/-- The live blocks are chunks of slabs or sets of pages, apart from the sets of other users. -/
structure HeapKept (h : Heap) (live : Nat → Option Nat) (sets : Set (List Nat)) (l : List Nat) (B : Slabs) : Prop where
  kept : Kept h l B
  asked : ∀ a n, live a = some n → 1 ≤ n ∧ n < 2 ^ 63
  owned : ∀ set ∈ sets, ∃ f tl, set = f :: tl ∧ OwnSet h B f tl
  small : ∀ a n, live a = some n → n ≤ largeChunk → ∃ c x i, Chunk h B a n c x i
  large : ∀ a n, live a = some n → largeChunk < n → ∃ f, Block h B sets a n f

variable {h h' : Heap} {B B' : Slabs} {l l' : List Nat} {live live' : Nat → Option Nat} {sets sets' : Set (List Nat)}

theorem Kept.slab_of_holds (kept : Kept h l B) {c x : Nat} (holds : B.Holds c x) : SlabAt h c x (B.chain x) := by
  obtain ⟨b, member⟩ := holds
  exact kept.slabs (c, b) x member

theorem OwnSet.not_holds {f p : Nat} {tl : List Nat} (own : OwnSet h B f tl) (kept : Kept h l B) (member : p ∈ f :: tl)
    (c : Nat) : ¬ B.Holds c p := by
  intro holds
  obtain ⟨rfl, -⟩ := own.set.unique (kept.slab_of_holds holds).set member (List.mem_cons_self ..)
  exact own.notSlab c holds

/-- What is done inside of a set leaves the other sets alone, -/
theorem OwnSet.others {f g : Nat} {tl rest : List Nat} {pm : PageMem} (own : OwnSet h B f tl) (kept : Kept h l B)
    (agree : ∀ q, q ∉ l → q ∉ f :: tl → h.pm.Agree pm q) (other : OwnSet h B g rest) (different : g :: rest ≠ f :: tl) :
    ∀ p ∈ g :: rest, h.pm.Agree pm p := by
  intro p inside
  refine agree p (other.set.disjoint_free kept.free inside) fun shared => different ?_
  obtain ⟨rfl, rfl⟩ := other.set.unique own.set inside shared
  rfl

/-- and the slabs. -/
theorem OwnSet.slabs {f c x : Nat} {tl : List Nat} {pm : PageMem} (own : OwnSet h B f tl) (kept : Kept h l B)
    (agree : ∀ q, q ∉ l → q ∉ f :: tl → h.pm.Agree pm q) (holds : B.Holds c x) : h.pm.Agree pm x := by
  refine agree x ?_ fun shared => own.not_holds kept shared c holds
  obtain ⟨b, inside⟩ := holds
  exact kept.not_free inside

theorem OwnSet.frame {f : Nat} {tl : List Nat} (own : OwnSet h B f tl) (geometry : h.pm.SameGeometry h'.pm)
    (agree : ∀ p ∈ f :: tl, h.pm.Agree h'.pm p) (notSlab : ∀ c, ¬ B'.Holds c f) : OwnSet h' B' f tl :=
  ⟨own.set.frame geometry agree, notSlab⟩

theorem Block.frame {a n f : Nat} (block : Block h B sets a n f) (geometry : h.pm.SameGeometry h'.pm)
    (agree : ∀ p ∈ f :: List.range' (f + 1) (blockPages n - 1), h.pm.Agree h'.pm p) (notSlab : ∀ c, ¬ B'.Holds c f)
    (apart : f :: List.range' (f + 1) (blockPages n - 1) ∉ sets') : Block h' B' sets' a n f where
  address := by rw [geometry.kvaddr, block.address]
  own := block.own.frame geometry agree notSlab
  type := by rw [(agree f (List.mem_cons_self ..)).page, block.type]
  apart := apart

/-- Pages change hands outside of the slabs. -/
theorem Kept.elsewhere (kept : Kept h l B) {pm : PageMem} (free : pm.FreeList l') (geometry : h.pm.SameGeometry pm)
    (slabs : ∀ c x, B.Holds c x → h.pm.Agree pm x) : Kept { h with pm := pm } l' B where
  free := free
  small := by
    show pm.nrPages < 2 ^ 64
    rw [geometry.pages]
    exact kept.small
  sizes := kept.sizes
  last := kept.last
  queues := kept.queues
  slabs k p member := (kept.slabs k p member).frame geometry (slabs k.1 p ⟨k.2, member⟩)
  state := kept.state

theorem HeapKept.elsewhere (kept : HeapKept h live sets l B) {pm : PageMem} (free : pm.FreeList l')
    (geometry : h.pm.SameGeometry pm) (slabs : ∀ c x, B.Holds c x → h.pm.Agree pm x)
    (owned : ∀ set ∈ sets', ∃ f tl, set = f :: tl ∧ OwnSet { h with pm := pm } B f tl)
    (large : ∀ a n, live a = some n → largeChunk < n → ∃ f, Block { h with pm := pm } B sets' a n f) :
    HeapKept { h with pm := pm } live sets' l' B where
  kept := kept.kept.elsewhere free geometry slabs
  asked := kept.asked
  owned := owned
  small a n isLive little := by
    obtain ⟨c, x, i, fits, chunk, address⟩ := kept.small a n isLive little
    exact ⟨c, x, i, fits, chunk, by rw [address, ← geometry.kvaddr]⟩
  large := large

/-- Every byte of a live block is in a page of its slab, or in one of its own pages. -/
theorem HeapKept.page_of (kept : HeapKept h live sets l B) {a n b : Nat} (isLive : live a = some n) (lower : a ≤ b)
    (upper : b < a + n) :
    (∃ c x i, Chunk h B a n c x i ∧ n ≤ cacheSize c ∧ h.pm.InPage x b) ∨
      ∃ f p, Block h B sets a n f ∧ p ∈ f :: List.range' (f + 1) (blockPages n - 1) ∧ h.pm.InPage p b := by
  obtain ⟨positive, bound⟩ := kept.asked a n isLive
  by_cases little : n ≤ largeChunk
  · left
    obtain ⟨c, x, i, fits, chunk, address⟩ := kept.small a n isLive little
    have step := chunk_fits (kept.kept.slab_of_holds chunk.1).known chunk.2.1
    have enough : n ≤ cacheSize c := by
      have fits := fits.2
      rw [roundup_align bound] at fits
      omega
    exact ⟨c, x, i, ⟨fits, chunk, address⟩, enough, by omega, by omega⟩
  · right
    obtain ⟨f, block⟩ := kept.large a n isLive (by omega)
    have count := blockPages_eq bound
    have address := block.address
    refine ⟨f, f + (b - a) / 16384, block, ?_, ?_⟩
    · rw [List.mem_cons, List.mem_range'_1]
      omega
    · rw [PageMem.InPage, PageMem.pageToKvaddr_eq]
      rw [PageMem.pageToKvaddr_eq] at address
      omega

/-- The address of a new block is that of no live one. -/
theorem HeapKept.fresh (kept : HeapKept h live sets l B) {p o : Nat} (inside : o < 16384)
    (slab : ∀ n c x i, live (h.pm.pageToKvaddr p + o) = some n → Chunk h B (h.pm.pageToKvaddr p + o) n c x i → x ≠ p)
    (block : ∀ f tl, OwnSet h B f tl → p ∉ f :: tl) : live (h.pm.pageToKvaddr p + o) = none := by
  by_contra some
  obtain ⟨n, isLive⟩ := Option.ne_none_iff_exists'.mp some
  have here : h.pm.InPage p (h.pm.pageToKvaddr p + o) := ⟨by omega, by omega⟩
  have positive := (kept.asked _ n isLive).1
  obtain ⟨c, x, i, chunk, -, there⟩ | ⟨f, q, large, member, there⟩ := kept.page_of isLive (Nat.le_refl _) (by omega)
  · exact slab n c x i isLive chunk (there.unique here)
  · exact block f _ large.own (there.unique here ▸ member)

/-- A small block is a chunk that was handed out. -/
theorem HeapKept.handed (kept : HeapKept h live sets l B) {c x i n : Nat} (known : c < nrSlabOrders)
    (fits : Fits c (roundup n kmallocAlign)) (positive : 1 ≤ n) (small : n ≤ largeChunk) (served : Served h h' l l' B B' c x i) :
    live (h.pm.pageToKvaddr x + i * cacheSize c) = none ∧
      HeapKept h' (Function.update live (h.pm.pageToKvaddr x + i * cacheSize c) (some n)) sets l' B' := by
  have bound : n < 2 ^ 63 := Nat.lt_of_le_of_lt small (by decide)
  have handed := served.handed
  have address := served.geometry.kvaddr
  have holdsX : B'.Holds c x := (handed.holds c x).mpr (.inr ⟨rfl, rfl⟩)
  have within : i * cacheSize c < 16384 := by
    have eight := (cacheSize_bounds known).1
    have step := chunk_fits known handed.bound
    omega
  -- the slab was free, or a slab already
  have outside : ∀ f tl, OwnSet h B f tl → x ∉ f :: tl := by
    intro f tl own member
    rcases served.pages with ⟨-, holds⟩ | ⟨-, whole⟩
    · exact own.not_holds kept.kept member c holds
    · exact own.set.disjoint_free kept.kept.free member (by simp [whole])
  have frame : ∀ f tl, OwnSet h B f tl → (∀ p ∈ f :: tl, h.pm.Agree h'.pm p) ∧ ∀ d, ¬ B'.Holds d f := by
    intro f tl own
    refine ⟨fun p member => served.agree p (own.set.disjoint_free kept.kept.free member) ?_, ?_⟩
    · rintro rfl
      exact outside f tl own member
    · intro d holds
      rcases (handed.holds d f).mp holds with old | ⟨-, rfl⟩
      · exact own.notSlab d old
      · exact outside f tl own (List.mem_cons_self ..)
  have fresh : live (h.pm.pageToKvaddr x + i * cacheSize c) = none := by
    refine kept.fresh within ?_ outside
    rintro m d y j - ⟨-, chunk, place⟩ rfl
    have slab := kept.kept.slab_of_holds chunk.1
    obtain ⟨-, index⟩ := chunk_inj known slab.known handed.bound chunk.2.1 place
    have caches := served.kept.holds_unique ((handed.holds d y).mpr (.inl chunk.1)) holdsX
    subst caches
    exact handed.fresh (index rfl ▸ chunk)
  refine ⟨fresh, served.kept, ?_, ?_, ?_, ?_⟩
  · intro a m isLive
    rcases recorded isLive with ⟨-, rfl⟩ | old
    · exact ⟨positive, bound⟩
    · exact kept.asked a m old
  · intro set member
    obtain ⟨f, tl, same, own⟩ := kept.owned set member
    obtain ⟨agree, notSlab⟩ := frame f tl own
    exact ⟨f, tl, same, own.frame served.geometry agree notSlab⟩
  · intro a m isLive little
    rcases recorded isLive with ⟨rfl, rfl⟩ | old
    · exact ⟨c, x, i, fits, (handed.live c x i).mpr (.inr ⟨rfl, rfl, rfl⟩), by rw [address]⟩
    · obtain ⟨d, y, j, fits', chunk, place⟩ := kept.small a m old little
      exact ⟨d, y, j, fits', (handed.live d y j).mpr (.inl chunk), by rw [address]; exact place⟩
  · intro a m isLive big
    rcases recorded isLive with ⟨-, rfl⟩ | old
    · omega
    · obtain ⟨f, block⟩ := kept.large a m old big
      obtain ⟨agree, notSlab⟩ := frame f _ block.own
      exact ⟨f, block.frame served.geometry agree notSlab block.apart⟩

/-- The last cache is remembered. -/
theorem HeapKept.remember (kept : HeapKept h live sets l B) {c : Nat} (known : c < nrSlabOrders) :
    HeapKept { h with lastAccessed := some c } live sets l B := by
  refine ⟨kept.kept.remember known, kept.asked, ?_, kept.small, ?_⟩
  · intro set member
    obtain ⟨f, tl, same, own⟩ := kept.owned set member
    exact ⟨f, tl, same, own.set, own.notSlab⟩
  · intro a m isLive big
    obtain ⟨f, block⟩ := kept.large a m isLive big
    exact ⟨f, block.address, ⟨block.own.set, block.own.notSlab⟩, block.type, block.apart⟩

/-- A small block comes from a slab. -/
theorem HeapKept.slabAlloc (kept : HeapKept h live sets l B) {n : Nat} (positive : 1 ≤ n) (small : n ≤ largeChunk) :
    ∃ a h', h.slabAlloc (roundup n kmallocAlign) = .ok (a, h') ∧
      (a = 0 → h' = { h with lastAccessed := h'.lastAccessed }) ∧ (a ≠ 0 → live a = none) ∧
      ∃ l' B', HeapKept h' (if a = 0 then live else Function.update live a (some n)) sets l' B' := by
  have rounded := roundup_align (Nat.lt_of_le_of_lt small (by decide) : n < 2 ^ 63)
  have limit : largeChunk = 8192 := rfl
  obtain ⟨c, known, fits, ⟨-, -, run⟩ | ⟨x, i, h', l', B', run, served⟩⟩ :=
    slabAlloc_spec kept.kept (n := roundup n kmallocAlign) (by omega) (by omega) (by omega)
  · refine ⟨_, _, run, fun _ => rfl, fun other => absurd rfl other, l, B, ?_⟩
    rw [if_pos rfl]
    exact kept.remember known
  · obtain ⟨fresh, kept'⟩ := kept.handed known fits positive small served
    refine ⟨_, _, run, fun zero => absurd zero SlabRun.address_ne_zero, fun _ => fresh, l', B', ?_⟩
    rw [if_neg SlabRun.address_ne_zero]
    exact kept'

/-- A large block is written down. -/
theorem HeapKept.record (kept : HeapKept h live sets l B) {a n f : Nat} (positive : 1 ≤ n) (bound : n < 2 ^ 63)
    (big : largeChunk < n) (block : Block h B sets a n f) : HeapKept h (Function.update live a (some n)) sets l B := by
  refine ⟨kept.kept, ?_, kept.owned, ?_, ?_⟩
  · intro b m isLive
    rcases recorded isLive with ⟨-, rfl⟩ | old
    · exact ⟨positive, bound⟩
    · exact kept.asked b m old
  · intro b m isLive little
    rcases recorded isLive with ⟨-, rfl⟩ | old
    · omega
    · exact kept.small b m old little
  · intro b m isLive large
    rcases recorded isLive with ⟨rfl, rfl⟩ | old
    · exact ⟨f, block⟩
    · exact kept.large b m old large

/-- The run of free pages that was asked for was handed out. -/
def RunFound (h : Heap) (n a : Nat) : Prop :=
  largeChunk < n → a ≠ 0 → ∃ f l, a = h.pm.pageToKvaddr f ∧ h.pm.FreeList l ∧ PageMem.RunAt l (blockPages n) f

theorem setGeneric (pm : PageMem) {f : Nat} (type : (pm.page f).type = .generic) : pm.setType f .generic = pm := by
  have same : ({ pm.page f with type := .generic } : Page) = pm.page f := by rw [← type]
  rw [PageMem.setType, PageMem.setPage, same, Function.update_eq_self]

theorem kmallocLarge_null {fuel bytes a : Nat} (run : h.kmallocLarge fuel bytes = .ok (a, h')) (null : a = 0) : h' = h := by
  obtain ⟨⟨p, pm⟩, pages, done⟩ := Res.bind_eq_ok.mp run
  cases p with
  | none =>
    obtain rfl := PageMem.allocContPages_null pages
    exact (Prod.mk.inj (Except.ok.inj done)).2.symm
  | some p =>
    have address := (Prod.mk.inj (Except.ok.inj done)).1
    rw [null] at address
    exact absurd address (PageMem.kvaddr_pos pm p)

/-- A large block is a set of pages of its own. -/
theorem HeapKept.kmallocLarge (kept : HeapKept h live sets l B) {fuel n a : Nat} (positive : 1 ≤ n) (bound : n < 2 ^ 63)
    (big : largeChunk < n) (run : h.kmallocLarge fuel (roundup n kmallocAlign) = .ok (a, h')) (found : h.RunFound n a) :
    (a ≠ 0 → live a = none) ∧
      ∃ l', HeapKept h' (if a = 0 then live else Function.update live a (some n)) sets l' B := by
  by_cases null : a = 0
  · obtain rfl := kmallocLarge_null run null
    refine ⟨fun other => absurd null other, l, ?_⟩
    rw [if_pos null]
    exact kept
  · rw [if_neg null]
    obtain ⟨f, l₁, rfl, free, consecutive⟩ := found big null
    obtain rfl := free.unique kept.kept.free
    obtain ⟨⟨p, pm⟩, pages, done⟩ := Res.bind_eq_ok.mp run
    have count := blockPages_eq bound
    cases p with
    | none => exact absurd (Prod.mk.inj (Except.ok.inj done)).1.symm null
    | some p =>
      obtain ⟨place, rfl⟩ := Prod.mk.inj (Except.ok.inj done)
      have known := PageMem.allocContPages_geometry pages
      rw [known.kvaddr] at place
      obtain rfl := PageMem.kvaddr_injective place
      have taken := PageMem.allocContPages_run free (by omega) consecutive pages
      rw [setGeneric pm taken.type]
      have inFree : p ∈ l₁ := consecutive 0 (by omega)
      have outside : ∀ f tl, OwnSet h B f tl → p ∉ f :: tl := fun f tl own member =>
        own.set.disjoint_free free member inFree
      have agree : ∀ f tl, OwnSet h B f tl → ∀ q ∈ f :: tl, h.pm.Agree pm q := fun f tl own q member =>
        taken.outside q (own.set.disjoint_free free member)
      have fresh : live (h.pm.pageToKvaddr p + 0) = none := by
        refine kept.fresh (by decide) ?_ outside
        rintro m c x i - ⟨-, chunk, -⟩ rfl
        exact chunk.1.elim fun b member => kept.kept.not_free member inFree
      rw [Nat.add_zero] at fresh
      have slabs : ∀ c x, B.Holds c x → h.pm.Agree pm x := fun c x ⟨b, member⟩ =>
        taken.outside x (kept.kept.not_free member)
      have notSlab : ∀ c, ¬ B.Holds c p := fun c ⟨b, member⟩ => kept.kept.not_free member inFree
      have moved : HeapKept { h with pm := pm } live sets (l₁.filter (fun q => q < p ∨ p + blockPages n ≤ q)) B := by
        refine kept.elsewhere taken.free taken.geometry slabs ?_ ?_
        · intro set member
          obtain ⟨f, tl, same, own⟩ := kept.owned set member
          exact ⟨f, tl, same, own.frame taken.geometry (agree f tl own) own.notSlab⟩
        · intro b m isLive large
          obtain ⟨f, block⟩ := kept.large b m isLive large
          exact ⟨f, block.frame taken.geometry (agree f _ block.own) block.own.notSlab block.apart⟩
      have address : h.pm.pageToKvaddr p = pm.pageToKvaddr p := (taken.geometry.kvaddr p).symm
      refine ⟨fun _ => fresh, _, moved.record positive bound big ⟨address, ⟨taken.set, notSlab⟩, taken.type, ?_⟩⟩
      intro member
      obtain ⟨f, tl, same, own⟩ := kept.owned _ member
      exact outside f tl own (same ▸ List.mem_cons_self ..)

/-- A live block is forgotten. -/
theorem HeapKept.forget (kept : HeapKept h live sets l B) (a : Nat) :
    HeapKept h (Function.update live a none) sets l B := by
  have old : ∀ {b m : Nat}, Function.update live a none b = some m → live b = some m := by
    intro b m still
    by_cases same : b = a
    · subst same
      rw [Function.update_self] at still
      cases still
    · rwa [Function.update_of_ne same] at still
  exact ⟨kept.kept, fun b m still => kept.asked b m (old still), kept.owned, fun b m still => kept.small b m (old still),
    fun b m still => kept.large b m (old still)⟩

theorem Chunk.kfree {a n c x i : Nat} (chunk : Chunk h B a n c x i) (kept : Kept h l B) : h.kfree a = h.slabFree a := by
  obtain ⟨-, live, rfl⟩ := chunk
  have slab := kept.slab_of_holds live.1
  have eight := (cacheSize_bounds slab.known).1
  have step := chunk_fits slab.known live.2.1
  rw [Heap.kfree, if_neg SlabRun.address_ne_zero, PageMem.kvaddrToPage_eq h.pm (by omega)]
  simp only [Res.ok_bind, slab.set.firstPage_eq (List.mem_cons_self ..), if_pos slab.type]

theorem Block.kfree {a n f : Nat} (block : Block h B sets a n f) : h.kfree a = h.kfreeLarge a := by
  obtain ⟨rfl, own, type, -⟩ := block
  rw [Heap.kfree, if_neg (PageMem.kvaddr_pos h.pm f), PageMem.kvaddrToPage_kvaddr]
  simp only [Res.ok_bind, own.set.firstPage_eq (List.mem_cons_self ..), type, if_neg (by decide : ¬ PageType.generic = .slab)]

/-- A chunk goes back to its slab. -/
theorem HeapKept.slabFree (kept : HeapKept h live sets l B) {a c x i : Nat} {b : Bool} (place : a = h.pm.pageToKvaddr x + i * cacheSize c)
    (member : x ∈ B.queue (c, b)) (bound : i < capacity c) (absent : i ∉ B.chain x) :
    ∃ h' l', h.slabFree a = .ok h' ∧ HeapKept h' (Function.update live a none) sets l' (B.put c x i) ∧ h.pm.SameGeometry h'.pm ∧
      l'.Perm (if (B.chain x).length + 1 = capacity c then x :: l else l) ∧
      (∀ q, q ≠ x → ∀ a, h.pm.InPage q a → h'.pm.mem a = h.pm.mem a) ∧
      ((B.chain x).length + 1 = capacity c → ∀ a, h.pm.InPage x a → h'.pm.mem a = 1) := by
  subst place
  obtain ⟨h', l', run, kept', geometry, agree, rest⟩ := slabFree_spec kept.kept member bound absent
  have released := kept.kept.released_put member bound absent
  have known := (kept.kept.slabs (c, b) x member).known
  have address := geometry.kvaddr
  have frame : ∀ f tl, OwnSet h B f tl → (∀ p ∈ f :: tl, h.pm.Agree h'.pm p) ∧ ∀ d, ¬ (B.put c x i).Holds d f := by
    intro f tl own
    refine ⟨fun p inside => agree p (own.set.disjoint_free kept.kept.free inside) ?_, fun d holds => ?_⟩
    · rintro rfl
      exact own.not_holds kept.kept inside c ⟨b, member⟩
    · exact own.notSlab d ((released.holds d f).mp holds).1
  have old : ∀ {a m : Nat}, Function.update live (h.pm.pageToKvaddr x + i * cacheSize c) none a = some m →
      live a = some m ∧ a ≠ h.pm.pageToKvaddr x + i * cacheSize c := by
    intro a m still
    by_cases same : a = h.pm.pageToKvaddr x + i * cacheSize c
    · subst same
      rw [Function.update_self] at still
      cases still
    · exact ⟨by rwa [Function.update_of_ne same] at still, same⟩
  refine ⟨h', l', run, ⟨kept', fun a m still => kept.asked a m (old still).1, ?_, ?_, ?_⟩, geometry, rest⟩
  · intro set inside
    obtain ⟨f, tl, same, own⟩ := kept.owned set inside
    obtain ⟨agrees, notSlab⟩ := frame f tl own
    exact ⟨f, tl, same, own.frame geometry agrees notSlab⟩
  · intro a m still little
    obtain ⟨before, other⟩ := old still
    obtain ⟨d, y, j, fits, chunk, place⟩ := kept.small a m before little
    refine ⟨d, y, j, fits, (released.live d y j).mpr ⟨chunk, ?_⟩, by rw [address]; exact place⟩
    rintro ⟨rfl, rfl⟩
    obtain rfl := kept.kept.holds_unique chunk.1 ⟨b, member⟩
    exact other place
  · intro a m still big
    obtain ⟨f, block⟩ := kept.large a m (old still).1 big
    obtain ⟨agrees, notSlab⟩ := frame f _ block.own
    exact ⟨f, block.frame geometry agrees notSlab block.apart⟩

/-- A small block goes back to its slab. -/
theorem HeapKept.kfreeSmall (kept : HeapKept h live sets l B) {a n : Nat} (isLive : live a = some n) (small : n ≤ largeChunk) :
    ∃ h', h.kfree a = .ok h' ∧ ∃ l' B', HeapKept h' (Function.update live a none) sets l' B' := by
  obtain ⟨c, x, i, chunk⟩ := kept.small a n isLive small
  rw [chunk.kfree kept.kept]
  obtain ⟨-, ⟨⟨b, member⟩, bound, absent⟩, place⟩ := chunk
  obtain ⟨h', l', run, kept', -⟩ := kept.slabFree place member bound absent
  exact ⟨h', run, l', B.put c x i, kept'⟩

/-- A large block goes back to the page allocator. -/
theorem HeapKept.kfreeLarge (kept : HeapKept h live sets l B) {a n : Nat} (isLive : live a = some n) (big : largeChunk < n) :
    ∃ h', h.kfree a = .ok h' ∧ ∃ l', HeapKept h' (Function.update live a none) sets l' B := by
  obtain ⟨f, block⟩ := kept.large a n isLive big
  obtain ⟨tl, defTl⟩ : ∃ tl, tl = List.range' (f + 1) (blockPages n - 1) := ⟨_, rfl⟩
  have own := block.own
  have apart := block.apart
  rw [← defTl] at own apart
  have split : f :: tl = (f :: tl).take ((tl.length + 1) % 2 ^ 32) ++ (f :: tl).drop ((tl.length + 1) % 2 ^ 32) :=
    (List.take_append_drop ..).symm
  have length : ((f :: tl).take ((tl.length + 1) % 2 ^ 32)).length = (tl.length + 1) % 2 ^ 32 := by
    rw [List.length_take, List.length_cons]
    exact Nat.min_eq_left (Nat.mod_le _ _)
  obtain ⟨pm, l', run, free, -, -, geometry, -, agree⟩ :=
    PageMem.freeAllPages_spec kept.kept.free own.set (List.mem_cons_self ..) split length
  rw [block.kfree, Heap.kfreeLarge, block.address, PageMem.kvaddrToPage_kvaddr]
  simp only [Res.ok_bind, run]
  refine ⟨_, rfl, l', ?_⟩
  have forgotten := kept.forget (h.pm.pageToKvaddr f)
  refine forgotten.elsewhere free geometry (fun c x holds => own.slabs kept.kept agree holds) ?_ ?_
  · intro set inside
    obtain ⟨g, rest, rfl, other⟩ := kept.owned set inside
    exact ⟨g, rest, rfl, other.frame geometry (own.others kept.kept agree other fun same => apart (same ▸ inside)) other.notSlab⟩
  · intro b m still large
    obtain ⟨g, other⟩ := forgotten.large b m still large
    refine ⟨g, other.frame geometry (own.others kept.kept agree other.own fun same => ?_) other.own.notSlab other.apart⟩
    have heads := (List.cons.inj same).1
    rw [other.address, heads, Function.update_self] at still
    cases still

/-- Another user takes pages. -/
theorem HeapKept.allocPages (kept : HeapKept h live sets l B) {pm : PageMem} {num f : Nat} {tl : List Nat}
    (run : h.pm.allocPages num = .ok (some f, pm)) (set : pm.AllocSet f tl) :
    ∃ l', HeapKept { h with pm := pm } live (insert (f :: tl) sets) l' B := by
  have free := kept.kept.free
  obtain ⟨tl', ys, split, -, free', set', -, geometry, agree⟩ := PageMem.allocPages_served free run
  obtain ⟨-, rfl⟩ := set.unique set' (List.mem_cons_self ..) (List.mem_cons_self ..)
  have inFree : f ∈ l := by simp [split]
  have frame : ∀ g rest, OwnSet h B g rest → ∀ p ∈ g :: rest, h.pm.Agree pm p := fun g rest own p member =>
    agree p (own.set.disjoint_free free member)
  refine ⟨ys, kept.elsewhere free' geometry (fun c x ⟨b, member⟩ => agree x (kept.kept.not_free member)) ?_ ?_⟩
  · intro other member
    rcases member with rfl | old
    · exact ⟨f, tl, rfl, set, fun c ⟨b, member⟩ => kept.kept.not_free member inFree⟩
    · obtain ⟨g, rest, same, own⟩ := kept.owned other old
      exact ⟨g, rest, same, own.frame geometry (frame g rest own) own.notSlab⟩
  · intro a n isLive big
    obtain ⟨g, block⟩ := kept.large a n isLive big
    refine ⟨g, block.frame geometry (frame g _ block.own) block.own.notSlab ?_⟩
    rintro (same | old)
    · have inBlock : f ∈ g :: List.range' (g + 1) (blockPages n - 1) := same ▸ List.mem_cons_self ..
      exact block.own.set.disjoint_free free inBlock inFree
    · exact block.apart old

/-- The sets of a user who gives the middle of a set back. -/
def splitSets (sets : Set (List Nat)) (set xs ys : List Nat) : Set (List Nat) :=
  { part | (part ∈ sets ∧ part ≠ set) ∨ (part ≠ [] ∧ (part = xs ∨ part = ys)) }

/-- Another user gives pages back. -/
theorem HeapKept.freePages (kept : HeapKept h live sets l B) {pm : PageMem} {r : Option Nat} {f base : Nat}
    {tl xs ms ys : List Nat} (member : f :: tl ∈ sets) (split : f :: tl = xs ++ (base :: ms) ++ ys)
    (run : h.pm.freePages (some base) (ms.length + 1) = .ok (r, pm)) :
    ∃ l', HeapKept { h with pm := pm } live (splitSets sets (f :: tl) xs ys) l' B := by
  obtain ⟨f', tl', same, own⟩ := kept.owned _ member
  obtain ⟨rfl, rfl⟩ := List.cons.inj same
  obtain ⟨pm', l', done, free, -, -, geometry, parts, -, agree⟩ :=
    PageMem.freePagesFrom_spec kept.kept.free own.set split kept.kept.small
  obtain rfl : pm = pm' := by
    have both := run.symm.trans done
    exact (Prod.mk.inj (Except.ok.inj both)).2
  have inSet : ∀ part, part = xs ∨ part = ys → ∀ p ∈ part, p ∈ f :: tl := by
    intro part which p inside
    rw [split]
    rcases which with rfl | rfl <;> simp [inside]
  refine ⟨l', kept.elsewhere free geometry (fun c x holds => own.slabs kept.kept agree holds) ?_ ?_⟩
  · intro part inside
    rcases inside with ⟨old, different⟩ | ⟨nonempty, which⟩
    · obtain ⟨g, rest, rfl, other⟩ := kept.owned part old
      exact ⟨g, rest, rfl, other.frame geometry (own.others kept.kept agree other different) other.notSlab⟩
    · obtain ⟨x, rem, rfl⟩ := List.exists_cons_of_ne_nil nonempty
      have set := (parts x rem (which.imp Eq.symm Eq.symm)).1
      exact ⟨x, rem, rfl, set, own.not_holds kept.kept (inSet _ which x (List.mem_cons_self ..))⟩
  · intro a n isLive big
    obtain ⟨g, block⟩ := kept.large a n isLive big
    have different : g :: List.range' (g + 1) (blockPages n - 1) ≠ f :: tl := fun same => block.apart (same ▸ member)
    refine ⟨g, block.frame geometry (own.others kept.kept agree block.own different) block.own.notSlab ?_⟩
    rintro (⟨old, -⟩ | ⟨-, which⟩)
    · exact block.apart old
    · obtain ⟨rfl, rest⟩ := block.own.set.unique own.set (List.mem_cons_self ..) (inSet _ which g (List.mem_cons_self ..))
      exact different (by rw [rest])

/-- The owners of the blocks and of the pages write into them. -/
def Within (h : Heap) (live : Nat → Option Nat) (sets : Set (List Nat)) (m : ByteMem) : Prop :=
  ∀ b, m b ≠ h.pm.mem b → (∃ a n, live a = some n ∧ a ≤ b ∧ b < a + n) ∨ ∃ set ∈ sets, ∃ p ∈ set, h.pm.InPage p b

/-- The word in a free chunk is in no block. -/
theorem HeapKept.word_apart (kept : HeapKept h live sets l B) {c x i a n b : Nat} (holds : B.Holds c x) (free : i ∈ B.chain x)
    (lower : h.pm.pageToKvaddr x + i * cacheSize c ≤ b) (upper : b < h.pm.pageToKvaddr x + i * cacheSize c + 4)
    (isLive : live a = some n) : ¬ (a ≤ b ∧ b < a + n) := by
  rintro ⟨above, below⟩
  have slab := kept.kept.slab_of_holds holds
  have eight := (cacheSize_bounds slab.known).1
  have step := chunk_fits slab.known (slab.bound i free)
  have here : h.pm.InPage x b := ⟨by omega, by omega⟩
  obtain ⟨d, y, j, ⟨-, chunk, place⟩, enough, there⟩ | ⟨f, p, block, member, there⟩ := kept.page_of isLive above below
  · obtain rfl := there.unique here
    obtain rfl := kept.kept.holds_unique holds chunk.1
    have different : i ≠ j := fun same => chunk.2.2 (same ▸ free)
    have apart := chunk_apart (by omega) different lower upper
    omega
  · obtain rfl := there.unique here
    exact block.own.not_holds kept.kept member c holds

theorem HeapKept.write (kept : HeapKept h live sets l B) {m : ByteMem} (within : h.Within live sets m) :
    HeapKept { h with pm := { h.pm with mem := m } } live sets l B := by
  have again : ∀ {f : Nat} {tl : List Nat}, h.pm.AllocSet f tl → PageMem.AllocSet { h.pm with mem := m } f tl := fun set =>
    ⟨set.ring, set.sorted, set.reserved, set.bound, set.head, set.count, set.tails⟩
  have free := kept.kept.free
  have stored : ∀ c x, B.Holds c x → ChainAt m (h.pm.pageToKvaddr x) (cacheSize c) (B.chain x) := by
    intro c x holds
    have slab := kept.kept.slab_of_holds holds
    refine slab.stored.congr fun i free b lower upper => ?_
    by_contra changed
    rcases within b changed with ⟨a, n, isLive, above, below⟩ | ⟨set, inSets, p, inSet, there⟩
    · exact kept.word_apart holds free lower upper isLive ⟨above, below⟩
    · obtain ⟨f, tl, rfl, own⟩ := kept.owned set inSets
      have eight := (cacheSize_bounds slab.known).1
      have step := chunk_fits slab.known (slab.bound i free)
      have here : h.pm.InPage x b := ⟨by omega, by omega⟩
      exact own.not_holds kept.kept (there.unique here ▸ inSet) c holds
  refine ⟨⟨⟨free.ring, free.sorted, free.count, free.unreserved, free.bound⟩, kept.kept.small, kept.kept.sizes,
    kept.kept.last, kept.kept.queues, ?_, kept.kept.state⟩, kept.asked, ?_, kept.small, ?_⟩
  · intro k p member
    have slab := kept.kept.slabs k p member
    exact ⟨slab.known, again slab.set, slab.type, slab.extra, slab.nodup, slab.bound, stored k.1 p ⟨k.2, member⟩⟩
  · intro set inside
    obtain ⟨f, tl, same, own⟩ := kept.owned set inside
    exact ⟨f, tl, same, again own.set, own.notSlab⟩
  · intro a n isLive big
    obtain ⟨f, block⟩ := kept.large a n isLive big
    exact ⟨f, block.address, ⟨again block.own.set, block.own.notSlab⟩, block.type, block.apart⟩

/-- Another user marks its pages. -/
theorem HeapKept.setType (kept : HeapKept h live sets l B) {f : Nat} {tl : List Nat} {t : PageType} (member : f :: tl ∈ sets)
    (head : t ≠ .tail) : HeapKept { h with pm := h.pm.setType f t } live sets l B := by
  obtain ⟨f', tl', same, own⟩ := kept.owned _ member
  obtain ⟨rfl, rfl⟩ := List.cons.inj same
  have inside : h.pm.Inside (h.pm.setType f t) f := setPage_inside _ _ _ rfl rfl
  have geometry := inside.lists.geometry
  have frame : ∀ g rest, OwnSet h B g rest → g :: rest ≠ f :: tl → ∀ p ∈ g :: rest, h.pm.Agree (h.pm.setType f t) p := by
    intro g rest other different p inSet
    refine inside.agree fun shared => different ?_
    obtain ⟨rfl, rfl⟩ := other.set.unique own.set inSet (shared ▸ List.mem_cons_self ..)
    rfl
  refine kept.elsewhere (inside.lists.freeList kept.kept.free) geometry ?_ ?_ ?_
  · intro c x holds
    exact inside.agree fun same => own.notSlab c (same ▸ holds)
  · intro set old
    obtain ⟨g, rest, rfl, other⟩ := kept.owned set old
    by_cases same : g :: rest = f :: tl
    · obtain ⟨rfl, rfl⟩ := List.cons.inj same
      have set := own.set
      have page : ∀ p, (h.pm.setType g t).page p = if p = g then { h.pm.page g with type := t } else h.pm.page p := by
        intro p
        by_cases first : p = g
        · subst first
          simp [PageMem.setType, PageMem.setPage]
        · simp [PageMem.setType, PageMem.setPage, first]
      refine ⟨g, rest, rfl, ⟨set.ring, set.sorted, ?_, set.bound, ?_, ?_, ?_⟩, own.notSlab⟩
      · intro p inSet
        rw [page p]
        split_ifs with first
        · exact set.reserved g (List.mem_cons_self ..)
        · exact set.reserved p inSet
      · rw [page g, if_pos rfl]
        exact head
      · rw [page g, if_pos rfl]
        exact set.count
      · intro p inTail
        have later := (List.pairwise_cons.mp set.sorted).1 p inTail
        rw [page p, if_neg (by omega)]
        exact set.tails p inTail
    · exact ⟨g, rest, rfl, other.frame geometry (frame g rest other same) other.notSlab⟩
  · intro a n isLive big
    obtain ⟨g, block⟩ := kept.large a n isLive big
    exact ⟨g, block.frame geometry (frame g _ block.own fun same => block.apart (same ▸ member)) block.own.notSlab block.apart⟩

end Heap

end Xv6
