import Xv6.HeapBlocks

namespace Xv6

/-- A call of the page allocator or of the slab allocator. -/
inductive HeapCall
  | allocPages (num : Nat)
  | freePages (base num : Nat)
  | freeAllPages (p : Nat)
  | slabAlloc (bytes : Nat)
  | slabFree (ptr : Nat)

/-- What the users of the allocators hold: the blocks with their sizes and the sets of
pages; and the pages that went back to the free list in the run. -/
structure Holdings where
  live : Nat → Option Nat
  sets : Set (List Nat)
  freed : Set Nat

/-- The page is in the free list. -/
def PageMem.IsFree (s : PageMem) (p : Nat) : Prop := ∃ l, s.FreeList l ∧ p ∈ l

namespace Heap

/-- The call is carried out for a user who may make it, with its answer. -/
inductive Does (h : Heap) (o : Holdings) : HeapCall → Option Nat → Heap → Holdings → Prop
  | allocPages {num f : Nat} {tl : List Nat} {pm : PageMem} (run : h.pm.allocPages num = .ok (some f, pm)) (set : pm.AllocSet f tl) :
      Does h o (.allocPages num) (some f) { h with pm := pm } { o with sets := insert (f :: tl) o.sets }
  | refusePages {num : Nat} {pm : PageMem} (run : h.pm.allocPages num = .ok (none, pm)) :
      Does h o (.allocPages num) none { h with pm := pm } o
  | freePages {f base : Nat} {tl xs ms ys : List Nat} {r : Option Nat} {pm : PageMem} (member : f :: tl ∈ o.sets)
      (split : f :: tl = xs ++ (base :: ms) ++ ys) (run : h.pm.freePages (some base) (ms.length + 1) = .ok (r, pm)) :
      Does h o (.freePages base (ms.length + 1)) r { h with pm := pm }
        { o with sets := splitSets o.sets (f :: tl) xs ys, freed := o.freed ∪ { p | pm.IsFree p ∧ ¬ h.pm.IsFree p } }
  | freeNoPages {base : Nat} {r : Option Nat} {pm : PageMem} (run : h.pm.freePages (some base) 0 = .ok (r, pm)) :
      Does h o (.freePages base 0) r { h with pm := pm } o
  | freeAllPages {f p : Nat} {tl : List Nat} {pm : PageMem} (member : f :: tl ∈ o.sets) (inside : p ∈ f :: tl)
      (run : h.pm.freeAllPages p = .ok pm) :
      Does h o (.freeAllPages p) none { h with pm := pm }
        { o with sets := o.sets \ {f :: tl}, freed := o.freed ∪ { p | pm.IsFree p ∧ ¬ h.pm.IsFree p } }
  | slabAlloc {bytes a : Nat} {h' : Heap} (run : h.slabAlloc bytes = .ok (a, h')) :
      Does h o (.slabAlloc bytes) (some a) h' { o with live := if a = 0 then o.live else Function.update o.live a (some bytes) }
  | slabFree {a n : Nat} {h' : Heap} (isLive : o.live a = some n) (run : h.slabFree a = .ok h') :
      Does h o (.slabFree a) none h'
        { o with live := Function.update o.live a none, freed := o.freed ∪ { p | h'.pm.IsFree p ∧ ¬ h.pm.IsFree p } }

/-- What `slab_alloc` hands out is junk, whatever was in it. -/
theorem takeChunk_junk {h h' : Heap} {p c n a : Nat} (run : h.takeChunk p c n = .ok (a, h')) :
    ∀ b, a ≤ b → b < a + n → h'.pm.mem b = 2 := by
  intro b low high
  rw [takeChunk] at run
  split_ifs at run with negative
  obtain ⟨rfl, rfl⟩ := Prod.mk.inj (Except.ok.inj run)
  exact ByteMem.fill_inside low high

theorem slabAlloc_junk {h h' : Heap} {n a : Nat} (run : h.slabAlloc n = .ok (a, h')) (some : a ≠ 0) :
    ∀ b, a ≤ b → b < a + n → h'.pm.mem b = 2 := by
  rw [Heap.slabAlloc] at run
  obtain ⟨⟨c, h₁⟩, -, rest⟩ := Res.bind_eq_ok.mp run
  obtain ⟨⟨p, h₂⟩, -, last⟩ := Res.bind_eq_ok.mp rest
  cases p with
  | none => exact absurd (Prod.mk.inj (Except.ok.inj last)).1.symm some
  | some p => exact takeChunk_junk last

/-- Whatever cache `find_kmcache` finds, its chunks fit. -/
theorem findKmcache_sound {h h' : Heap} {c n : Nat} (sizes : ∀ c, (h.kmcache c).size = cacheSize c)
    (last : ∀ c, h.lastAccessed = some c → c < nrSlabOrders) (found : h.findKmcache n = .ok (c, h')) :
    c < nrSlabOrders ∧ Fits c n := by
  have fit : ∀ c, h.almostFit n c = true → Fits c n := by
    intro c almost
    rwa [almostFit, sizes, decide_eq_true_eq] at almost
  rw [findKmcache] at found
  split at found
  · rename_i cached
    obtain ⟨rfl, -⟩ := Prod.mk.inj (Except.ok.inj found)
    obtain ⟨isLast, almost⟩ := Option.filter_eq_some_iff.mp cached
    exact ⟨last _ isLast, fit _ almost⟩
  · split at found
    · rename_i first
      obtain ⟨rfl, -⟩ := Prod.mk.inj (Except.ok.inj found)
      exact ⟨List.mem_range.mp (List.mem_of_find?_eq_some first), fit _ (List.find?_some first)⟩
    · cases found

/-- A size that fits is a small one, and so is its multiple of 8. -/
theorem Fits.round {c n : Nat} (known : c < nrSlabOrders) (fits : Fits c n) :
    1 ≤ n ∧ n ≤ largeChunk ∧ Fits c (roundup n kmallocAlign) := by
  obtain ⟨eight, large, multiple, -⟩ := cacheSize_bounds known
  have limit : largeChunk = 8192 := rfl
  obtain ⟨lower, upper⟩ := fits
  have positive : 1 ≤ lbound (cacheSize c) := by
    rw [lbound_cacheSize known]
    split <;> omega
  rw [Fits, roundup_align (by omega)]
  omega

/-- The heap is kept, and the free pages that were freed in the run are junk. -/
structure Scrubbed (h : Heap) (o : Holdings) (l : List Nat) (B : Slabs) : Prop where
  kept : HeapKept h o.live o.sets l B
  small : ∀ a n, o.live a = some n → n ≤ largeChunk
  junk : ∀ p ∈ l, p ∈ o.freed → ∀ a, h.pm.InPage p a → h.pm.mem a = 1

variable {h h' : Heap} {o : Holdings} {l : List Nat} {B : Slabs}

theorem isFree_iff {s : PageMem} {l : List Nat} (free : s.FreeList l) {p : Nat} : s.IsFree p ↔ p ∈ l := by
  constructor
  · rintro ⟨l', free', member⟩
    rwa [free.unique free']
  · exact fun member => ⟨l, free, member⟩

/-- Pages went back to the free list, as junk. -/
theorem Scrubbed.freed (scrubbed : Scrubbed h o l B) {pm : PageMem} {l' : List Nat}
    (geometry : h.pm.SameGeometry pm) (same : ∀ p ∈ l, p ∈ l' → ∀ a, h.pm.InPage p a → pm.mem a = h.pm.mem a)
    (new : ∀ p ∈ l', p ∉ l → ∀ a, h.pm.InPage p a → pm.mem a = 1) :
    ∀ p ∈ l', p ∈ o.freed ∪ { p | pm.IsFree p ∧ ¬ h.pm.IsFree p } → ∀ a, pm.InPage p a → pm.mem a = 1 := by
  intro p member earlier a here
  rw [PageMem.InPage, geometry.kvaddr] at here
  by_cases old : p ∈ l
  · rw [same p old member a here]
    rcases earlier with before | ⟨-, now⟩
    · exact scrubbed.junk p old before a here
    · exact absurd ((isFree_iff scrubbed.kept.kept.free).mpr old) now
  · exact new p member old a here

theorem Scrubbed.allocPages (scrubbed : Scrubbed h o l B) {f : Nat} {tl ys : List Nat} (split : l = f :: tl ++ ys) :
    ∃ pm, h.pm.allocPages (tl.length + 1) = .ok (some f, pm) ∧ pm.AllocSet f tl ∧ pm.mem = h.pm.mem ∧ h.pm.SameGeometry pm ∧
      Scrubbed { h with pm := pm } { o with sets := insert (f :: tl) o.sets } ys B := by
  obtain ⟨pm, run, free, set, -, geometry, memory, -⟩ := PageMem.allocPages_spec (split ▸ scrubbed.kept.kept.free)
  obtain ⟨l', kept⟩ := scrubbed.kept.allocPages run set
  obtain rfl := kept.kept.free.unique free
  refine ⟨pm, run, set, memory, geometry, kept, scrubbed.small, fun p member earlier a here => ?_⟩
  have here' : pm.InPage p a := here
  rw [PageMem.InPage, geometry.kvaddr] at here'
  exact (congrFun memory a).trans (scrubbed.junk p (split ▸ List.mem_append_right _ member) earlier a here')

/-- Exactly the pages that came to the free list are overwritten. -/
theorem Scrubbed.shredded (scrubbed : Scrubbed h o l B) {pm : PageMem} {l' xs : List Nat} (geometry : h.pm.SameGeometry pm)
    (perm : l'.Perm (xs ++ l)) (apart : ∀ p ∈ xs, p ∉ l) (shredded : PageMem.Shredded h.pm pm xs) :
    ∀ p ∈ l', p ∈ o.freed ∪ { p | pm.IsFree p ∧ ¬ h.pm.IsFree p } → ∀ a, pm.InPage p a → pm.mem a = 1 := by
  refine scrubbed.freed geometry (fun p old _ a here => shredded.other a fun q member there => ?_) fun p member fresh a here => ?_
  · exact apart q member (there.unique here ▸ old)
  · rcases List.mem_append.mp (perm.mem_iff.mp member) with freed | old
    · exact shredded.junk p freed a here
    · exact absurd old fresh

theorem Scrubbed.freePages (scrubbed : Scrubbed h o l B) {f base : Nat} {tl xs ms ys : List Nat} (member : f :: tl ∈ o.sets)
    (split : f :: tl = xs ++ (base :: ms) ++ ys) :
    ∃ pm l', h.pm.freePages (some base) (ms.length + 1) = .ok (some (ys.headD f), pm) ∧ h.pm.SameGeometry pm ∧
      l'.Perm ((base :: ms).take ((ms.length + 1) % 2 ^ 32) ++ l) ∧
      Scrubbed { h with pm := pm }
        { o with sets := splitSets o.sets (f :: tl) xs ys, freed := o.freed ∪ { p | pm.IsFree p ∧ ¬ h.pm.IsFree p } } l' B := by
  obtain ⟨f', tl', same, own⟩ := scrubbed.kept.owned _ member
  obtain ⟨rfl, rfl⟩ := List.cons.inj same
  obtain ⟨pm, l', run, free, perm, shredded, geometry, -⟩ :=
    PageMem.freePagesFrom_spec scrubbed.kept.kept.free own.set split scrubbed.kept.kept.small
  obtain ⟨l'', kept⟩ := scrubbed.kept.freePages member split run
  obtain rfl := kept.kept.free.unique free
  refine ⟨pm, l'', run, geometry, perm, kept, scrubbed.small, scrubbed.shredded geometry perm (fun p inside => ?_) shredded⟩
  refine own.set.disjoint_free scrubbed.kept.kept.free ?_
  rw [split]
  exact List.mem_append_left _ (List.mem_append_right _ (List.mem_of_mem_take inside))

/-- Another user gives all of its pages back. -/
theorem HeapKept.freeAllPages {live : Nat → Option Nat} {sets : Set (List Nat)} (kept : HeapKept h live sets l B) {f : Nat}
    {tl l' : List Nat} {pm : PageMem} (member : f :: tl ∈ sets) (own : OwnSet h B f tl) (free : pm.FreeList l')
    (geometry : h.pm.SameGeometry pm) (agree : ∀ q, q ∉ l → q ∉ f :: tl → h.pm.Agree pm q) :
    HeapKept { h with pm := pm } live (sets \ {f :: tl}) l' B := by
  refine kept.elsewhere free geometry (fun c x holds => own.slabs kept.kept agree holds) ?_ ?_
  · rintro set ⟨old, different⟩
    obtain ⟨g, rest, rfl, other⟩ := kept.owned set old
    exact ⟨g, rest, rfl, other.frame geometry (own.others kept.kept agree other different) other.notSlab⟩
  · intro a n isLive big
    obtain ⟨g, block⟩ := kept.large a n isLive big
    have different : g :: List.range' (g + 1) (blockPages n - 1) ≠ f :: tl := fun same => block.apart (same ▸ member)
    exact ⟨g, block.frame geometry (own.others kept.kept agree block.own different) block.own.notSlab
      fun inside => block.apart inside.1⟩

theorem Scrubbed.freeAllPages (scrubbed : Scrubbed h o l B) {f p : Nat} {tl : List Nat} (member : f :: tl ∈ o.sets)
    (inside : p ∈ f :: tl) :
    ∃ pm l', h.pm.freeAllPages p = .ok pm ∧ h.pm.SameGeometry pm ∧
      l'.Perm ((f :: tl).take ((tl.length + 1) % 2 ^ 32) ++ l) ∧
      Scrubbed { h with pm := pm }
        { o with sets := o.sets \ {f :: tl}, freed := o.freed ∪ { p | pm.IsFree p ∧ ¬ h.pm.IsFree p } } l' B := by
  obtain ⟨f', tl', same, own⟩ := scrubbed.kept.owned _ member
  obtain ⟨rfl, rfl⟩ := List.cons.inj same
  have length : ((f :: tl).take ((tl.length + 1) % 2 ^ 32)).length = (tl.length + 1) % 2 ^ 32 := by
    rw [List.length_take, List.length_cons]
    exact Nat.min_eq_left (Nat.mod_le _ _)
  obtain ⟨pm, l', run, free, perm, shredded, geometry, -, agree⟩ :=
    PageMem.freeAllPages_spec scrubbed.kept.kept.free own.set inside (List.take_append_drop ..).symm length
  have kept := scrubbed.kept.freeAllPages member own free geometry agree
  refine ⟨pm, l', run, geometry, perm, kept, scrubbed.small, scrubbed.shredded geometry perm (fun p taken => ?_) shredded⟩
  exact own.set.disjoint_free scrubbed.kept.kept.free (List.mem_of_mem_take taken)

/-- A chunk was handed out, of a slab or of the first free page. -/
theorem Scrubbed.handed (scrubbed : Scrubbed h o l B) {c x i n : Nat} {l' : List Nat} {B' : Slabs} (known : c < nrSlabOrders)
    (fits : Fits c n) (served : Served h h' l l' B B' c x i)
    (bytes : ∀ q, q ≠ x → ∀ a, h.pm.InPage q a → h'.pm.mem a = h.pm.mem a) :
    Scrubbed h' { o with live := Function.update o.live (h.pm.pageToKvaddr x + i * cacheSize c) (some n) } l' B' := by
  obtain ⟨positive, small, rounded⟩ := fits.round known
  obtain ⟨-, kept⟩ := scrubbed.kept.handed known rounded positive small served
  refine ⟨kept, fun a m isLive => ?_, fun p member earlier a here => ?_⟩
  · rcases recorded isLive with ⟨-, rfl⟩ | old
    · exact small
    · exact scrubbed.small a m old
  · rw [PageMem.InPage, served.geometry.kvaddr] at here
    have old : p ∈ l ∧ p ≠ x := by
      rcases served.pages with ⟨rfl, b, holds⟩ | ⟨-, whole⟩
      · exact ⟨member, fun same => scrubbed.kept.kept.not_free holds (same ▸ member)⟩
      · have distinct := sorted_nodup scrubbed.kept.kept.free.sorted
        rw [whole] at distinct
        exact ⟨whole ▸ List.mem_cons_of_mem _ member, fun same => (List.nodup_cons.mp distinct).1 (same ▸ member)⟩
    rw [bytes p old.2 a here]
    exact scrubbed.junk p old.1 earlier a here

theorem Scrubbed.slabAlloc_take (scrubbed : Scrubbed h o l B) {c x i n : Nat} {others rest : List Nat} (known : c < nrSlabOrders)
    (fits : Fits c n) (queue : B.queue (c, true) = x :: others) (chain : B.chain x = i :: rest) :
    ∃ h', h.slabAlloc n = .ok (h.pm.pageToKvaddr x + i * cacheSize c, h') ∧ h.pm.SameGeometry h'.pm ∧
      Scrubbed h' { o with live := Function.update o.live (h.pm.pageToKvaddr x + i * cacheSize c) (some n) } l (B.take c x rest) := by
  have kept := scrubbed.kept.kept
  have member : x ∈ B.queue (c, true) := by simp [queue]
  have short : rest.length + 1 ≤ capacity c := by
    have all := (kept.slabs (c, true) x member).length_le
    rwa [chain] at all
  obtain ⟨h', run, kept', inside⟩ := kept.slabAlloc_take known fits (by rw [queue]; rfl) chain
  have served : Served h h' l l B (B.take c x rest) c x i := ⟨kept', kept.handed_take member chain short,
    .inl ⟨rfl, true, member⟩, inside.lists.geometry, fun q _ other => inside.agree other⟩
  exact ⟨h', run, inside.lists.geometry, scrubbed.handed known fits served fun q other a here => inside.bytes other here⟩

theorem Scrubbed.slabAlloc_new {x : Nat} (scrubbed : Scrubbed h o (x :: l) B) {c n : Nat} {rest : List Nat} (known : c < nrSlabOrders)
    (fits : Fits c n) (queue : B.queue (c, true) = []) (chain : List.range (capacity c) = 0 :: rest) :
    ∃ h', h.slabAlloc n = .ok (h.pm.pageToKvaddr x + 0 * cacheSize c, h') ∧ h.pm.SameGeometry h'.pm ∧
      Scrubbed h' { o with live := Function.update o.live (h.pm.pageToKvaddr x + 0 * cacheSize c) (some n) } l
        (Slabs.take ⟨Function.update B.queue (c, true) [x], Function.update B.chain x (List.range (capacity c))⟩ c x rest) := by
  obtain ⟨h', B', rfl, run, kept', handed, geometry, agree, bytes⟩ := scrubbed.kept.kept.slabAlloc_new known fits queue chain
  exact ⟨h', run, geometry, scrubbed.handed known fits ⟨kept', handed, .inr ⟨queue, rfl⟩, geometry, agree⟩ bytes⟩

theorem Scrubbed.slabFree (scrubbed : Scrubbed h o l B) {a c x i : Nat} {b : Bool} (place : a = h.pm.pageToKvaddr x + i * cacheSize c)
    (member : x ∈ B.queue (c, b)) (bound : i < capacity c) (absent : i ∉ B.chain x) :
    ∃ h' l', h.slabFree a = .ok h' ∧ h.pm.SameGeometry h'.pm ∧
      l'.Perm (if (B.chain x).length + 1 = capacity c then x :: l else l) ∧
      Scrubbed h' { o with live := Function.update o.live a none, freed := o.freed ∪ { p | h'.pm.IsFree p ∧ ¬ h.pm.IsFree p } } l'
        (B.put c x i) := by
  obtain ⟨h', l', run, kept, geometry, perm, bytes, shredded⟩ := scrubbed.kept.slabFree place member bound absent
  refine ⟨h', l', run, geometry, perm, kept, fun b m isLive => ?_, ?_⟩
  · by_cases same : b = a
    · subst same
      simp only [Function.update_self] at isLive
      cases isLive
    · simp only [Function.update_of_ne same] at isLive
      exact scrubbed.small b m isLive
  · refine scrubbed.freed geometry (fun p old _ => bytes p fun same => ?_) fun p inside fresh a here => ?_
    · exact scrubbed.kept.kept.not_free member (same ▸ old)
    · rw [perm.mem_iff] at inside
      split_ifs at inside with full
      · obtain rfl := (List.mem_cons.mp inside).resolve_right fresh
        exact shredded full a here
      · exact absurd inside fresh

/-- The owners' writes do not reach the free pages. -/
theorem Scrubbed.write (scrubbed : Scrubbed h o l B) {m : ByteMem} (within : h.Within o.live o.sets m) :
    Scrubbed { h with pm := { h.pm with mem := m } } o l B := by
  refine ⟨scrubbed.kept.write within, scrubbed.small, fun p member earlier a here => ?_⟩
  have here' : h.pm.InPage p a := here
  have same : m a = h.pm.mem a := by
    by_contra changed
    rcases within a changed with ⟨b, n, isLive, low, high⟩ | ⟨set, inSets, q, inSet, there⟩
    · obtain ⟨c, x, i, chunk, -, there⟩ | ⟨f, q, block, inBlock, there⟩ := scrubbed.kept.page_of isLive low high
      · obtain ⟨-, ⟨⟨d, holds⟩, -⟩, -⟩ := chunk
        exact scrubbed.kept.kept.not_free holds (there.unique here' ▸ member)
      · exact block.own.set.disjoint_free scrubbed.kept.kept.free inBlock (there.unique here' ▸ member)
    · obtain ⟨f, tl, rfl, own⟩ := scrubbed.kept.owned set inSets
      exact own.set.disjoint_free scrubbed.kept.kept.free inSet (there.unique here' ▸ member)
  exact same.trans (scrubbed.junk p member earlier a here')

/-- Two heaps that differ in what the bytes of the owners are, and in nothing else that matters. -/
def Twins (h₁ h₂ : Heap) (o : Holdings) : Prop := ∃ l B, Scrubbed h₁ o l B ∧ Scrubbed h₂ o l B ∧ h₁.pm.SameGeometry h₂.pm

variable {h₁ h₂ h₁' h₂' : Heap}

theorem fits_of_slabAlloc (kept : Kept h l B) {n a : Nat} (run : h.slabAlloc n = .ok (a, h')) : ∃ c, c < nrSlabOrders ∧ Fits c n := by
  rw [Heap.slabAlloc] at run
  obtain ⟨⟨c, h₁⟩, found, -⟩ := Res.bind_eq_ok.mp run
  exact ⟨c, findKmcache_sound kept.sizes kept.last found⟩

theorem across {s₁ s₂ s₁' s₂' : PageMem} (geometry : s₁.SameGeometry s₂) (first : s₁.SameGeometry s₁') (second : s₂.SameGeometry s₂') :
    s₁'.SameGeometry s₂' :=
  ⟨second.base.trans (geometry.base.trans first.base.symm), second.pages.trans (geometry.pages.trans first.pages.symm)⟩

/-- The choice of a chunk depends on the slabs only. -/
theorem Twins.slabAlloc (twins : Twins h₁ h₂ o) {n a₁ a₂ : Nat} (run₁ : h₁.slabAlloc n = .ok (a₁, h₁'))
    (run₂ : h₂.slabAlloc n = .ok (a₂, h₂')) :
    a₁ = a₂ ∧ Twins h₁' h₂' { o with live := if a₁ = 0 then o.live else Function.update o.live a₁ (some n) } := by
  obtain ⟨l, B, scrubbed₁, scrubbed₂, geometry⟩ := twins
  obtain ⟨c, known, fits⟩ := fits_of_slabAlloc scrubbed₁.kept.kept run₁
  have address := geometry.kvaddr
  cases queue : B.queue (c, true) with
  | cons x others =>
    obtain ⟨i, rest, chain⟩ := List.exists_cons_of_ne_nil
      ((scrubbed₁.kept.kept.state (c, true) x (by simp [queue])).mpr rfl)
    obtain ⟨k₁, done₁, geometry₁, next₁⟩ := scrubbed₁.slabAlloc_take known fits queue chain
    obtain ⟨k₂, done₂, geometry₂, next₂⟩ := scrubbed₂.slabAlloc_take known fits queue chain
    obtain ⟨rfl, rfl⟩ := Prod.mk.inj (Except.ok.inj (run₁.symm.trans done₁))
    obtain ⟨rfl, rfl⟩ := Prod.mk.inj (Except.ok.inj (run₂.symm.trans done₂))
    rw [address] at next₂ ⊢
    rw [if_neg SlabRun.address_ne_zero]
    exact ⟨rfl, l, _, next₁, next₂, across geometry geometry₁ geometry₂⟩
  | nil =>
    cases l with
    | nil =>
      have done₁ := slabAlloc_null scrubbed₁.kept.kept known fits queue
      have done₂ := slabAlloc_null scrubbed₂.kept.kept known fits queue
      obtain ⟨rfl, rfl⟩ := Prod.mk.inj (Except.ok.inj (run₁.symm.trans done₁))
      obtain ⟨rfl, rfl⟩ := Prod.mk.inj (Except.ok.inj (run₂.symm.trans done₂))
      exact ⟨rfl, [], B, ⟨scrubbed₁.kept.remember known, scrubbed₁.small, by simp⟩,
        ⟨scrubbed₂.kept.remember known, scrubbed₂.small, by simp⟩, geometry⟩
    | cons x l₁ =>
      have two := (cacheSize_bounds known).2.2.2.1
      obtain ⟨rest, chain⟩ : ∃ rest, List.range (capacity c) = 0 :: rest := by
        obtain ⟨m, eq⟩ : ∃ m, capacity c = m + 1 := ⟨capacity c - 1, by omega⟩
        exact ⟨_, by rw [eq, List.range_succ_eq_map]⟩
      obtain ⟨k₁, done₁, geometry₁, next₁⟩ := scrubbed₁.slabAlloc_new known fits queue chain
      obtain ⟨k₂, done₂, geometry₂, next₂⟩ := scrubbed₂.slabAlloc_new known fits queue chain
      obtain ⟨rfl, rfl⟩ := Prod.mk.inj (Except.ok.inj (run₁.symm.trans done₁))
      obtain ⟨rfl, rfl⟩ := Prod.mk.inj (Except.ok.inj (run₂.symm.trans done₂))
      rw [address] at next₂ ⊢
      rw [if_neg SlabRun.address_ne_zero]
      exact ⟨rfl, l₁, _, next₁, next₂, across geometry geometry₁ geometry₂⟩

/-- The same pages came to both free lists. -/
theorem Scrubbed.twins {live : Nat → Option Nat} {sets : Set (List Nat)} {l l₁ l₂ xs : List Nat} {B' : Slabs}
    (scrubbed₁ : Scrubbed h₁ o l B) (scrubbed₂ : Scrubbed h₂ o l B) (geometry : h₁'.pm.SameGeometry h₂'.pm)
    (next₁ : Scrubbed h₁' ⟨live, sets, o.freed ∪ { p | h₁'.pm.IsFree p ∧ ¬ h₁.pm.IsFree p }⟩ l₁ B') (perm₁ : l₁.Perm xs)
    (next₂ : Scrubbed h₂' ⟨live, sets, o.freed ∪ { p | h₂'.pm.IsFree p ∧ ¬ h₂.pm.IsFree p }⟩ l₂ B') (perm₂ : l₂.Perm xs) :
    { p | h₁'.pm.IsFree p ∧ ¬ h₁.pm.IsFree p } = { p | h₂'.pm.IsFree p ∧ ¬ h₂.pm.IsFree p } ∧
      Twins h₁' h₂' ⟨live, sets, o.freed ∪ { p | h₁'.pm.IsFree p ∧ ¬ h₁.pm.IsFree p }⟩ := by
  have free₁ := next₁.kept.kept.free
  have free₂ := next₂.kept.kept.free
  obtain rfl : l₁ = l₂ := sorted_ext free₁.sorted free₂.sorted fun p => by rw [perm₁.mem_iff, perm₂.mem_iff]
  have same : { p | h₁'.pm.IsFree p ∧ ¬ h₁.pm.IsFree p } = { p | h₂'.pm.IsFree p ∧ ¬ h₂.pm.IsFree p } := by
    ext p
    simp only [Set.mem_ofPred_eq, isFree_iff free₁, isFree_iff free₂, isFree_iff scrubbed₁.kept.kept.free,
      isFree_iff scrubbed₂.kept.kept.free]
  exact ⟨same, l₁, B', next₁, same ▸ next₂, geometry⟩

theorem Twins.slabFree (twins : Twins h₁ h₂ o) {a n : Nat} (isLive : o.live a = some n) (run₁ : h₁.slabFree a = .ok h₁')
    (run₂ : h₂.slabFree a = .ok h₂') :
    { p | h₁'.pm.IsFree p ∧ ¬ h₁.pm.IsFree p } = { p | h₂'.pm.IsFree p ∧ ¬ h₂.pm.IsFree p } ∧
      Twins h₁' h₂' ⟨Function.update o.live a none, o.sets, o.freed ∪ { p | h₁'.pm.IsFree p ∧ ¬ h₁.pm.IsFree p }⟩ := by
  obtain ⟨l, B, scrubbed₁, scrubbed₂, geometry⟩ := twins
  obtain ⟨c, x, i, -, ⟨⟨b, member⟩, bound, absent⟩, place⟩ := scrubbed₁.kept.small a n isLive (scrubbed₁.small a n isLive)
  obtain ⟨k₁, l₁, done₁, geometry₁, perm₁, next₁⟩ := scrubbed₁.slabFree place member bound absent
  have place₂ : a = h₂.pm.pageToKvaddr x + i * cacheSize c := by rw [geometry.kvaddr, place]
  obtain ⟨k₂, l₂, done₂, geometry₂, perm₂, next₂⟩ := scrubbed₂.slabFree place₂ member bound absent
  obtain rfl := Except.ok.inj (run₁.symm.trans done₁)
  obtain rfl := Except.ok.inj (run₂.symm.trans done₂)
  exact scrubbed₁.twins scrubbed₂ (across geometry geometry₁ geometry₂) next₁ perm₁ next₂ perm₂

theorem Twins.freeAllPages (twins : Twins h₁ h₂ o) {f p : Nat} {tl : List Nat} {pm₁ pm₂ : PageMem} (member : f :: tl ∈ o.sets)
    (inside : p ∈ f :: tl) (run₁ : h₁.pm.freeAllPages p = .ok pm₁) (run₂ : h₂.pm.freeAllPages p = .ok pm₂) :
    { p | pm₁.IsFree p ∧ ¬ h₁.pm.IsFree p } = { p | pm₂.IsFree p ∧ ¬ h₂.pm.IsFree p } ∧
      Twins { h₁ with pm := pm₁ } { h₂ with pm := pm₂ }
        ⟨o.live, o.sets \ {f :: tl}, o.freed ∪ { p | pm₁.IsFree p ∧ ¬ h₁.pm.IsFree p }⟩ := by
  obtain ⟨l, B, scrubbed₁, scrubbed₂, geometry⟩ := twins
  obtain ⟨k₁, l₁, done₁, geometry₁, perm₁, next₁⟩ := scrubbed₁.freeAllPages member inside
  obtain ⟨k₂, l₂, done₂, geometry₂, perm₂, next₂⟩ := scrubbed₂.freeAllPages member inside
  obtain rfl := Except.ok.inj (run₁.symm.trans done₁)
  obtain rfl := Except.ok.inj (run₂.symm.trans done₂)
  exact scrubbed₁.twins scrubbed₂ (across geometry geometry₁ geometry₂) next₁ perm₁ next₂ perm₂

theorem Twins.freePages (twins : Twins h₁ h₂ o) {f base : Nat} {tl xs ms ys : List Nat} {r₁ r₂ : Option Nat} {pm₁ pm₂ : PageMem}
    (member : f :: tl ∈ o.sets) (split : f :: tl = xs ++ (base :: ms) ++ ys)
    (run₁ : h₁.pm.freePages (some base) (ms.length + 1) = .ok (r₁, pm₁))
    (run₂ : h₂.pm.freePages (some base) (ms.length + 1) = .ok (r₂, pm₂)) :
    r₁ = r₂ ∧ { p | pm₁.IsFree p ∧ ¬ h₁.pm.IsFree p } = { p | pm₂.IsFree p ∧ ¬ h₂.pm.IsFree p } ∧
      Twins { h₁ with pm := pm₁ } { h₂ with pm := pm₂ }
        ⟨o.live, splitSets o.sets (f :: tl) xs ys, o.freed ∪ { p | pm₁.IsFree p ∧ ¬ h₁.pm.IsFree p }⟩ := by
  obtain ⟨l, B, scrubbed₁, scrubbed₂, geometry⟩ := twins
  obtain ⟨k₁, l₁, done₁, geometry₁, perm₁, next₁⟩ := scrubbed₁.freePages member split
  obtain ⟨k₂, l₂, done₂, geometry₂, perm₂, next₂⟩ := scrubbed₂.freePages member split
  obtain ⟨rfl, rfl⟩ := Prod.mk.inj (Except.ok.inj (run₁.symm.trans done₁))
  obtain ⟨rfl, rfl⟩ := Prod.mk.inj (Except.ok.inj (run₂.symm.trans done₂))
  exact ⟨rfl, scrubbed₁.twins scrubbed₂ (across geometry geometry₁ geometry₂) next₁ perm₁ next₂ perm₂⟩

/-- A set is split by a page and a number in one way only. -/
theorem split_unique {xs xs' ms ms' ys ys' : List Nat} {base : Nat} (distinct : (xs ++ (base :: ms) ++ ys).Nodup)
    (same : xs ++ (base :: ms) ++ ys = xs' ++ (base :: ms') ++ ys') (length : ms.length = ms'.length) :
    xs = xs' ∧ ms = ms' ∧ ys = ys' := by
  simp only [List.append_assoc] at same distinct
  have before : ∀ {as bs : List Nat}, (as ++ base :: bs).Nodup → (as ++ base :: bs).idxOf base = as.length := by
    intro as bs nodup
    have outside : base ∉ as := fun inside => (List.nodup_append.mp nodup).2.2 base inside base (List.mem_cons_self ..) rfl
    rw [List.idxOf_append_of_notMem outside, List.idxOf_cons_self, Nat.add_zero]
  have first : xs.length = xs'.length := by
    rw [List.cons_append] at same distinct
    rw [← before distinct, same, List.cons_append, before (by rwa [same, List.cons_append] at distinct)]
  obtain ⟨rfl, rest⟩ := List.append_inj same first
  obtain ⟨whole, rfl⟩ := List.append_inj rest (by simp [length])
  exact ⟨rfl, (List.cons.inj whole).2, rfl⟩

theorem Twins.allocPages (twins : Twins h₁ h₂ o) {num f₁ f₂ : Nat} {tl₁ tl₂ : List Nat} {pm₁ pm₂ : PageMem}
    (run₁ : h₁.pm.allocPages num = .ok (some f₁, pm₁)) (set₁ : pm₁.AllocSet f₁ tl₁)
    (run₂ : h₂.pm.allocPages num = .ok (some f₂, pm₂)) (set₂ : pm₂.AllocSet f₂ tl₂) :
    f₁ = f₂ ∧ tl₁ = tl₂ ∧
      Twins { h₁ with pm := pm₁ } { h₂ with pm := pm₂ } ⟨o.live, insert (f₁ :: tl₁) o.sets, o.freed⟩ := by
  obtain ⟨l, B, scrubbed₁, scrubbed₂, geometry⟩ := twins
  obtain ⟨tl, ys, split, length, -⟩ := PageMem.allocPages_served scrubbed₁.kept.kept.free run₁
  subst length
  obtain ⟨k₁, done₁, new₁, -, geometry₁, next₁⟩ := scrubbed₁.allocPages split
  obtain ⟨k₂, done₂, new₂, -, geometry₂, next₂⟩ := scrubbed₂.allocPages split
  obtain ⟨-, rfl⟩ := Prod.mk.inj (Except.ok.inj (run₁.symm.trans done₁))
  obtain ⟨first, rfl⟩ := Prod.mk.inj (Except.ok.inj (run₂.symm.trans done₂))
  obtain rfl := Option.some.inj first
  obtain ⟨-, rfl⟩ := set₁.unique new₁ (List.mem_cons_self ..) (List.mem_cons_self ..)
  obtain ⟨-, rfl⟩ := set₂.unique new₂ (List.mem_cons_self ..) (List.mem_cons_self ..)
  exact ⟨rfl, rfl, ys, B, next₁, next₂, across geometry geometry₁ geometry₂⟩

/-- Where one heap has the pages, the other one has them, too. -/
theorem Twins.not_refused (twins : Twins h₁ h₂ o) {num f : Nat} {pm₁ pm₂ : PageMem}
    (run₁ : h₁.pm.allocPages num = .ok (some f, pm₁)) : h₂.pm.allocPages num ≠ .ok (none, pm₂) := by
  intro run₂
  obtain ⟨l, B, scrubbed₁, scrubbed₂, -⟩ := twins
  obtain ⟨tl, ys, split, length, -⟩ := PageMem.allocPages_served scrubbed₁.kept.kept.free run₁
  subst length
  obtain ⟨pm, done, -⟩ := scrubbed₂.allocPages split
  cases run₂.symm.trans done

theorem Twins.symm (twins : Twins h₁ h₂ o) : Twins h₂ h₁ o := by
  obtain ⟨l, B, scrubbed₁, scrubbed₂, geometry⟩ := twins
  exact ⟨l, B, scrubbed₂, scrubbed₁, geometry.base.symm, geometry.pages.symm⟩

/-- The sets of the owners have no page in common. -/
theorem Twins.set_unique (twins : Twins h₁ h₂ o) {f g p : Nat} {tl rest : List Nat} (left : f :: tl ∈ o.sets) (right : g :: rest ∈ o.sets)
    (inLeft : p ∈ f :: tl) (inRight : p ∈ g :: rest) : f = g ∧ tl = rest := by
  obtain ⟨l, B, scrubbed, -⟩ := twins
  obtain ⟨f', tl', same, own⟩ := scrubbed.kept.owned _ left
  obtain ⟨g', rest', same', own'⟩ := scrubbed.kept.owned _ right
  obtain ⟨rfl, rfl⟩ := List.cons.inj same
  obtain ⟨rfl, rfl⟩ := List.cons.inj same'
  exact own.set.unique own'.set inLeft inRight

theorem Twins.set_nodup (twins : Twins h₁ h₂ o) {f : Nat} {tl : List Nat} (member : f :: tl ∈ o.sets) : (f :: tl).Nodup := by
  obtain ⟨l, B, scrubbed, -⟩ := twins
  obtain ⟨f', tl', same, own⟩ := scrubbed.kept.owned _ member
  rw [same]
  exact sorted_nodup own.set.sorted

/-- A call has the same answer in both heaps, and leaves them twins. -/
theorem Twins.does (twins : Twins h₁ h₂ o) {call : HeapCall} {r₁ r₂ : Option Nat} {o₁ o₂ : Holdings}
    (does₁ : Does h₁ o call r₁ h₁' o₁) (does₂ : Does h₂ o call r₂ h₂' o₂) : r₁ = r₂ ∧ o₁ = o₂ ∧ Twins h₁' h₂' o₁ := by
  cases does₁ with
  | allocPages run₁ set₁ =>
    cases does₂ with
    | allocPages run₂ set₂ =>
      obtain ⟨rfl, rfl, next⟩ := twins.allocPages run₁ set₁ run₂ set₂
      exact ⟨rfl, rfl, next⟩
    | refusePages run₂ => exact absurd run₂ (twins.not_refused run₁)
  | refusePages run₁ =>
    cases does₂ with
    | allocPages run₂ set₂ => exact absurd run₁ (twins.symm.not_refused run₂)
    | refusePages run₂ =>
      obtain rfl := PageMem.allocPages_null run₁
      obtain rfl := PageMem.allocPages_null run₂
      exact ⟨rfl, rfl, twins⟩
  | @freePages f₁ base tl₁ xs₁ ms₁ ys₁ _ _ member₁ split₁ run₁ =>
    generalize defNum : ms₁.length + 1 = num at does₂
    cases does₂ with
    | @freePages f₂ _ tl₂ xs₂ ms₂ ys₂ _ _ member₂ split₂ run₂ =>
      have inside₁ : base ∈ f₁ :: tl₁ := by simp [split₁]
      have inside₂ : base ∈ f₂ :: tl₂ := by simp [split₂]
      obtain ⟨rfl, rfl⟩ := twins.set_unique member₁ member₂ inside₁ inside₂
      obtain ⟨rfl, rfl, rfl⟩ := split_unique (split₁ ▸ twins.set_nodup member₁) (split₁.symm.trans split₂) (Nat.succ.inj defNum)
      obtain ⟨answer, same, next⟩ := twins.freePages member₁ split₁ run₁ run₂
      exact ⟨answer, by rw [same], next⟩
    | freeNoPages run₂ => cases defNum
  | freeNoPages run₁ =>
    cases does₂ with
    | freeNoPages run₂ =>
      obtain ⟨rfl, rfl⟩ := Prod.mk.inj (Except.ok.inj run₁)
      obtain ⟨rfl, rfl⟩ := Prod.mk.inj (Except.ok.inj run₂)
      exact ⟨rfl, rfl, twins⟩
  | freeAllPages member₁ inside₁ run₁ =>
    cases does₂ with
    | freeAllPages member₂ inside₂ run₂ =>
      obtain ⟨rfl, rfl⟩ := twins.set_unique member₁ member₂ inside₁ inside₂
      obtain ⟨same, next⟩ := twins.freeAllPages member₁ inside₁ run₁ run₂
      exact ⟨rfl, by rw [same], next⟩
  | slabAlloc run₁ =>
    cases does₂ with
    | slabAlloc run₂ =>
      obtain ⟨rfl, next⟩ := twins.slabAlloc run₁ run₂
      exact ⟨rfl, rfl, next⟩
  | slabFree isLive₁ run₁ =>
    cases does₂ with
    | slabFree isLive₂ run₂ =>
      obtain ⟨same, next⟩ := twins.slabFree isLive₁ run₁ run₂
      exact ⟨rfl, by rw [same], next⟩

/-- The pages that are handed out again are as they were in the free list. -/
theorem Scrubbed.again (scrubbed : Scrubbed h o l B) {num f : Nat} {tl : List Nat} {pm : PageMem}
    (run : h.pm.allocPages num = .ok (some f, pm)) (set : pm.AllocSet f tl) :
    ∀ p ∈ f :: tl, p ∈ o.freed → ∀ i < 16384, pm.mem (pm.pageToKvaddr p + i) = 1 := by
  obtain ⟨tl', ys, split, length, -⟩ := PageMem.allocPages_served scrubbed.kept.kept.free run
  subst length
  obtain ⟨k, done, new, memory, geometry, -⟩ := scrubbed.allocPages split
  obtain ⟨-, rfl⟩ := Prod.mk.inj (Except.ok.inj (run.symm.trans done))
  obtain ⟨-, rfl⟩ := set.unique new (List.mem_cons_self ..) (List.mem_cons_self ..)
  intro p member earlier i inside
  rw [memory, geometry.kvaddr]
  exact scrubbed.junk p (split ▸ List.mem_append_left _ member) earlier _ ⟨by omega, by omega⟩

/-- What a call hands out has the same contents in both heaps, if it was in use before. -/
structure Blank (call : HeapCall) (r : Option Nat) (freed : Set Nat) (h₁ h₂ : Heap) : Prop where
  pages : ∀ num f tl, call = .allocPages num → r = some f → h₁.pm.AllocSet f tl → h₂.pm.AllocSet f tl ∧
    ∀ p ∈ f :: tl, p ∈ freed → ∀ i < 16384,
      h₁.pm.mem (h₁.pm.pageToKvaddr p + i) = 1 ∧ h₂.pm.mem (h₂.pm.pageToKvaddr p + i) = 1
  block : ∀ n a, call = .slabAlloc n → r = some a → a ≠ 0 → ∀ i < n, h₁.pm.mem (a + i) = 2 ∧ h₂.pm.mem (a + i) = 2

theorem Twins.blank (twins : Twins h₁ h₂ o) {call : HeapCall} {r : Option Nat} {o₁ o₂ : Holdings}
    (does₁ : Does h₁ o call r h₁' o₁) (does₂ : Does h₂ o call r h₂' o₂) : Blank call r o.freed h₁' h₂' where
  pages := by
    rintro num f tl rfl rfl set
    cases does₁ with
    | allocPages run₁ set₁ =>
      cases does₂ with
      | allocPages run₂ set₂ =>
        obtain ⟨-, rfl⟩ := set.unique set₁ (List.mem_cons_self ..) (List.mem_cons_self ..)
        obtain ⟨-, rfl, -⟩ := twins.allocPages run₁ set₁ run₂ set₂
        obtain ⟨l, B, scrubbed₁, scrubbed₂, -⟩ := twins
        exact ⟨set₂, fun p member earlier i inside =>
          ⟨scrubbed₁.again run₁ set₁ p member earlier i inside, scrubbed₂.again run₂ set₂ p member earlier i inside⟩⟩
  block := by
    rintro n a rfl rfl some i inside
    cases does₁ with
    | slabAlloc run₁ =>
      cases does₂ with
      | slabAlloc run₂ =>
        exact ⟨slabAlloc_junk run₁ some _ (Nat.le_add_right _ _) (Nat.add_lt_add_left inside a),
          slabAlloc_junk run₂ some _ (Nat.le_add_right _ _) (Nat.add_lt_add_left inside a)⟩

end Heap

open Heap

/-- Two runs of the allocators with the same calls. Between the calls the owners
write into what they have, in each run for itself. -/
inductive TwoRuns (pm : PageMem) (links : Links Nat) : Heap → Holdings → Heap → Holdings → Prop
  | bootstrap :
      TwoRuns pm links (slabBootstrap pm links) ⟨fun _ => none, ∅, ∅⟩ (slabBootstrap pm links) ⟨fun _ => none, ∅, ∅⟩
  | call {h₁ h₂ h₁' h₂' : Heap} {o₁ o₂ o₁' o₂' : Holdings} {call : HeapCall} {r₁ r₂ : Option Nat}
      (before : TwoRuns pm links h₁ o₁ h₂ o₂) (does₁ : h₁.Does o₁ call r₁ h₁' o₁') (does₂ : h₂.Does o₂ call r₂ h₂' o₂') :
      TwoRuns pm links h₁' o₁' h₂' o₂'
  | writeLeft {h₁ h₂ : Heap} {o₁ o₂ : Holdings} {m : ByteMem} (before : TwoRuns pm links h₁ o₁ h₂ o₂)
      (within : h₁.Within o₁.live o₁.sets m) : TwoRuns pm links { h₁ with pm := { h₁.pm with mem := m } } o₁ h₂ o₂
  | writeRight {h₁ h₂ : Heap} {o₁ o₂ : Holdings} {m : ByteMem} (before : TwoRuns pm links h₁ o₁ h₂ o₂)
      (within : h₂.Within o₂.live o₂.sets m) : TwoRuns pm links h₁ o₁ { h₂ with pm := { h₂.pm with mem := m } } o₂

namespace TwoRuns

variable {pm : PageMem} {links : Links Nat} {l₀ : List Nat} {h₁ h₂ h₁' h₂' : Heap} {o₁ o₂ o₁' o₂' : Holdings}

theorem twins (runs : TwoRuns pm links h₁ o₁ h₂ o₂) (start : pm.FreeList l₀) (size : pm.nrPages < 2 ^ 64) :
    o₁ = o₂ ∧ Twins h₁ h₂ o₁ := by
  induction runs with
  | bootstrap =>
    have scrubbed : Scrubbed (slabBootstrap pm links) ⟨fun _ => none, ∅, ∅⟩ l₀ ⟨fun _ => [], fun _ => []⟩ := by
      refine ⟨⟨kept_bootstrap start size links, ?_, ?_, ?_, ?_⟩, ?_, ?_⟩
      all_goals simp
    exact ⟨rfl, l₀, _, scrubbed, scrubbed, .refl _⟩
  | call before does₁ does₂ ih =>
    obtain ⟨rfl, twins⟩ := ih
    obtain ⟨-, same, next⟩ := twins.does does₁ does₂
    exact ⟨same, next⟩
  | writeLeft before within ih =>
    obtain ⟨rfl, l, B, scrubbed₁, scrubbed₂, geometry⟩ := ih
    exact ⟨rfl, l, B, scrubbed₁.write within, scrubbed₂, geometry.base, geometry.pages⟩
  | writeRight before within ih =>
    obtain ⟨rfl, l, B, scrubbed₁, scrubbed₂, geometry⟩ := ih
    exact ⟨rfl, l, B, scrubbed₁, scrubbed₂.write within, geometry.base, geometry.pages⟩

/-- No byte of an owner reaches the next one: a call has the same answer in both runs,
and what it hands out has the same contents. -/
theorem handsOutBlank (start : pm.FreeList l₀) (size : pm.nrPages < 2 ^ 64) (runs : TwoRuns pm links h₁ o₁ h₂ o₂) {call : HeapCall}
    {r₁ r₂ : Option Nat} (does₁ : h₁.Does o₁ call r₁ h₁' o₁') (does₂ : h₂.Does o₂ call r₂ h₂' o₂') :
    o₁ = o₂ ∧ r₁ = r₂ ∧ o₁' = o₂' ∧ Blank call r₁ o₁.freed h₁' h₂' := by
  obtain ⟨rfl, twins⟩ := runs.twins start size
  obtain ⟨rfl, same, -⟩ := twins.does does₁ does₂
  exact ⟨rfl, rfl, same, twins.blank does₁ does₂⟩

/-- A page is taken, written in one of the runs, given back and taken again. -/
theorem handsOutBlank_four : ∃ (h₁ h₂ h₁' h₂' : Heap) (o o' : Holdings),
    TwoRuns (initPageArray 0 4 ⟨id, id⟩ fun _ => 0) ⟨id, id⟩ h₁ o h₂ o ∧ h₁.Does o (.allocPages 1) (some 1) h₁' o' ∧
      h₂.Does o (.allocPages 1) (some 1) h₂' o' ∧ 1 ∈ o.freed ∧ Blank (.allocPages 1) (some 1) o.freed h₁' h₂' := by
  have start := PageMem.bootFree ⟨id, id⟩ fun _ => 0
  have size : (initPageArray 0 4 ⟨id, id⟩ fun _ => 0).nrPages < 2 ^ 64 := by
    show 4 < 2 ^ 64
    decide
  have boot : TwoRuns (initPageArray 0 4 ⟨id, id⟩ fun _ => 0) ⟨id, id⟩ _ _ _ _ := .bootstrap
  obtain ⟨-, l, B, scrubbed, -⟩ := boot.twins start size
  obtain rfl := scrubbed.kept.kept.free.unique start
  obtain ⟨pm, run, set, -, -, taken⟩ := scrubbed.allocPages (show [1, 2, 3] = 1 :: [] ++ [2, 3] from rfl)
  have one := boot.call (.allocPages run set) (.allocPages run set)
  have within : Heap.Within { slabBootstrap (initPageArray 0 4 ⟨id, id⟩ fun _ => 0) ⟨id, id⟩ with pm := pm } (fun _ => none)
      (insert [1] ∅) (Function.update pm.mem (pm.pageToKvaddr 1) 7) := by
    intro b changed
    by_cases here : b = pm.pageToKvaddr 1
    · have inside : pm.InPage 1 b := ⟨by omega, by omega⟩
      exact .inr ⟨[1], Set.mem_insert _ _, 1, List.mem_singleton_self 1, inside⟩
    · exact absurd (Function.update_of_ne here ..) changed
  have two := one.writeLeft within
  have member : [1] ∈ (insert [1] ∅ : Set (List Nat)) := Set.mem_insert _ _
  obtain ⟨pm₁, l₁, run₁, -, perm₁, next₁⟩ := (taken.write within).freeAllPages member (List.mem_singleton_self 1)
  obtain ⟨pm₂, l₂, run₂, -, perm₂, next₂⟩ := taken.freeAllPages member (List.mem_singleton_self 1)
  have three := two.call (.freeAllPages member (List.mem_singleton_self 1) run₁) (.freeAllPages member (List.mem_singleton_self 1) run₂)
  obtain ⟨same, -⟩ := three.twins start size
  rw [← same] at three next₂
  have whole : ∀ {l' : List Nat}, l'.Pairwise (· < ·) → l'.Perm ([1].take (([] : List Nat).length + 1) ++ [2, 3]) → l' = 1 :: [] ++ [2, 3] :=
    fun sorted perm => sorted_ext sorted (by decide) fun p => perm.mem_iff
  obtain rfl := whole next₁.kept.kept.free.sorted perm₁
  obtain rfl := whole next₂.kept.kept.free.sorted perm₂
  obtain ⟨pm₃, run₃, set₃, -⟩ := next₁.allocPages rfl
  obtain ⟨pm₄, run₄, set₄, -⟩ := next₂.allocPages rfl
  obtain ⟨-, -, same', holds⟩ := handsOutBlank start size three (.allocPages run₃ set₃) (.allocPages run₄ set₄)
  refine ⟨_, _, _, _, _, _, three, .allocPages run₃ set₃, same' ▸ .allocPages run₄ set₄, .inr ⟨?_, ?_⟩, holds⟩
  · exact (isFree_iff next₁.kept.kept.free).mpr (List.mem_cons_self ..)
  · exact fun free => absurd ((isFree_iff (taken.write within).kept.kept.free).mp free) (by decide)

end TwoRuns

end Xv6
