import Xv6.HeapBlocks
import Xv6.Space
import Xv6.VmAreas

namespace Xv6

namespace Heap

variable {h h' : Heap} {l l' : List Nat} {B B' : Slabs} {root c x : Nat} {r : PageMem.Dirs}

theorem Kept.slabPage (kept : Kept h l B) (holds : B.Holds c x) : h.pm.SlabPage x :=
  ⟨(kept.slab_of_holds holds).set, (kept.slab_of_holds holds).type⟩

/-- What the slab allocator does to the pages leaves an address space alone. -/
theorem Kept.space (kept : Kept h l B) (kept' : Kept h' l' B') (space : PageMem.SpaceKept root h.pm r l)
    (geometry : h.pm.SameGeometry h'.pm) (own : x ∈ l ∨ ∃ c, B.Holds c x)
    (agree : ∀ q, q ∉ l → q ≠ x → h.pm.Agree h'.pm q) : PageMem.SpaceKept root h'.pm r l' := by
  refine space.frame kept'.free geometry (fun d owned => ?_) fun q held => ?_
  · have outside := space.tree.not_free owned space.free
    refine agree d outside ?_
    rintro rfl
    rcases own with free | ⟨c, holds⟩
    · exact outside free
    · exact (kept.slabPage holds).not_dir (space.owned_dir owned)
  · have outside := held.not_free space.free
    refine agree q outside ?_
    rintro rfl
    rcases own with free | ⟨c, holds⟩
    · exact outside free
    · exact (kept.slabPage holds).not_held held

theorem Served.own {i : Nat} (served : Served h h' l l' B B' c x i) : x ∈ l ∨ ∃ c, B.Holds c x := by
  rcases served.pages with ⟨-, holds⟩ | ⟨-, rfl⟩
  · exact .inr ⟨c, holds⟩
  · exact .inl (List.mem_cons_self ..)

theorem Served.sub {i : Nat} (served : Served h h' l l' B B' c x i) {q : Nat} (member : q ∈ l') : q ∈ l := by
  rcases served.pages with ⟨rfl, -⟩ | ⟨-, rfl⟩
  · exact member
  · exact List.mem_cons_of_mem _ member

/-- A page is a slab as long as one of its chunks is live. -/
theorem Slabs.Used.slab_iff (used : B.Used) {x : Nat} : B.Slab x ↔ ∃ c i, B.Live c x i :=
  ⟨fun ⟨c, holds⟩ => ⟨c, used.live holds⟩, fun ⟨c, _, live⟩ => ⟨c, live.1⟩⟩

/-- The pages that are free or slabs stay the same. -/
theorem Served.pages_iff {i : Nat} (served : Served h h' l l' B B' c x i) (q : Nat) : q ∈ l' ∨ B'.Slab q ↔ q ∈ l ∨ B.Slab q := by
  have slab : B'.Slab q ↔ B.Slab q ∨ q = x := by
    simp only [Slabs.Slab, served.handed.holds]
    constructor
    · intro slab
      obtain ⟨d, either⟩ := slab
      exact either.imp (fun holds => ⟨d, holds⟩) And.right
    · intro either
      rcases either with ⟨d, holds⟩ | same
      · exact ⟨d, .inl holds⟩
      · exact ⟨c, .inr ⟨rfl, same⟩⟩
  rw [slab]
  rcases served.pages with ⟨rfl, holds⟩ | ⟨-, rfl⟩
  · refine ⟨fun either => either.imp_right fun old => old.elim id ?_, fun either => either.imp_right .inl⟩
    rintro rfl
    exact ⟨c, holds⟩
  · rw [List.mem_cons]
    tauto

/-- So they do when a chunk is given back. -/
theorem Released.pages_iff {i : Nat} (released : Released B B' c x i) (holds : B.Holds c x)
    (perm : l'.Perm (if (B.chain x).length + 1 = capacity c then x :: l else l)) (q : Nat) :
    q ∈ l' ∨ B'.Slab q ↔ q ∈ l ∨ B.Slab q := by
  have slab : B'.Slab q ↔ B.Slab q ∧ ¬ (q = x ∧ (B.chain x).length + 1 = capacity c) := by
    simp only [Slabs.Slab, released.holds, exists_and_right]
  rw [slab, perm.mem_iff]
  by_cases bare : (B.chain x).length + 1 = capacity c
  · rw [if_pos bare, List.mem_cons]
    by_cases here : q = x
    · subst here
      exact ⟨fun _ => .inr ⟨c, holds⟩, fun _ => .inl (.inl rfl)⟩
    · simp [here, bare]
  · simp [bare]

/-- After a chunk was handed out and given back the slabs are the old ones. -/
theorem Served.undone {i : Nat} {B₂ : Slabs} (served : Served h h' l l' B B' c x i) (released : Released B' B₂ c x i)
    (used : B.Used) : B₂.Used ∧ ∀ q, B₂.Slab q ↔ B.Slab q := by
  have used₂ : B₂.Used := released.used (served.handed.used fun d y _ holds => used d y holds)
  have live : ∀ d y j, B₂.Live d y j ↔ B.Live d y j := by
    intro d y j
    rw [released.live, served.handed.live]
    constructor
    · rintro ⟨old | ⟨rfl, rfl, rfl⟩, other⟩
      · exact old
      · exact absurd ⟨rfl, rfl⟩ other
    · intro old
      refine ⟨.inl old, ?_⟩
      rintro ⟨rfl, rfl⟩
      have new : B'.Live c y j := (served.handed.live ..).mpr (.inr ⟨rfl, rfl, rfl⟩)
      obtain rfl := served.kept.holds_unique ((served.handed.holds d y).mpr (.inl old.1)) new.1
      exact served.handed.fresh old
  refine ⟨used₂, fun q => ?_⟩
  rw [used₂.slab_iff, used.slab_iff]
  simp only [live]

/-- A live chunk remains one, at the same address. -/
theorem Chunk.served {a n d y j i : Nat} (chunk : Chunk h B a n d y j) (served : Served h h' l l' B B' c x i) :
    Chunk h' B' a n d y j := by
  obtain ⟨fits, live, place⟩ := chunk
  exact ⟨fits, (served.handed.live d y j).mpr (.inl live), by rw [served.geometry.kvaddr]; exact place⟩

theorem Chunk.unique {a n d y j z m : Nat} (kept : Kept h l B) (left : Chunk h B a n c x m) (right : Chunk h B a n d y j)
    (same : z = a) : c = d ∧ x = y ∧ m = j := by
  subst same
  obtain ⟨fits, live, place⟩ := left
  obtain ⟨fits', live', place'⟩ := right
  have known := (kept.slab_of_holds live.1).known
  have known' := (kept.slab_of_holds live'.1).known
  obtain rfl := fits.unique known known' fits'
  obtain ⟨samePage, sameChunk⟩ := chunk_inj known known live.2.1 live'.2.1 (place.symm.trans place')
  exact ⟨rfl, samePage, sameChunk rfl⟩

end Heap

namespace Mm

open PageMem

/-- What a mapping structure keeps: its table, with the root directory `root`, its list of areas, and
a chunk of the heap for every area. -/
structure Kept (k : Mm) (root : Nat) (r : Dirs) (l : List Nat) (B : Heap.Slabs) (areas : List (Nat × VmArea)) : Prop where
  heap : k.heap.Kept l B
  space : SpaceKept root k.heap.pm r l
  pgd : k.pgd = k.heap.pm.pageToKvaddr root
  listed : k.Listed areas
  chunk : ∀ a, k.area a ≠ none → ∃ c x i, Heap.Chunk k.heap B a sizeofVmArea c x i

variable {k : Mm} {root : Nat} {r : Dirs} {l : List Nat} {B : Heap.Slabs} {areas : List (Nat × VmArea)}

theorem Kept.unlisted (kept : k.Kept root r l B areas) {a : Nat} (free : k.area a = none) : a ∉ areas.map Prod.fst := by
  intro inside
  obtain ⟨e, member, rfl⟩ := List.mem_map.mp inside
  rw [kept.listed.area e member] at free
  cases free

/-- The cache that serves areas. -/
def areaCache : Nat := 3

theorem fits_areaCache : Heap.Fits areaCache sizeofVmArea := by
  rw [Heap.Fits]
  decide

/-- The pages that the next area takes. -/
def chunkPages (B : Heap.Slabs) : Nat := if B.queue (areaCache, true) = [] then 1 else 0

theorem kmalloc_null {h : Heap} (kept : h.Kept l B) (scarce : l.length < chunkPages B) :
    h.kmalloc 0 sizeofVmArea = .ok (0, { h with lastAccessed := some areaCache }) := by
  rw [chunkPages] at scarce
  split_ifs at scarce with bare
  · obtain rfl : l = [] := List.eq_nil_of_length_eq_zero (by omega)
    exact Heap.slabAlloc_null kept (by decide) fits_areaCache bare
  · omega

/-- `vm_area_new` makes an area, or finds no memory for it. -/
theorem Kept.areaNew (kept : k.Kept root r l B areas) {start stop : Nat} (flags : Nat) (order : start < stop)
    (aligned : start % 16384 = 0 ∧ stop % 16384 = 0) :
    (∃ h', k.areaNew start stop flags = .ok (0, { k with heap := h' }) ∧ h'.pm = k.heap.pm ∧ l.length < chunkPages B ∧
        Kept { k with heap := h' } root r l B areas) ∨
      ∃ a h' l' B' x i, k.areaNew start stop flags =
          .ok (a, { k with heap := h', area := Function.update k.area a (some ⟨start, stop, flags, 0⟩) }) ∧
        a ≠ 0 ∧ k.area a = none ∧ Heap.Served k.heap h' l l' B B' areaCache x i ∧
        Heap.Chunk h' B' a sizeofVmArea areaCache x i ∧
        Kept { k with heap := h', area := Function.update k.area a (some ⟨start, stop, flags, 0⟩) } root r l' B' areas := by
  have entry : ¬ stop ≤ start := Nat.not_le.mpr order
  have whole : ¬ (pageOff start ≠ 0 ∨ pageOff stop ≠ 0) := by
    rw [pageOff_eq, pageOff_eq]
    omega
  have alloc : k.heap.kmalloc 0 sizeofVmArea = k.heap.slabAlloc 48 := rfl
  have size : roundup sizeofVmArea kmallocAlign = 48 := by decide
  obtain ⟨c, known, fits, ⟨none, bare, run⟩ | ⟨x, i, h', l', B', run, served⟩⟩ :=
    Heap.slabAlloc_spec kept.heap (n := 48) (by decide) (by decide) (by decide)
  all_goals obtain rfl : c = areaCache := fits.unique known (by decide) fits_areaCache
  · left
    refine ⟨{ k.heap with lastAccessed := some areaCache }, ?_, rfl, ?_, kept.heap.remember known, kept.space,
      kept.pgd, kept.listed.elsewhere rfl rfl rfl fun _ _ => rfl, kept.chunk⟩
    · simp only [Mm.areaNew, entry, if_false, whole, alloc, run, Res.ok_bind, if_true]
    · rw [none, chunkPages, if_pos bare]
      exact Nat.one_pos
  · right
    obtain ⟨a, place⟩ : ∃ a, a = k.heap.pm.pageToKvaddr x + i * Heap.cacheSize areaCache := ⟨_, rfl⟩
    rw [← place] at run
    have nonzero : a ≠ 0 := place ▸ SlabRun.address_ne_zero
    have live : B'.Live areaCache x i := (served.handed.live areaCache x i).mpr (.inr ⟨rfl, rfl, rfl⟩)
    have free : k.area a = none := by
      by_contra object
      obtain ⟨d, y, j, old⟩ := kept.chunk a object
      have new : Heap.Chunk h' B' a sizeofVmArea areaCache x i := ⟨by rw [size]; exact fits, live, by
        rw [served.geometry.kvaddr]; exact place⟩
      obtain ⟨rfl, rfl, rfl⟩ := Heap.Chunk.unique served.kept new (old.served served) rfl
      exact served.handed.fresh old.2.1
    have chunk : Heap.Chunk h' B' a sizeofVmArea areaCache x i :=
      ⟨by rw [size]; exact fits, live, by rw [served.geometry.kvaddr]; exact place⟩
    refine ⟨a, h', l', B', x, i, ?_, nonzero, free, served, chunk, served.kept, ?_, ?_, ?_, ?_⟩
    · simp only [Mm.areaNew, entry, if_false, whole, alloc, run, Res.ok_bind, nonzero]
      rfl
    · exact kept.heap.space served.kept kept.space served.geometry served.own served.agree
    · show k.pgd = h'.pm.pageToKvaddr root
      rw [served.geometry.kvaddr]
      exact kept.pgd
    · refine kept.listed.elsewhere rfl rfl rfl fun e member => ?_
      have other : e.1 ≠ a := fun same => kept.unlisted free (same ▸ List.mem_map_of_mem member)
      exact Function.update_of_ne other ..
    · intro b object
      by_cases here : b = a
      · subst here
        exact ⟨areaCache, x, i, chunk⟩
      · have old : k.area b ≠ none := by
          have same : Function.update k.area a (some ⟨start, stop, flags, 0⟩) b = k.area b := Function.update_of_ne here ..
          rwa [← same]
        obtain ⟨d, y, j, oldChunk⟩ := kept.chunk b old
        exact ⟨d, y, j, oldChunk.served served⟩

/-- No area is made for an empty range, or without memory. -/
theorem Kept.areaNew_null (kept : k.Kept root r l B areas) {start stop flags a : Nat} {k₁ : Mm} (aligned : start % 16384 = 0 ∧ stop % 16384 = 0)
    (reason : stop ≤ start ∨ l.length < chunkPages B) (new : k.areaNew start stop flags = .ok (a, k₁)) :
    a = 0 ∧ k₁.Kept root r l B areas ∧ k₁.heap.pm = k.heap.pm := by
  by_cases empty : stop ≤ start
  · rw [Mm.areaNew, if_pos empty] at new
    obtain ⟨rfl, rfl⟩ := Prod.mk.inj (Except.ok.inj new)
    exact ⟨rfl, kept, rfl⟩
  · have scarce := reason.resolve_left empty
    rcases kept.areaNew flags (Nat.lt_of_not_le empty) aligned with ⟨h', run, same, -, kept'⟩ | ⟨b, h', -, -, -, -, run, nonzero, -⟩
    · obtain ⟨rfl, rfl⟩ := Prod.mk.inj (Except.ok.inj (run.symm.trans new))
      exact ⟨rfl, kept', same⟩
    · exfalso
      have whole : ¬ (pageOff start ≠ 0 ∨ pageOff stop ≠ 0) := by
        rw [pageOff_eq, pageOff_eq]
        omega
      rw [Mm.areaNew, if_neg empty, if_neg whole, kmalloc_null kept.heap scarce] at run
      exact nonzero (Prod.mk.inj (Except.ok.inj run)).1.symm

/-- An area that is not in the list is destroyed. -/
theorem Kept.areaDestroy (kept : k.Kept root r l B areas) {a : Nat} (object : k.area a ≠ none)
    (unlisted : a ∉ areas.map Prod.fst) :
    ∃ h' l' c x i, k.areaDestroy a = .ok { k with heap := h', area := Function.update k.area a none } ∧
      Heap.Chunk k.heap B a sizeofVmArea c x i ∧ Heap.Released B (B.put c x i) c x i ∧
      l'.Perm (if (B.chain x).length + 1 = Heap.capacity c then x :: l else l) ∧ k.heap.pm.SameGeometry h'.pm ∧
      Kept { k with heap := h', area := Function.update k.area a none } root r l' (B.put c x i) areas := by
  obtain ⟨c, x, i, chunk⟩ := kept.chunk a object
  obtain ⟨v, found⟩ := Option.ne_none_iff_exists'.mp object
  have freed := chunk.kfree kept.heap
  obtain ⟨fits, ⟨⟨b, member⟩, bound, absent⟩, place⟩ := chunk
  obtain ⟨h', l', run, kept', geometry, agree, perm, -⟩ := Heap.slabFree_spec kept.heap member bound absent
  have released := kept.heap.released_put member bound absent
  have nonzero : a ≠ 0 := place ▸ SlabRun.address_ne_zero
  rw [← place] at run
  refine ⟨h', l', c, x, i, ?_, ⟨fits, ⟨⟨b, member⟩, bound, absent⟩, place⟩, released, perm, geometry, kept', ?_, ?_, ?_, ?_⟩
  · simp only [Mm.areaDestroy, nonzero, if_false, vma_eq found, Res.ok_bind, freed, run]
  · exact kept.heap.space kept' kept.space geometry (.inr ⟨c, b, member⟩) agree
  · show k.pgd = h'.pm.pageToKvaddr root
    rw [geometry.kvaddr]
    exact kept.pgd
  · refine kept.listed.elsewhere rfl rfl rfl fun e inside => ?_
    have other : e.1 ≠ a := fun same => unlisted (same ▸ List.mem_map_of_mem inside)
    exact Function.update_of_ne other ..
  · intro b' still
    have other : b' ≠ a := by
      rintro rfl
      exact still (Function.update_self ..)
    have old : k.area b' ≠ none := by
      have same : Function.update k.area a none b' = k.area b' := Function.update_of_ne other ..
      rwa [← same]
    obtain ⟨d, y, j, fitsD, liveD, placeD⟩ := kept.chunk b' old
    refine ⟨d, y, j, fitsD, (released.live d y j).mpr ⟨liveD, ?_⟩, by rw [geometry.kvaddr]; exact placeD⟩
    rintro ⟨rfl, rfl⟩
    obtain rfl := kept.heap.holds_unique liveD.1 ⟨b, member⟩
    exact other (placeD.trans place.symm)

/-- Pages change hands, but not those of the slabs. -/
theorem Kept.setPm (kept : k.Kept root r l B areas) {pm : PageMem} {r' : Dirs} {l' : List Nat}
    (space : SpaceKept root pm r' l') (geometry : k.heap.pm.SameGeometry pm)
    (slabs : ∀ x, k.heap.pm.SlabPage x → k.heap.pm.Agree pm x) : (k.setPm pm).Kept root r' l' B areas := by
  have address := geometry.kvaddr
  refine ⟨kept.heap.elsewhere space.free geometry fun c x holds => slabs x (kept.heap.slabPage holds), space, ?_,
    kept.listed.elsewhere rfl rfl rfl fun _ _ => rfl, fun a object => ?_⟩
  · show k.pgd = pm.pageToKvaddr root
    rw [address]
    exact kept.pgd
  · obtain ⟨c, x, i, fits, live, place⟩ := kept.chunk a object
    exact ⟨c, x, i, fits, live, by rw [show (k.setPm pm).heap.pm = pm from rfl, address]; exact place⟩

end Mm

end Xv6
