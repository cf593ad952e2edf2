import Xv6.VmServed

namespace Xv6

namespace Mm

open PageMem

variable {h : Heap} {c : Cpu} {L : Links VmaNode} {k k' : Mm} {root : Nat} {r : Dirs} {l l₀ : List Nat} {B B₀ : Heap.Slabs}
variable {areas : List (Nat × VmArea)}

/-- An area in the list is read after it was freed: the node that was taken off the list is its own successor. -/
theorem destroyLoop_stuck {a : Nat} (nonzero : a ≠ 0) (fuel : Nat) : destroyLoop fuel (.node a) k ≠ .ok k' := by
  intro done
  cases fuel with
  | zero => cases done
  | succ fuel =>
    rw [destroyLoop] at done
    obtain ⟨k₁, remove, done⟩ := Res.bind_eq_ok.mp done
    obtain ⟨n, next, done⟩ := Res.bind_eq_ok.mp done
    obtain ⟨k₂, destroy, done⟩ := Res.bind_eq_ok.mp done
    -- the successor is the area itself
    have self : n = .node a := by
      rw [areaRemove] at remove
      obtain ⟨v, -, remove⟩ := Res.bind_eq_ok.mp remove
      split_ifs at remove
      rw [vmaDelete] at remove
      split_ifs at remove
      obtain rfl := Except.ok.inj remove
      rw [nextVma] at next
      split_ifs at next
      rw [← Except.ok.inj next]
      exact Function.update_self ..
    rw [areaDestroy, if_neg nonzero] at destroy
    obtain ⟨v, -, destroy⟩ := Res.bind_eq_ok.mp destroy
    obtain ⟨heap, -, destroy⟩ := Res.bind_eq_ok.mp destroy
    obtain rfl := Except.ok.inj destroy
    subst self
    have dead : Mm.vma { k₁ with heap := heap, area := Function.update k₁.area a none } a = .error .wild := by
      rw [vma]
      simp only [Function.update_self]
    cases fuel with
    | zero => cases done
    | succ fuel =>
      rw [destroyLoop, areaRemove, dead] at done
      cases done

/-- With areas `mm_destroy` gets stuck. -/
theorem destroy_stuck (kept : k.Kept root r l B areas) (some : areas ≠ []) : k.destroy ≠ .ok k' := by
  intro done
  cases areas with
  | nil => exact some rfl
  | cons e rest =>
    rw [Mm.destroy] at done
    obtain ⟨d, -, done⟩ := Res.bind_eq_ok.mp done
    obtain ⟨pm, -, done⟩ := Res.bind_eq_ok.mp done
    obtain ⟨k₁, loop, -⟩ := Res.bind_eq_ok.mp done
    rw [show (k.setPm pm).link.next .mmapList = .node e.1 from kept.listed.first] at loop
    exact destroyLoop_stuck (kept.listed.nonzero e (List.mem_cons_self ..)) _ loop

/-- Without areas `mm_destroy` frees the root directory and the structure. -/
theorem Kept.destroy_empty {d x i : Nat} (kept : k.Kept root r l B [])
    (chunk : Heap.Chunk k.heap B k.self sizeofMm d x i) :
    ∃ k' l', k.destroy = .ok k' ∧ k'.area = k.area ∧ k'.heap.Kept l' (B.put d x i) ∧
      Heap.Released B (B.put d x i) d x i ∧
      l'.Perm (if (B.chain x).length + 1 = Heap.capacity d then x :: root :: l else root :: l) := by
  have dir := kept.space.tree.dirs [] root kept.space.rooted
  obtain ⟨pm, l₁, free, free₁, perm₁, geometry, -, agree⟩ := pgfree_spec kept.space.free dir.set kept.space.nrPages_lt
  have heap₁ : Heap.Kept { k.heap with pm := pm } l₁ B := kept.heap.elsewhere free₁ geometry fun d y holds => by
    have slab := kept.heap.slabPage holds
    refine agree y (slab.not_free kept.space.free) ?_
    rintro rfl
    exact slab.not_dir dir
  obtain ⟨fits, live, place⟩ := chunk
  have chunk₁ : Heap.Chunk { k.heap with pm := pm } B k.self sizeofMm d x i :=
    ⟨fits, live, place.trans (by rw [← geometry.kvaddr])⟩
  have freed := chunk₁.kfree heap₁
  obtain ⟨-, ⟨⟨b, member⟩, bound, absent⟩, place₁⟩ := chunk₁
  obtain ⟨h', l', run, kept', -, -, perm, -⟩ := Heap.slabFree_spec heap₁ member bound absent
  rw [← place₁] at run
  have root' : k.heap.pm.kvaddrToPage k.pgd = .ok root := by
    rw [kept.pgd, kvaddrToPage_kvaddr]
  have first : k.link.next .mmapList = .mmapList := kept.listed.first
  refine ⟨{ k.setPm pm with heap := h' }, l', ?_, rfl, kept', kept.heap.released_put member bound absent, perm.trans ?_⟩
  · have loop : destroyLoop vmaFuel ((k.setPm pm).link.next .mmapList) (k.setPm pm) = .ok (k.setPm pm) := by
      rw [show (k.setPm pm).link.next .mmapList = .mmapList from first, destroyLoop]
    have last : (k.setPm pm).heap.kfree (k.setPm pm).self = .ok h' := freed.trans run
    simp only [destroy, root', pgdirDelete, dir.check, free, Res.ok_bind, loop, last]
  · split_ifs with whole
    · exact perm₁.cons x
    · exact perm₁

theorem areaNew_pgd {start stop flags a : Nat} (done : k.areaNew start stop flags = .ok (a, k')) : k'.pgd = k.pgd := by
  rw [areaNew] at done
  split_ifs at done
  · obtain ⟨-, rfl⟩ := Prod.mk.inj (Except.ok.inj done)
    rfl
  · obtain ⟨⟨b, heap⟩, -, done⟩ := Res.bind_eq_ok.mp done
    simp only at done
    split_ifs at done with null
    all_goals
      obtain ⟨-, rfl⟩ := Prod.mk.inj (Except.ok.inj done)
      rfl

theorem areaInsert_pgd {a : Nat} (done : k.areaInsert a = .ok k') : k'.pgd = k.pgd := by
  rw [areaInsert] at done
  split_ifs at done
  · obtain rfl := Except.ok.inj done
    rfl
  · obtain ⟨v, -, done⟩ := Res.bind_eq_ok.mp done
    obtain ⟨n, -, done⟩ := Res.bind_eq_ok.mp done
    rw [vmaAddBefore] at done
    split_ifs at done
    obtain rfl := Except.ok.inj done
    rfl

theorem mapLoop_pgd {p perm fuel i vaddr : Nat} {curp : PageNode} {retcode : Int}
    (done : mapLoop p perm fuel i vaddr curp k = .ok (retcode, k')) : k'.pgd = k.pgd := by
  induction fuel generalizing k i vaddr curp with
  | zero => cases done
  | succ fuel ih =>
    simp only [mapLoop] at done
    split_ifs at done
    · cases curp with
      | freeList => cases done
      | page q =>
        obtain ⟨⟨ret, k₁⟩, mapped, done⟩ := Res.bind_eq_ok.mp done
        have same : k₁.pgd = k.pgd := by
          rw [archMapPage] at mapped
          split_ifs at mapped
          obtain ⟨⟨ret', pm⟩, -, mapped⟩ := Res.bind_eq_ok.mp mapped
          obtain ⟨-, rfl⟩ := Prod.mk.inj (Except.ok.inj mapped)
          rfl
        simp only at done
        split_ifs at done
        · obtain ⟨-, rfl⟩ := Prod.mk.inj (Except.ok.inj done)
          exact same
        · exact (ih done).trans same
    · obtain ⟨-, rfl⟩ := Prod.mk.inj (Except.ok.inj done)
      rfl

/-- A range that is made does not bring a root directory. -/
theorem createUvm_pgd {addr len flags : Nat} (positive : len ≠ 0) (above : pgaddrRounddown addr ≠ 0)
    (done : k.createUvm addr len flags = .ok (0, k')) : k'.pgd = k.pgd := by
  obtain ⟨p, pm, -, mapped⟩ := createUvm_zero positive above done
  rw [mapPages] at mapped
  split_ifs at mapped
  obtain ⟨⟨a, k₁⟩, new, mapped⟩ := Res.bind_eq_ok.mp mapped
  obtain ⟨k₂, insert, mapped⟩ := Res.bind_eq_ok.mp mapped
  obtain ⟨⟨ret, k₃⟩, loop, mapped⟩ := Res.bind_eq_ok.mp mapped
  simp only at mapped
  split_ifs at mapped with zero
  · obtain ⟨-, rfl⟩ := Prod.mk.inj (Except.ok.inj mapped)
    have first : k₁.pgd = (k.setPm pm).pgd := areaNew_pgd new
    exact (mapLoop_pgd loop).trans ((areaInsert_pgd insert).trans first)
  · obtain ⟨k₄, -, mapped⟩ := Res.bind_eq_ok.mp mapped
    obtain ⟨k₅, -, mapped⟩ := Res.bind_eq_ok.mp mapped
    exact absurd (Prod.mk.inj (Except.ok.inj mapped)).1 zero

end Mm

/-- Mapping structures from `mm_new` on: ranges are made, of which the address and the length are kept. -/
inductive MmRun (h : Heap) (c : Cpu) (L : Links VmaNode) : Mm → List (Nat × Nat) → Prop
  | new {k : Mm} (done : mmNew h c L = .ok k) : MmRun h c L k []
  | create {k k' : Mm} {calls : List (Nat × Nat)} {addr len flags : Nat} (run : MmRun h c L k calls) (small : addr < 2 ^ 64)
      (done : k.createUvm addr len flags = .ok (0, k')) : MmRun h c L k' ((addr, len) :: calls)

/-- `mm_create_uvm` has something to do. -/
def Effective (call : Nat × Nat) : Prop := call.2 ≠ 0 ∧ pgaddrRounddown call.1 ≠ 0

/-- `mm_destroy` comes to its end, frees every area, and all the pages are free that were before `mm_new`. -/
def Mm.Reclaims (h : Heap) (k : Mm) : Prop :=
  ∃ k', k.destroy = .ok k' ∧ (∀ a, k'.area a = none) ∧ k'.heap.pm.nrFreePages = h.pm.nrFreePages

namespace MmRun

open PageMem

variable {h : Heap} {c : Cpu} {L : Links VmaNode} {k k' : Mm} {l₀ : List Nat} {B₀ : Heap.Slabs} {calls : List (Nat × Nat)}

theorem idle_create {addr len flags : Nat} (idle : ¬ Effective (addr, len))
    (done : k.createUvm addr len flags = .ok (0, k')) : k' = k := by
  have nothing : len = 0 ∨ pgaddrRounddown addr = 0 := by
    by_contra neither
    exact idle (not_or.mp neither)
  simp only [Mm.createUvm, nothing, if_true] at done
  exact (Prod.mk.inj (Except.ok.inj done)).2.symm

/-- While no call has something to do, the structure is the new one. -/
theorem idle (run : MmRun h c L k calls) (all : ∀ call ∈ calls, ¬ Effective call) : mmNew h c L = .ok k := by
  induction run with
  | new done => exact done
  | create run small done ih =>
    obtain rfl := idle_create (all _ (List.mem_cons_self ..)) done
    exact ih fun call member => all call (List.mem_cons_of_mem _ member)

/-- What a run keeps of the heap before it: the chunk of the structure is a new one, and the pages are old ones.
After a call that had something to do, a page of the start is in use. -/
structure Owned (l₀ : List Nat) (B₀ : Heap.Slabs) (k : Mm) (calls : List (Nat × Nat)) (root : Nat) (r : Dirs) (l : List Nat)
    (B : Heap.Slabs) (areas : List (Nat × VmArea)) (x i : Nat) : Prop where
  kept : k.Kept root r l B areas
  chunk : Heap.Chunk k.heap B k.self sizeofMm Mm.areaCache x i
  fresh : ¬ B₀.Live Mm.areaCache x i
  live : ∀ d y j, B₀.Live d y j → B.Live d y j
  pages : ∀ q, Accounted r l q → q ∈ l₀
  slab : x ∈ l₀ ∨ B₀.Holds Mm.areaCache x
  busy : (∃ call ∈ calls, Effective call) → ∃ f ∈ l₀, Held k.heap.pm f

theorem owned (kept : h.Kept l₀ B₀) (phys : h.pm.PhysBound) (run : MmRun h c L k calls) :
    k.pgd = 0 ∨ ∃ root r l B areas x i, Owned l₀ B₀ k calls root r l B areas x i := by
  induction run with
  | new done =>
    refine (Mm.mmNew_done kept phys done).imp_right ?_
    rintro ⟨root, l, B, x, i, h₁, kept', served, chunk, -⟩
    have sub : ∀ q, q ∈ root :: l → q ∈ l₀ := fun q inside => served.sub inside
    refine ⟨root, _, l, B, [], x, i, kept', chunk, served.handed.fresh,
      fun d y j old => (served.handed.live d y j).mpr (.inl old), fun q accounted => sub q ?_, ?_, by simp⟩
    · rcases accounted with (free | ⟨π, found⟩) | ⟨π, w, found, -⟩
      · exact List.mem_cons_of_mem _ free
      · simp only [Radix.single] at found
        split_ifs at found
        rw [← Option.some.inj found]
        exact List.mem_cons_self ..
      · cases found
    · rcases served.pages with ⟨-, holds⟩ | ⟨-, rfl⟩
      · exact .inr holds
      · exact .inl (List.mem_cons_self ..)
  | @create k k' calls addr len flags run small done ih =>
    by_cases effective : Effective (addr, len)
    · rcases ih with null | ⟨root, r, l, B, areas, x, i, owned⟩
      · exact .inl ((Mm.createUvm_pgd effective.1 effective.2 done).trans null)
      · obtain ⟨r', l', B', areas', kept', created⟩ := owned.kept.createUvm_done effective.1 effective.2 small done
        have live : ∀ d y j, B.Live d y j → B'.Live d y j := by
          intro d y j old
          cases created.enlisted with
          | none reason same area slabs => rwa [slabs]
          | some before after order below above fresh area handed chunk => exact (handed.live d y j).mpr (.inl old)
        obtain ⟨fits, isLive, place⟩ := owned.chunk
        refine .inr ⟨root, r', l', B', areas', x, i, kept', ⟨fits, live _ _ _ isLive, ?_⟩, owned.fresh,
          fun d y j old => live d y j (owned.live d y j old), fun q accounted => owned.pages q (created.fewer q accounted),
          owned.slab, fun _ => ?_⟩
        · rw [created.self, created.geometry.kvaddr]
          exact place
        · obtain ⟨f, inside, held⟩ := created.held
          exact ⟨f, owned.pages f (.inl (.inl inside)), held⟩
    · obtain rfl := idle_create effective done
      refine ih.imp_right ?_
      rintro ⟨root, r, l, B, areas, x, i, owned⟩
      refine ⟨root, r, l, B, areas, x, i, owned.kept, owned.chunk, owned.fresh, owned.live, owned.pages, owned.slab, ?_⟩
      rintro ⟨call, member, works⟩
      rcases List.mem_cons.mp member with rfl | earlier
      · exact absurd works effective
      · exact owned.busy ⟨call, earlier, works⟩

/-- Of a new structure everything comes back. -/
theorem new_reclaims (kept : h.Kept l₀ B₀) (used : B₀.Used) (phys : h.pm.PhysBound) (new : mmNew h c L = .ok k)
    (table : k.pgd ≠ 0) : k.Reclaims h := by
  obtain ⟨root, l, B, x, i, h₁, kept', served, chunk, areas⟩ := (Mm.mmNew_done kept phys new).resolve_left table
  obtain ⟨k', l', run, area, kept'', released, perm⟩ := kept'.destroy_empty chunk
  obtain ⟨-, same⟩ := served.undone released used
  refine ⟨k', run, fun a => by rw [area, areas], ?_⟩
  have holds : (B.put Mm.areaCache x i).Slab x ↔ ¬ (B.chain x).length + 1 = Heap.capacity Mm.areaCache := by
    have inside : B.Holds Mm.areaCache x := (served.handed.holds ..).mpr (.inr ⟨rfl, rfl⟩)
    simp only [Heap.Slabs.Slab, released.holds, true_and]
    constructor
    · intro slab
      obtain ⟨d, holds, other⟩ := slab
      exact other
    · exact fun other => ⟨_, inside, other⟩
  have old : (B.put Mm.areaCache x i).Slab x ↔ B₀.Slab x := same x
  rw [kept''.free.count, kept.free.count, perm.length_eq]
  rcases served.pages with ⟨unchanged, inUse⟩ | ⟨-, rfl⟩
  · rw [if_neg (holds.mp (old.mpr ⟨_, inUse⟩)), unchanged]
  · have notSlab : ¬ B₀.Slab x := by
      intro slab
      obtain ⟨d, b, member⟩ := slab
      exact kept.not_free member (List.mem_cons_self ..)
    rw [if_pos (not_not.mp fun other => notSlab (old.mp (holds.mpr other)))]

/-- Without areas the pages that are in use are lost. -/
theorem Owned.leaks {root x i : Nat} {r : Dirs} {l : List Nat} {B : Heap.Slabs} (kept : h.Kept l₀ B₀) (used : B₀.Used)
    (owned : Owned l₀ B₀ k calls root r l B [] x i) (busy : ∃ call ∈ calls, Effective call) (done : k.destroy = .ok k') :
    k'.heap.pm.nrFreePages < h.pm.nrFreePages := by
  obtain ⟨k₁, l', run, -, kept', released, perm⟩ := owned.kept.destroy_empty owned.chunk
  obtain rfl := Except.ok.inj (run.symm.trans done)
  obtain ⟨f, inside, held⟩ := owned.busy busy
  have space := owned.kept.space
  have slab := owned.kept.heap.slabPage owned.chunk.2.1.1
  have member : ∀ q ∈ l', q = root ∨ q ∈ l ∨ q = x ∧ (B.chain x).length + 1 = Heap.capacity Mm.areaCache := by
    intro q within
    rw [perm.mem_iff] at within
    split_ifs at within with whole
    · rcases List.mem_cons.mp within with rfl | rest
      · exact .inr (.inr ⟨rfl, whole⟩)
      · exact (List.mem_cons.mp rest).imp_right .inl
    · exact (List.mem_cons.mp within).imp_right .inl
  have sub : ∀ q ∈ l', q ∈ l₀ := by
    intro q within
    rcases member q within with rfl | free | ⟨rfl, whole⟩
    · exact owned.pages q (.inl (.inr ⟨[], space.rooted⟩))
    · exact owned.pages q (.inl (.inl free))
    · -- a slab of the start has a chunk of the start, so it stays
      refine owned.slab.resolve_right fun old => ?_
      obtain ⟨j, live⟩ := used.live old
      have other : j ≠ i := fun same => owned.fresh (same ▸ live)
      have still := (released.live Mm.areaCache q j).mpr ⟨owned.live _ _ _ live, fun same => other same.2⟩
      exact ((released.holds Mm.areaCache q).mp still.1).2 ⟨rfl, whole⟩
  have outside : f ∉ l' := by
    intro within
    rcases member f within with rfl | free | ⟨rfl, -⟩
    · exact held.not_dir (space.owned_dir ⟨[], space.rooted⟩) rfl
    · exact held.not_free space.free free
    · exact slab.not_held held
  have nodup : (f :: l').Nodup := List.nodup_cons.mpr ⟨outside, sorted_nodup kept'.free.sorted⟩
  have subset : f :: l' ⊆ l₀ := fun q within => (List.mem_cons.mp within).elim (fun same => same ▸ inside) (sub q)
  have count := (List.subperm_of_subset nodup subset).length_le
  rw [kept'.free.count, kept.free.count]
  rw [List.length_cons] at count
  omega

/-- `mm_destroy` gives everything back just when the structure has its root directory, and no range was made. -/
theorem reclaims_iff (kept : h.Kept l₀ B₀) (used : B₀.Used) (phys : h.pm.PhysBound) (run : MmRun h c L k calls) :
    k.Reclaims h ↔ k.pgd ≠ 0 ∧ ∀ call ∈ calls, ¬ Effective call := by
  constructor
  · rintro ⟨k', done, -, back⟩
    have table : k.pgd ≠ 0 := by
      intro null
      rw [Mm.destroy, null] at done
      cases done
    refine ⟨table, fun call member effective => ?_⟩
    obtain ⟨root, r, l, B, areas, x, i, owned⟩ := (run.owned kept phys).resolve_left table
    obtain rfl : areas = [] := not_not.mp fun some => Mm.destroy_stuck owned.kept some done
    have fewer := owned.leaks kept used ⟨call, member, effective⟩ done
    omega
  · rintro ⟨table, all⟩
    exact new_reclaims kept used phys (run.idle all) table

/-- On the machine with 64 pages a new structure is given back, and one with an area is not. -/
theorem reclaims_iff_small : ∃ k k' : Mm, MmRun smallHeap smallCpu ⟨id, id⟩ k [] ∧ k.Reclaims smallHeap ∧
    MmRun smallHeap smallCpu ⟨id, id⟩ k' [(0x4000, 0x4000)] ∧ ¬ k'.Reclaims smallHeap := by
  obtain ⟨k, root, l, B, new, table, kept, room⟩ := Mm.smallNew
  obtain ⟨k', r', l', B', a, done, -⟩ := kept.createUvm_last (m := 1) (n := 1) .nil (.single root) 0 le_rfl (by decide)
    (by decide) (by decide) (by simp) (by omega)
  have run : MmRun smallHeap smallCpu ⟨id, id⟩ k' [(0x4000, 0x4000)] := .create (.new new) (by decide) done
  refine ⟨k, k', .new new, ?_, run, fun reclaims => ?_⟩
  · exact (reclaims_iff smallHeap_kept smallHeap_used smallHeap_phys (.new new)).mpr ⟨table, by simp⟩
  · have idle := ((reclaims_iff smallHeap_kept smallHeap_used smallHeap_phys run).mp reclaims).2
    exact idle _ (List.mem_cons_self ..) ⟨by decide, by decide⟩

/-- The pages of the two ranges are others. -/
def Apart (a b : Nat × Nat) : Prop := ∀ j, ¬ (InRange a.1 a.2 j ∧ InRange b.1 b.2 j)

/-- With one area still there, `mm_destroy` reads it after it was freed. -/
theorem not_reclaims :
    ¬ ∀ (h : Heap) (c : Cpu) (L : Links VmaNode) (l₀ : List Nat) (B₀ : Heap.Slabs) (k : Mm) (calls : List (Nat × Nat)),
      h.Kept l₀ B₀ → B₀.Used → h.pm.PhysBound → MmRun h c L k calls → calls.Pairwise Apart → k.Reclaims h := by
  intro claim
  obtain ⟨k, root, l, B, new, table, kept, room⟩ := Mm.smallNew
  obtain ⟨k', r', l', B', a, done, kept', -⟩ := kept.createUvm_last (m := 1) (n := 1) .nil (.single root) 0 le_rfl (by decide)
    (by decide) (by decide) (by simp) (by omega)
  have run : MmRun smallHeap smallCpu ⟨id, id⟩ k' [(0x4000, 0x4000)] := .create (.new new) (by decide) done
  obtain ⟨k₁, destroyed, -⟩ := claim _ _ _ _ _ k' _ smallHeap_kept smallHeap_used smallHeap_phys run (List.pairwise_singleton ..)
  exact Mm.destroy_stuck kept' (by simp) destroyed

end MmRun

end Xv6
