import Xv6.VmDestroy

namespace Xv6

/-- `task_setup_mm`: the return code, and the mapping structure the task has then. `mm_new` has made
a root directory already, and the new one takes its place. -/
def taskSetupMm (h : Heap) (c : Cpu) (L : Links VmaNode) : Res (Int × Mm) := do
  let k ← mmNew h c L
  let (pgd, pm) ← k.heap.pm.pgdirNew asidInvalid
  match pgd with
  | none => .ok (-enomem, k.setPm pm)
  | some d => .ok (0, { k.setPm pm with pgd := pm.pageToKvaddr d })

/-- No page is taken, and no object of a slab. -/
def Heap.NothingTaken (h h' : Heap) : Prop :=
  h'.pm.nrFreePages = h.pm.nrFreePages ∧ ∀ x, h.pm.SlabPage x → (h'.slab x).count = (h.slab x).count

/-- The slab of the object at `a` holds nothing else. -/
def Heap.Alone (h : Heap) (a : Nat) : Prop :=
  ∀ q, h.pm.kvaddrToPage a = .ok q → (h.slab q).count + 1 = (h.slab q).capacity

/-- A structure without areas, over an empty root directory. -/
structure Mm.Fresh (k : Mm) : Prop where
  object : k.self ≠ 0
  areas : k.link.next .mmapList = .mmapList
  root : ∀ d, k.heap.pm.kvaddrToPage k.pgd = .ok d → ∀ i < 2048, k.heap.pm.slot d i = 0

/-- What `task_setup_mm` promises: NULL is not accessed; a structure that is made is fresh, and cost one page beside
its own object; otherwise nothing is taken; and `mm_destroy` gives everything back. -/
structure Heap.SetsUp (h : Heap) (c : Cpu) (L : Links VmaNode) : Prop where
  safe : taskSetupMm h c L ≠ .error .wild
  fresh : ∀ k, taskSetupMm h c L = .ok (0, k) → k.Fresh
  onePage : ∀ k a h₁, taskSetupMm h c L = .ok (0, k) → h.kmalloc 0 sizeofMm = .ok (a, h₁) →
    k.heap.pm.nrFreePages + 1 = h₁.pm.nrFreePages
  undone : ∀ retcode k, taskSetupMm h c L = .ok (retcode, k) → retcode ≠ 0 → h.NothingTaken k.heap
  restored : ∀ k, taskSetupMm h c L = .ok (0, k) → k.heap.Alone k.self →
    ∃ k', k.destroy = .ok k' ∧ ∀ l l', h.pm.FreeList l → k'.heap.pm.FreeList l' → l'.Perm l

open PageMem

section Setup

variable {h h' : Heap} {c : Cpu} {L : Links VmaNode} {l l' : List Nat} {B B' : Heap.Slabs} {d x i : Nat}

/-- The slab that served a chunk counts one free chunk less, or was a free page. -/
theorem Heap.Served.taken (served : Heap.Served h h' l l' B B' d x i) (kept : h.Kept l B) : ¬ h.NothingTaken h' := by
  intro ⟨pages, counts⟩
  rw [served.kept.free.count, kept.free.count] at pages
  rcases served.pages with ⟨-, holds⟩ | ⟨-, rfl⟩
  · have holds' : B'.Holds d x := (served.handed.holds d x).mpr (.inl holds)
    have before := kept.slab_of_holds holds
    have after := served.kept.slab_of_holds holds'
    have same := counts x (kept.slabPage holds)
    rw [before.slab_eq, after.slab_eq] at same
    replace same : (B'.chain x).length = (B.chain x).length := same
    have new : B'.Live d x i := (served.handed.live d x i).mpr (.inr ⟨rfl, rfl, rfl⟩)
    have free : i ∈ B.chain x := by
      by_contra absent
      exact served.handed.fresh ⟨holds, served.handed.bound, absent⟩
    have fewer : i :: B'.chain x ⊆ B.chain x := by
      intro j member
      rcases List.mem_cons.mp member with rfl | member
      · exact free
      · by_contra absent
        have live := (served.handed.live d x j).mpr (.inl ⟨holds, after.bound j member, absent⟩)
        exact live.2.2 member
    have distinct : (i :: B'.chain x).Nodup := List.nodup_cons.mpr ⟨new.2.2, after.nodup⟩
    have less := (distinct.subperm fewer).length_le
    rw [List.length_cons] at less
    omega
  · rw [List.length_cons] at pages
    omega

/-- `task_setup_mm` goes wrong on NULL, or it makes two root directories, of which the first is lost, or it
finds no page for one of them and leaves what it has. -/
theorem taskSetupMm_spec (kept : h.Kept l B) (phys : h.pm.PhysBound) (c : Cpu) (L : Links VmaNode) :
    taskSetupMm h c L = .error .wild ∨
      ∃ a h₁ l₁ B₁ x i, h.kmalloc 0 sizeofMm = .ok (a, h₁) ∧ Heap.Served h h₁ l l₁ B B₁ Mm.areaCache x i ∧
        ((∃ k l₂, taskSetupMm h c L = .ok (-enomem, k) ∧ k.heap.Kept l₂ B₁ ∧ l₁.length < 2 ∧
            l₂ = [] ∧ ∀ y, y ∉ l → k.heap.slab y = h₁.slab y) ∨
          ∃ k first root l₂, taskSetupMm h c L = .ok (0, k) ∧ l₁ = first :: root :: l₂ ∧
            k.Kept root (Radix.single root) l₂ B₁ [] ∧ Heap.Chunk k.heap B₁ k.self sizeofMm Mm.areaCache x i) := by
  obtain ⟨d, known, fits, ⟨-, -, run⟩ | ⟨x, i, h₁, l₁, B₁, run, served⟩⟩ :=
    Heap.slabAlloc_spec kept (n := 48) (by decide) (by decide) (by decide)
  · left
    have alloc : h.kmalloc 0 sizeofMm = .ok (0, { h with lastAccessed := some d }) := run
    simp only [taskSetupMm, mmNew, alloc, Res.ok_bind, if_true]
    rfl
  right
  obtain rfl : d = Mm.areaCache := fits.unique known (by decide) Mm.fits_areaCache
  have alloc : h.kmalloc 0 sizeofMm = .ok (h.pm.pageToKvaddr x + i * Heap.cacheSize Mm.areaCache, h₁) := run
  have nonzero : h.pm.pageToKvaddr x + i * Heap.cacheSize Mm.areaCache ≠ 0 := SlabRun.address_ne_zero
  refine ⟨_, h₁, l₁, B₁, x, i, alloc, served, ?_⟩
  cases l₁ with
  | nil =>
    left
    have none := pgdirNew_none served.kept.free asidInvalid
    obtain ⟨k, run, heap⟩ : ∃ k, taskSetupMm h c L = .ok (-enomem, k) ∧ k.heap = h₁ := by
      simp only [taskSetupMm, mmNew, alloc, Res.ok_bind, nonzero, if_false, none, Option.elim_none]
      exact ⟨_, rfl, rfl⟩
    rw [← heap] at served ⊢
    exact ⟨k, [], run, served.kept, by decide, rfl, fun _ _ => rfl⟩
  | cons first l₁ =>
    obtain ⟨pm, new, -⟩ := pgdirNew_spec served.kept.free asidInvalid
    obtain ⟨_, same, space, geometry, agree⟩ := SpaceKept.start served.kept.free (phys.frame served.geometry) new
    obtain ⟨-, rfl⟩ := List.cons.inj same
    have heap₂ : Heap.Kept { h₁ with pm := pm } l₁ B₁ :=
      served.kept.elsewhere space.free geometry fun d y holds => agree y ((served.kept.slabPage holds).not_free served.kept.free)
    cases l₁ with
    | nil =>
      left
      have none := pgdirNew_none space.free asidInvalid
      obtain ⟨k, run, heap⟩ : ∃ k, taskSetupMm h c L = .ok (-enomem, k) ∧ k.heap = { h₁ with pm := pm } := by
        simp only [taskSetupMm, mmNew, alloc, Res.ok_bind, nonzero, if_false, new, none]
        exact ⟨_, rfl, rfl⟩
      refine ⟨k, [], run, heap ▸ heap₂, Nat.lt_succ_self 1, rfl, fun y outside => ?_⟩
      rw [heap, Heap.slab, Heap.slab, (agree y fun member => outside (served.sub member)).page]
    | cons root l₂ =>
      right
      obtain ⟨pm', new', -⟩ := pgdirNew_spec space.free asidInvalid
      obtain ⟨_, same', space', geometry', agree'⟩ := SpaceKept.start space.free space.phys new'
      obtain ⟨-, rfl⟩ := List.cons.inj same'
      have heap₃ : Heap.Kept { h₁ with pm := pm' } l₂ B₁ :=
        heap₂.elsewhere space'.free geometry' fun d y holds => agree' y ((heap₂.slabPage holds).not_free space.free)
      obtain ⟨k, def_k⟩ : ∃ k : Mm, k = ⟨{ h₁ with pm := pm' }, c, h.pm.pageToKvaddr x + i * Heap.cacheSize Mm.areaCache,
        pm'.pageToKvaddr root, 0, L.init .mmapList, fun _ => none⟩ := ⟨_, rfl⟩
      have run : taskSetupMm h c L = .ok (0, k) := by
        simp only [taskSetupMm, mmNew, alloc, Res.ok_bind, nonzero, if_false, new, new', def_k]
        rfl
      have live : B₁.Live Mm.areaCache x i := (served.handed.live Mm.areaCache x i).mpr (.inr ⟨rfl, rfl, rfl⟩)
      subst def_k
      refine ⟨_, first, root, l₂, run, rfl, ⟨heap₃, space', rfl, ⟨L.init_ring .mmapList, ?_, ?_, ?_, .inl rfl⟩, ?_⟩,
        fits, live, ?_⟩
      · simp
      · simp
      · simp
      · exact fun a object => absurd rfl object
      · show h.pm.pageToKvaddr x + _ = pm'.pageToKvaddr x + _
        rw [geometry'.kvaddr, geometry.kvaddr, served.geometry.kvaddr]

/-- The two root directories of a call that succeeds. -/
theorem Heap.SetsUp.not_two {k : Mm} {h₁ : Heap} {a first root : Nat} {l₁ l₂ : List Nat} (sets : h.SetsUp c L)
    (run : taskSetupMm h c L = .ok (0, k)) (alloc : h.kmalloc 0 sizeofMm = .ok (a, h₁)) (before : h₁.pm.FreeList l₁)
    (after : k.heap.pm.FreeList l₂) (two : l₁ = first :: root :: l₂) : False := by
  have one := sets.onePage k a h₁ run alloc
  rw [before.count, after.count, two, List.length_cons, List.length_cons] at one
  omega

/-- In no state of the allocator does `task_setup_mm` do what it promises. -/
theorem Heap.not_setsUp (kept : h.Kept l B) (phys : h.pm.PhysBound) (c : Cpu) (L : Links VmaNode) : ¬ h.SetsUp c L := by
  intro sets
  rcases taskSetupMm_spec kept phys c L with wild |
    ⟨a, h₁, l₁, B₁, x, i, alloc, served, ⟨k, l₂, run, kept₂, few, none, slabs⟩ | ⟨k, first, root, l₂, run, two, kept₂, -⟩⟩
  · exact sets.safe wild
  · obtain ⟨pages, counts⟩ := sets.undone _ k run (by decide)
    subst none
    rw [kept₂.free.count, kept.free.count] at pages
    obtain rfl : l = [] := List.eq_nil_of_length_eq_zero pages.symm
    -- the object came from a slab, and takes the chunk
    obtain rfl : l₁ = [] := by
      rcases served.pages with ⟨same, -⟩ | ⟨-, same⟩
      · exact same
      · cases same
    refine served.taken kept ⟨by rw [served.kept.free.count, kept.free.count], fun y slab => ?_⟩
    rw [← slabs y List.not_mem_nil]
    exact counts y slab
  · exact sets.not_two run alloc served.kept.free kept₂.space.free two

end Setup

theorem Heap.not_setsUp_small : ¬ smallHeap.SetsUp smallCpu ⟨id, id⟩ :=
  Heap.not_setsUp smallHeap_kept smallHeap_phys smallCpu ⟨id, id⟩

/-- With 63 free pages the call returns 0 and has taken two root directories. -/
theorem Heap.not_forall_setsUp : ¬ ∀ (h : Heap) (l : List Nat) (B : Heap.Slabs) (c : Cpu) (L : Links VmaNode),
    h.Kept l B → h.pm.PhysBound → h.SetsUp c L := by
  intro always
  have sets := always smallHeap _ _ smallCpu ⟨id, id⟩ smallHeap_kept smallHeap_phys
  rcases taskSetupMm_spec smallHeap_kept smallHeap_phys smallCpu ⟨id, id⟩ with wild |
    ⟨a, h₁, l₁, B₁, x, i, alloc, served, ⟨k, l₂, run, -, few, -⟩ | ⟨k, first, root, l₂, run, two, kept, -⟩⟩
  · exact sets.safe wild
  · rcases served.pages with ⟨rfl, -⟩ | ⟨-, same⟩
    · rw [List.length_range'] at few
      omega
    · have long := congrArg List.length same
      rw [List.length_range', List.length_cons] at long
      omega
  · exact sets.not_two run alloc served.kept.free kept.space.free two

end Xv6
