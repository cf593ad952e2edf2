import Xv6.VmInside

namespace Xv6

open PageMem

/-- The addresses of the pages that a range touches. -/
def spannedBy (addr len : Nat) : Set Nat :=
  { x | pgaddrRounddown addr ≤ x ∧ x < pgaddrRounddown addr + pgsize * nrPagesSpanned addr len }

theorem mem_spannedBy {addr len x : Nat} (small : addr < 2 ^ 64) :
    x ∈ spannedBy addr len ↔ 16384 * (addr / 16384) ≤ x ∧ x < 16384 * (addr / 16384 + nrPagesSpanned addr len) := by
  rw [Nat.mul_add, spannedBy, pgaddrRounddown_eq small, Nat.mul_comm (addr / 16384)]
  rfl

namespace Mm

variable {k k' : Mm} {root addr len flags v n : Nat} {r : Dirs} {l : List Nat} {B : Heap.Slabs}
variable {areas pre post : List (Nat × VmArea)} {e : Nat × VmArea}

/-- What a mapping structure keeps when its areas are made and unmapped: the areas cover just what is mapped. -/
structure UvmKept (k : Mm) (root : Nat) (r : Dirs) (l : List Nat) (B : Heap.Slabs) (areas : List (Nat × VmArea)) : Prop where
  kept : k.Kept root r l B areas
  used : B.Used
  ordered : Ordered areas
  pages : PagesMatch r areas
  sizes : ∀ e ∈ areas, e.2.stop ≤ e.2.start + 16384 * intMax

/-- There is a block for an area when the pages have been taken. -/
def AreaServed (k : Mm) (num : Nat) : Prop :=
  ∀ p pm, k.heap.pm.allocPages num = .ok (some p, pm) →
    ∀ a h, { k.heap with pm := pm }.kmalloc 0 sizeofVmArea = .ok (a, h) → a ≠ 0

theorem Kept.areaServed (kept : k.Kept root r l B areas) {num : Nat} (enough : num + chunkPages B ≤ l.length) :
    k.AreaServed num := by
  intro p pm pages a h alloc
  obtain ⟨tl, ys, rfl, length, kept₁, -⟩ := kept.allocPages pages
  rw [List.length_append, List.length_cons, length] at enough
  have small : ({ k.heap with pm := pm } : Heap).slabAlloc 48 = .ok (a, h) := alloc
  obtain ⟨c, known, fits, ⟨rfl, bare, -⟩ | ⟨x, i, h', l', B', run, -⟩⟩ :=
    Heap.slabAlloc_spec kept₁.heap (n := 48) (by decide) (by decide) (by decide)
  · obtain rfl : c = areaCache := fits.unique known (by decide) fits_areaCache
    rw [chunkPages, if_pos bare, List.length_nil] at enough
    omega
  · obtain ⟨rfl, -⟩ := Prod.mk.inj (Except.ok.inj (small.symm.trans run))
    exact SlabRun.address_ne_zero

namespace UvmKept

/-- A range is made. -/
theorem create (known : k.UvmKept root r l B areas) (positive : len ≠ 0) (above : pgsize ≤ addr) (high : addr + len ≤ 2 ^ 47)
    (apart : ∀ e ∈ areas, e.2.stop ≤ 16384 * (addr / 16384) ∨ 16384 * (addr / 16384 + nrPagesSpanned addr len) ≤ e.2.start)
    (few : nrPagesSpanned addr len < 2 ^ 32) (served : k.AreaServed (nrPagesSpanned addr len))
    (done : k.createUvm addr len flags = .ok (0, k')) :
    ∃ r' l' B' areas', k'.UvmKept root r' l' B' areas' ∧ ∀ x, Covered areas' x ↔
      Covered areas x ∨ 16384 * (addr / 16384) ≤ x ∧ x < 16384 * (addr / 16384 + nrPagesSpanned addr len) := by
  have small : addr < 2 ^ 64 := by omega
  have count := nrPagesSpanned_eq (Nat.pos_of_ne_zero positive) (show addr + len ≤ 2 ^ 64 by omega)
  rw [pgsize] at above
  have nonzero : pgaddrRounddown addr ≠ 0 := by
    rw [pgaddrRounddown_eq small]
    omega
  have counted := known.kept.createUvm_few positive nonzero small done
  obtain ⟨r', l', B', areas', kept', created⟩ := known.kept.createUvm_done positive nonzero small done
  obtain ⟨p, pm, pages, -⟩ := createUvm_zero positive nonzero done
  obtain ⟨tl, ys, split, length, kept₁, -⟩ := known.kept.allocPages pages
  have mapped := created.mapped
  have same := created.same
  have enlisted := created.enlisted
  obtain ⟨num, defNum⟩ : ∃ num, num = nrPagesSpanned addr len := ⟨_, rfl⟩
  obtain ⟨m, defM⟩ : ∃ m, m = addr / 16384 := ⟨_, rfl⟩
  rw [← defNum] at few counted length
  rw [← defNum, ← defM] at apart mapped same enlisted ⊢
  have size : 1 ≤ num ∧ m + num ≤ 2 ^ 33 := by omega
  rw [Nat.mod_eq_of_lt few] at mapped same enlisted counted
  have stop : (16384 * m + 16384 * num) % 2 ^ 64 = 16384 * (m + num) := by omega
  rw [stop] at enlisted
  have ordered' := enlisted.ordered known.ordered ⟨by simp, by simp⟩ (show 16384 * (m + num) < 2 ^ 64 by omega) apart
  cases enlisted with
  | none reason _ _ _ =>
    exfalso
    rcases reason with empty | scarce
    · have : 16384 * (m + num) ≤ 16384 * m := empty
      omega
    · rw [split, ← length, ← List.length_cons, List.drop_left] at scarce
      exact served p pm pages 0 _ (kmalloc_null kept₁.heap scarce) rfl
  | @some l₁ l₂ a x i before after order _ _ _ _ handed _ =>
    subst before after
    have covered : ∀ x, Covered (l₁ ++ (a, ⟨16384 * m, 16384 * (m + num), flags, k.self⟩) :: l₂) x ↔
        Covered (l₁ ++ l₂) x ∨ (16384 * m ≤ x ∧ x < 16384 * (m + num)) := fun x => covered_insert
    have either : ∀ g ∈ l₁ ++ (a, ⟨16384 * m, 16384 * (m + num), flags, k.self⟩) :: l₂,
        g ∈ l₁ ++ l₂ ∨ g = (a, ⟨16384 * m, 16384 * (m + num), flags, k.self⟩) := by
      intro g member
      simp only [List.mem_append, List.mem_cons] at member ⊢
      grind
    refine ⟨r', l', B', _, ⟨kept', handed.used fun d y _ holds => known.used d y holds, ordered',
      known.pages.update (fun g member => ?_) size.2 same (fun i less => ?_) fun j outside => ?_, fun g member => ?_⟩, covered⟩
    · rcases either g member with old | rfl
      · exact known.pages.low g old
      · show 16384 * (m + num) ≤ 2 ^ 47
        omega
    · rw [covered]
      exact iff_of_true (mapped i less) (.inr (by omega))
    · rw [covered]
      exact or_iff_left fun inside => outside (by omega)
    · rcases either g member with old | rfl
      · exact known.sizes g old
      · show 16384 * (m + num) ≤ 16384 * m + 16384 * intMax
        omega

/-- A range that touches no area lies between the areas. -/
theorem apart_of_clear (known : k.UvmKept root r l B areas) (positive : len ≠ 0) (high : addr + len ≤ 2 ^ 47)
    (clear : ∀ e ∈ areas, ∀ x ∈ spannedBy addr len, ¬ e.2.Has x) :
    ∀ e ∈ areas, e.2.stop ≤ 16384 * (addr / 16384) ∨ 16384 * (addr / 16384 + nrPagesSpanned addr len) ≤ e.2.start := by
  intro e member
  have small : addr < 2 ^ 64 := by omega
  have count := nrPagesSpanned_eq (Nat.pos_of_ne_zero positive) (show addr + len ≤ 2 ^ 64 by omega)
  have valid := known.ordered.valid e member
  by_contra overlap
  -- the first address of the later one of the two is in both
  by_cases later : 16384 * (addr / 16384) ≤ e.2.start
  · exact clear e member e.2.start ((mem_spannedBy small).mpr ⟨later, by omega⟩) ⟨le_rfl, valid⟩
  · exact clear e member (16384 * (addr / 16384)) ((mem_spannedBy small).mpr ⟨le_rfl, by omega⟩) ⟨by omega, by omega⟩

/-- Without memory for the parts of the area the call is refused. -/
theorem unmap_refused (known : k.UvmKept root r l B areas) (inside : Inside areas pre post e v n)
    (fails : k.SplitFails e.2 v (v + 16384 * n)) :
    ∃ k' l' B', k.unmapPages v n = .ok (-enomem, k') ∧ k'.UvmKept root r l' B' areas ∧ k.SameList k' ∧ k'.area = k.area ∧
      ∀ q, q ∈ l' ↔ q ∈ l := by
  obtain ⟨k', l', B', refused, kept', same, area, used', free⟩ := known.kept.unmapPages_refused known.used inside fails
  exact ⟨k', l', B', refused, ⟨kept', used', known.ordered, known.pages, known.sizes⟩, same, area, free⟩

/-- A range inside of an area is unmapped. -/
theorem unmap_done (known : k.UvmKept root r l B areas) (inside : Inside areas pre post e v n)
    (fine : ¬ k.SplitFails e.2 v (v + 16384 * n)) :
    ∃ k' r' l' B' areas', k.unmapPages v n = .ok (0, k') ∧ k'.UvmKept root r' l' B' areas' ∧
      (∀ x, Covered areas' x ↔ Covered areas x ∧ ¬ (v ≤ x ∧ x < v + 16384 * n)) ∧
      ∀ π ∈ pathsOf (v / 16384) 0 n, ∀ w, r.leaf π = some w → w.1 ∈ l' := by
  have aligned := inside.aligned
  have lower := inside.lower
  have upper := inside.upper
  have some := inside.some
  have size := known.sizes e inside.member
  have low := known.pages.low e inside.member
  obtain ⟨k', r', l', B', areas', a, b, done, kept', used', ordered', members, cleared, same⟩ :=
    known.kept.unmapPages_done known.used inside fine (by omega)
  have split := inside.split
  have apart := inside.apart
  have covered : ∀ x, Covered areas' x ↔ Covered areas x ∧ ¬ (v ≤ x ∧ x < v + 16384 * n) := by
    intro x
    rw [split, covered_insert]
    constructor
    · rintro ⟨g, member, inG⟩
      rcases (members g).mp member with (old | ⟨-, rfl⟩) | ⟨-, rfl⟩
      · refine ⟨.inl ⟨g, old, inG⟩, fun within => ?_⟩
        have := apart g old
        obtain ⟨lowG, highG⟩ := inG
        omega
      · obtain ⟨lowX, highX⟩ : e.2.start ≤ x ∧ x < v := inG
        exact ⟨.inr ⟨lowX, by omega⟩, by omega⟩
      · obtain ⟨lowX, highX⟩ : v + 16384 * n ≤ x ∧ x < e.2.stop := inG
        exact ⟨.inr ⟨by omega, highX⟩, by omega⟩
    · rintro ⟨⟨g, old, inG⟩ | ⟨lowX, highX⟩, outside⟩
      · exact ⟨g, (members g).mpr (.inl (.inl old)), inG⟩
      · by_cases below : x < v
        · exact ⟨_, (members _).mpr (.inl (.inr ⟨by omega, rfl⟩)), lowX, below⟩
        · exact ⟨_, (members _).mpr (.inr ⟨by omega, rfl⟩), show v + 16384 * n ≤ x by omega, highX⟩
  have within : ∀ g ∈ areas', g ∈ pre ++ post ∨ e.2.start ≤ g.2.start ∧ g.2.stop ≤ e.2.stop := by
    intro g member
    rcases (members g).mp member with (old | ⟨-, rfl⟩) | ⟨-, rfl⟩
    · exact .inl old
    · exact .inr ⟨le_rfl, show v ≤ e.2.stop by omega⟩
    · exact .inr ⟨show e.2.start ≤ v + 16384 * n by omega, le_rfl⟩
  have old : ∀ g ∈ pre ++ post, g ∈ areas := by
    intro g member
    rw [split]
    simp only [List.mem_append, List.mem_cons] at member ⊢
    grind
  refine ⟨k', r', l', B', areas', done, ⟨kept', used', ordered',
    known.pages.update (m := v / 16384) (n := n) (fun g member => ?_) (by omega) (fun π outside => same π ?_) (fun i less => ?_)
      fun j outside => ?_, fun g member => ?_⟩, covered, fun π here => (cleared π here).2⟩
  · rcases within g member with inOld | ⟨-, below⟩
    · exact known.pages.low g (old g inOld)
    · exact le_trans below low
  · rintro ⟨i, -, less, here⟩
    exact outside i less here
  · rw [covered]
    exact iff_of_false (not_not.mpr (cleared _ ⟨i, Nat.zero_le i, less, rfl⟩).1) fun both => both.2 (by omega)
  · rw [covered]
    exact and_iff_left fun both => outside (by omega)
  · rcases within g member with inOld | ⟨above, below⟩
    · exact known.sizes g (old g inOld)
    · omega

end UvmKept

/-- The areas are in order and cover the addresses of `S`, and the pages of these are mapped. -/
structure InStep (k : Mm) (S : Set Nat) (l : List Nat) (areas : List (Nat × VmArea)) : Prop where
  listed : k.Listed areas
  ordered : Ordered areas
  free : k.heap.pm.FreeList l
  covered : ∀ x, Covered areas x ↔ x ∈ S
  mapped : ∀ x < 2 ^ 47, k.heap.pm.tableEntry k.pgd x ≠ 0 ↔ x ∈ S

/-- `vm_area_find` returns the area of the address, whichever area was accessed last. -/
def FindsAreas (k : Mm) (areas : List (Nat × VmArea)) : Prop :=
  ∀ y addr, (y = 0 ∨ y ∈ areas.map Prod.fst) →
    ∃ a x, { k with vmaLastAccessed := y }.areaFind addr = .ok (a, { k with vmaLastAccessed := x }) ∧
      ((a = 0 ∧ ¬ Covered areas addr) ∨ ∃ e ∈ areas, a = e.1 ∧ a ≠ 0 ∧ e.2.Has addr)

/-- There are free pages for the range, for an area and for the directories. -/
def Supplied (k : Mm) (addr len : Nat) : Prop :=
  ∀ root r l B areas, k.Kept root r l B areas →
    nrPagesSpanned addr len + chunkPages B + missingIn r (addr / 16384) 0 (nrPagesSpanned addr len) ≤ l.length

/-- `mm_create_uvm` on a range that touches no area and whose pages are counted by an int: with memory it returns 0, and
the range is covered. -/
def CreatesApart (k : Mm) (S : Set Nat) : Prop :=
  ∀ addr len flags, len ≠ 0 → pgsize ≤ addr → addr + len ≤ 2 ^ 47 → (∀ x ∈ spannedBy addr len, x ∉ S) →
    nrPagesSpanned addr len ≤ intMax → k.Supplied addr len →
    ∃ k' l' areas', k.createUvm addr len flags = .ok (0, k') ∧ k'.InStep (S ∪ spannedBy addr len) l' areas'

/-- `unmap_pages` inside of one area: without memory for the parts nothing changes; otherwise the range is not covered
any more, and its pages, which were not free, are free. -/
def UnmapsInside (k : Mm) (S : Set Nat) (l : List Nat) (areas : List (Nat × VmArea)) : Prop :=
  ∀ v n, ∀ e ∈ areas, v % pgsize = 0 → 1 ≤ n → e.2.start ≤ v → v + pgsize * n ≤ e.2.stop →
    (k.SplitFails e.2 v (v + pgsize * n) → ∃ k' l', k.unmapPages v n = .ok (-enomem, k') ∧ k'.InStep S l' areas ∧
      k'.link = k.link ∧ k'.area = k.area ∧ (∀ x, k'.heap.pm.tableEntry k'.pgd x = k.heap.pm.tableEntry k.pgd x) ∧
      ∀ q, q ∈ l' ↔ q ∈ l) ∧
    (¬ k.SplitFails e.2 v (v + pgsize * n) → ∃ k' l' areas', k.unmapPages v n = .ok (0, k') ∧
      k'.InStep (S \ { x | v ≤ x ∧ x < v + pgsize * n }) l' areas' ∧
      ∀ x p, v ≤ x → x < v + pgsize * n → k.heap.pm.archMmGetPfn k.pgd x = k.heap.pm.pageToPfn p → p ∉ l ∧ p ∈ l')

namespace UvmKept

variable {S : Set Nat}

theorem inStep (known : k.UvmKept root r l B areas) (covered : ∀ x, Covered areas x ↔ x ∈ S) : k.InStep S l areas where
  listed := known.kept.listed
  ordered := known.ordered
  free := known.kept.space.free
  covered := covered
  mapped x low := by
    have page : path x = path (16384 * (x / 16384)) := path_page (by omega)
    have whole : Covered areas (16384 * (x / 16384)) ↔ Covered areas x := by
      constructor
      all_goals
        rintro ⟨e, member, lower, upper⟩
        have aligned := known.ordered.aligned e member
        exact ⟨e, member, by omega, by omega⟩
    have mapped := known.pages.mapped (x / 16384) (by omega)
    rw [known.kept.pgd, tableEntry_ne_zero known.kept.space.tree known.kept.space.rooted, ← covered, ← whole, ← mapped, page,
      Option.ne_none_iff_exists']

theorem findsAreas (known : k.UvmKept root r l B areas) : k.FindsAreas areas := by
  intro y addr cached
  obtain ⟨x, find, -⟩ := areaFind_spec (known.kept.listed.accessed cached) known.ordered addr
  refine ⟨_, x, find, ?_⟩
  cases found : areaAt areas addr with
  | none =>
    refine .inl ⟨rfl, ?_⟩
    rintro ⟨e, member, inside⟩
    rw [known.ordered.areaAt_eq member inside] at found
    cases found
  | some e =>
    have member : e ∈ areas := List.mem_of_find?_eq_some found
    have inside : e.2.Has addr := by
      rw [areaAt] at found
      simpa using List.find?_some found
    exact .inr ⟨e, member, rfl, known.kept.listed.nonzero e member, inside⟩

theorem createsApart (known : k.UvmKept root r l B areas) (covered : ∀ x, Covered areas x ↔ x ∈ S) : k.CreatesApart S := by
  intro addr len flags positive above high clear few supplied
  have small : addr < 2 ^ 64 := by omega
  have count := nrPagesSpanned_eq (Nat.pos_of_ne_zero positive) (show addr + len ≤ 2 ^ 64 by omega)
  have nonzero : pgaddrRounddown addr ≠ 0 := by
    rw [pgsize] at above
    rw [pgaddrRounddown_eq small]
    omega
  have enough := supplied _ _ _ _ _ known.kept
  have apart := known.apart_of_clear positive high fun e member x spanned inside =>
    clear x spanned ((covered x).mp ⟨e, member, inside⟩)
  obtain ⟨k', done⟩ : ∃ k', k.createUvm addr len flags = .ok (0, k') :=
    known.kept.createUvm_served known.ordered positive nonzero small (by omega) few (by omega) enough
  obtain ⟨r', l', B', areas', known', covered'⟩ := known.create positive above high apart (lt_of_le_of_lt few (by decide))
    (known.kept.areaServed (by omega)) done
  refine ⟨k', l', areas', done, known'.inStep fun x => ?_⟩
  rw [covered', covered, ← mem_spannedBy small]
  rfl

theorem unmapsInside (known : k.UvmKept root r l B areas) (covered : ∀ x, Covered areas x ↔ x ∈ S) :
    k.UnmapsInside S l areas := by
  intro v n e member aligned some lower upper
  rw [pgsize] at aligned upper ⊢
  obtain ⟨pre, post, split⟩ := List.append_of_mem member
  have inside : Inside areas pre post e v n := ⟨known.ordered, split, aligned, some, lower, upper⟩
  refine ⟨fun fails => ?_, fun fine => ?_⟩
  · obtain ⟨k', l', B', refused, known', same, area, free⟩ := known.unmap_refused inside fails
    refine ⟨k', l', refused, known'.inStep covered, same.link, area, fun x => ?_, free⟩
    rw [known.kept.pgd, known'.kept.pgd, tableEntry_spec known.kept.space.tree known.kept.space.rooted,
      tableEntry_spec known'.kept.space.tree known'.kept.space.rooted, leafWord_frame same.geometry]
  · obtain ⟨k', r', l', B', areas', done, known', covered', freed⟩ := known.unmap_done inside fine
    refine ⟨k', l', areas', done, known'.inStep fun x => ?_, fun x p lowX highX entry => ?_⟩
    · rw [covered', covered]
      rfl
    · have low := known.pages.low e member
      have here : Covered areas x := ⟨e, member, by omega, by omega⟩
      have page : path x = path (16384 * (v / 16384 + (x / 16384 - v / 16384))) := path_page (by omega)
      have mapped := ((known.inStep covered).mapped x (by omega)).mpr ((covered x).mp here)
      rw [known.kept.pgd, tableEntry_ne_zero known.kept.space.tree known.kept.space.rooted] at mapped
      obtain ⟨w, leaf⟩ := mapped
      rw [known.kept.pgd, archMmGetPfn_spec known.kept.space.tree known.kept.space.rooted, leaf, Option.elim_some, pageToPfn,
        pageToPfn] at entry
      obtain rfl : w.1 = p := by omega
      exact ⟨known.kept.space.leaf_not_free leaf, freed _ ⟨x / 16384 - v / 16384, Nat.zero_le _, by omega, page.symm⟩ w leaf⟩

/-- A new structure has no areas, and no pages. -/
theorem new {h : Heap} {c : Cpu} {L : Links VmaNode} {l₀ : List Nat} {B₀ : Heap.Slabs} (kept : h.Kept l₀ B₀) (used : B₀.Used)
    (phys : h.pm.PhysBound) (new : mmNew h c L = .ok k) (table : k.pgd ≠ 0) :
    ∃ root l B, k.UvmKept root (Radix.single root) l B [] := by
  obtain ⟨root, l, B, x, i, h₁, kept', served, -⟩ := (mmNew_done kept phys new).resolve_left table
  exact ⟨root, l, B, kept', served.handed.used fun d y _ holds => used d y holds, .nil, .single root, by simp⟩

end UvmKept

end Mm

/-- A run of `mm_create_uvm`, on ranges that touch no area and without a failed allocation, and of `unmap_pages`
inside of one area, with the addresses that were made and not unmapped. -/
inductive UvmRun (admitted : Nat → Prop) (k₀ : Mm) (S₀ : Set Nat) : Mm → Set Nat → Prop
  | start : UvmRun admitted k₀ S₀ k₀ S₀
  | create {k k' : Mm} {S : Set Nat} {addr len flags : Nat} (run : UvmRun admitted k₀ S₀ k S) (positive : len ≠ 0)
      (above : pgsize ≤ addr) (high : addr + len ≤ 2 ^ 47)
      (apart : ∀ areas, k.Listed areas → ∀ e ∈ areas, ∀ x ∈ spannedBy addr len, ¬ e.2.Has x)
      (call : admitted (nrPagesSpanned addr len)) (served : k.AreaServed (nrPagesSpanned addr len))
      (done : k.createUvm addr len flags = .ok (0, k')) : UvmRun admitted k₀ S₀ k' (S ∪ spannedBy addr len)
  | unmap {k k' : Mm} {S : Set Nat} {v n : Nat} {ret : Int} (run : UvmRun admitted k₀ S₀ k S) (aligned : v % pgsize = 0)
      (some : 1 ≤ n)
      (within : ∃ areas, k.Listed areas ∧ ∃ e ∈ areas, e.2.start ≤ v ∧ v + pgsize * n ≤ e.2.stop)
      (done : k.unmapPages v n = .ok (ret, k')) :
      UvmRun admitted k₀ S₀ k' (if ret = 0 then S \ { x | v ≤ x ∧ x < v + pgsize * n } else S)

namespace UvmRun

open Mm

variable {k₀ k : Mm} {S₀ S : Set Nat} {root : Nat} {r : Dirs} {l : List Nat} {B : Heap.Slabs} {areas : List (Nat × VmArea)}

theorem kept (start : k₀.UvmKept root r l B areas) (covered : ∀ x, Covered areas x ↔ x ∈ S₀)
    (run : UvmRun (· ≤ intMax) k₀ S₀ k S) :
    ∃ r' l' B' areas', k.UvmKept root r' l' B' areas' ∧ ∀ x, Covered areas' x ↔ x ∈ S := by
  induction run with
  | start => exact ⟨r, l, B, areas, start, covered⟩
  | @create k k' S addr len flags run positive above high apart call served done ih =>
    obtain ⟨r₁, l₁, B₁, areas₁, known, covered₁⟩ := ih
    have small : addr < 2 ^ 64 := by omega
    obtain ⟨r', l', B', areas', known', covered'⟩ := known.create positive above high
      (known.apart_of_clear positive high (apart areas₁ known.kept.listed)) (lt_of_le_of_lt call (by decide)) served done
    refine ⟨r', l', B', areas', known', fun x => ?_⟩
    rw [covered', covered₁, ← mem_spannedBy small]
    rfl
  | @unmap k k' S v n ret run aligned some within done ih =>
    obtain ⟨r₁, l₁, B₁, areas₁, known, covered₁⟩ := ih
    obtain ⟨areas₂, listed, e, member, lower, upper⟩ := within
    obtain rfl := listed.unique known.kept.listed
    rw [pgsize] at aligned upper ⊢
    obtain ⟨pre, post, split⟩ := List.append_of_mem member
    have inside : Inside areas₂ pre post e v n := ⟨known.ordered, split, aligned, some, lower, upper⟩
    by_cases fails : k.SplitFails e.2 v (v + 16384 * n)
    · obtain ⟨k₁, l', B', refused, known', -⟩ := known.unmap_refused inside fails
      obtain ⟨rfl, rfl⟩ := Prod.mk.inj (Except.ok.inj (refused.symm.trans done))
      rw [if_neg (by decide)]
      exact ⟨r₁, l', B', areas₂, known', covered₁⟩
    · obtain ⟨k₁, r', l', B', areas', freed, known', covered', -⟩ := known.unmap_done inside fails
      obtain ⟨rfl, rfl⟩ := Prod.mk.inj (Except.ok.inj (freed.symm.trans done))
      rw [if_pos rfl]
      refine ⟨r', l', B', areas', known', fun x => ?_⟩
      rw [covered', covered₁]
      rfl

/-- As long as the pages of every range are counted by an int, areas and page table stay in step. -/
theorem stays_inStep (start : k₀.UvmKept root r l B areas) (covered : ∀ x, Covered areas x ↔ x ∈ S₀)
    (run : UvmRun (· ≤ intMax) k₀ S₀ k S) :
    ∃ l' areas', k.InStep S l' areas' ∧ k.FindsAreas areas' ∧ k.CreatesApart S ∧ k.UnmapsInside S l' areas' := by
  obtain ⟨r', l', B', areas', known, covered'⟩ := run.kept start covered
  exact ⟨l', areas', known.inStep covered', known.findsAreas, known.createsApart covered', known.unmapsInside covered'⟩

/-- Of three pages the second one is unmapped. -/
theorem stays_inStep_split : ∃ (k₀ k : Mm) (S : Set Nat) (l' : List Nat) (areas' : List (Nat × VmArea)),
    UvmRun (· ≤ intMax) k₀ ∅ k S ∧ 0x4000 ∈ S ∧ 0x8000 ∉ S ∧ k.InStep S l' areas' ∧ k.FindsAreas areas' ∧
      k.CreatesApart S ∧ k.UnmapsInside S l' areas' := by
  obtain ⟨k, root, l, B, new, table, kept, room⟩ := smallNew
  obtain ⟨root', l', B', known⟩ := UvmKept.new smallHeap_kept smallHeap_used smallHeap_phys new table
  have chunk : chunkPages B ≤ 1 := by
    rw [chunkPages]
    split <;> omega
  have three : nrPagesSpanned (16384 * 1) (16384 * 3) = 3 := by decide
  obtain ⟨k₁, r₁, l₁, B₁, a, done, kept₁, ordered₁, -, room₁, -⟩ := kept.createUvm_last (m := 1) (n := 3) .nil (.single root) 0
    le_rfl (by decide) (by decide) (by decide) (by simp) (by omega)
  have covered : ∀ x, Covered [] x ↔ x ∈ (∅ : Set Nat) := by simp [Covered]
  have run : UvmRun (· ≤ intMax) k ∅ k₁ (∅ ∪ spannedBy (16384 * 1) (16384 * 3)) := by
    refine .create .start (by decide) (by decide) (by decide) (fun areas listed e member => ?_) (by decide)
      (kept.areaServed (by omega)) done
    rw [listed.unique kept.listed] at member
    cases member
  obtain ⟨r₂, l₂, B₂, areas₂, known₂, -⟩ := run.kept known covered
  obtain rfl := known₂.kept.listed.unique kept₁.listed
  have inside : Inside _ [] [] (a, ⟨16384 * 1, 16384 * (1 + 3), 0, k.self⟩) 0x8000 1 :=
    ⟨ordered₁, rfl, by decide, le_rfl, show 16384 * 1 ≤ 0x8000 by decide, show 0x8000 + 16384 * 1 ≤ 16384 * (1 + 3) by decide⟩
  obtain ⟨k₂, r₃, l₃, B₃, areas₃, unmapped, -⟩ := known₂.unmap_done inside (kept₁.split_served inside (by omega))
  have run₂ := UvmRun.unmap run (by decide) le_rfl ⟨_, kept₁.listed, _, List.mem_cons_self .., inside.lower, inside.upper⟩ unmapped
  obtain ⟨l', areas', holds⟩ := stays_inStep known covered run₂
  refine ⟨k, k₂, _, l', areas', run₂, ?_, ?_, holds⟩
  · rw [if_pos rfl]
    exact ⟨.inr ⟨by decide, by decide⟩, fun within => absurd within.1 (by decide)⟩
  · rw [if_pos rfl]
    exact fun both => both.2 ⟨by decide, by decide⟩

/-- Of 2^32 pages none is mapped. -/
theorem not_stays_inStep : ¬ ∀ (k₀ k : Mm) (S₀ S : Set Nat) (root : Nat) (r : Dirs) (l : List Nat) (B : Heap.Slabs)
    (areas : List (Nat × VmArea)), k₀.UvmKept root r l B areas → (∀ x, Covered areas x ↔ x ∈ S₀) →
    UvmRun (fun _ => True) k₀ S₀ k S →
    ∃ l' areas', k.InStep S l' areas' ∧ k.FindsAreas areas' ∧ k.UnmapsInside S l' areas' := by
  intro claim
  have free := (initPageArray_books 0 (2 ^ 33) ⟨id, id⟩ fun _ => 0).free
  rw [bootLedger_sort] at free
  have heap := Heap.kept_bootstrap free (by decide) ⟨id, id⟩
  have phys : (initPageArray 0 (2 ^ 33) ⟨id, id⟩ fun _ => 0).PhysBound := by
    rw [PhysBound]
    decide
  have count : 2 ^ 32 + 3 ≤ 2 ^ 33 - pageArrayPages (2 ^ 33) := by decide
  obtain ⟨k, root, l, B, new, table, kept, room⟩ := mmNew_served heap phys smallCpu ⟨id, id⟩ (by
    rw [List.length_range']
    omega)
  rw [List.length_range'] at room
  obtain ⟨root', l', B', known⟩ := UvmKept.new heap smallHeap_used phys new table
  have chunk : chunkPages B ≤ 1 := by
    rw [chunkPages]
    split <;> omega
  have covered : ∀ x, Covered [] x ↔ x ∈ (∅ : Set Nat) := by simp [Covered]
  obtain ⟨len, size⟩ : ∃ len, len = 2 ^ 46 := ⟨_, rfl⟩
  have pages : nrPagesSpanned 0x4000 len = 2 ^ 32 := by
    rw [size]
    decide
  obtain ⟨f, pm, alloc⟩ := allocPages_some kept.space.free (show 0 < 2 ^ 32 by decide) (by omega)
  obtain ⟨tl, ys, -, length, kept₁, set, -⟩ := kept.allocPages alloc
  have none : (k.setPm pm).heap.pm.pageCount f = 0 := by
    show pm.pageCount f = 0
    rw [set.pageCount_eq (List.mem_cons_self ..), length]
    rfl
  have mapped : (k.setPm pm).mapPages 0x4000 f 0 = .ok (0, k.setPm pm) := by
    have whole : ¬ pageOff 0x4000 ≠ 0 := by decide
    have empty : (k.setPm pm).areaNew 0x4000 0x4000 0 = .ok (0, k.setPm pm) := if_pos le_rfl
    have insert : (k.setPm pm).areaInsert 0 = .ok (k.setPm pm) := if_pos rfl
    have loop : ∀ q, mapLoop f (pagePerm 0) (intMax + 1) 0 0x4000 (.page q) (k.setPm pm) = .ok (0, k.setPm pm) := by
      intro q
      rw [mapLoop, none, if_neg (Nat.lt_irrefl 0)]
    have stop : (0x4000 + pgsize * 0) % 2 ^ 64 = 0x4000 := by decide
    simp only [mapPages, whole, if_false, none, stop, empty, Res.ok_bind, insert, loop, if_true]
  have done : k.createUvm 0x4000 len 0 = .ok (0, k.setPm pm) := by
    have positive : len ≠ 0 := by omega
    have start : pgaddrRounddown 0x4000 = 0x4000 := by decide
    rw [← pages] at alloc
    simp only [createUvm, positive, Nat.reduceEqDiff, or_self, if_false, alloc, Res.ok_bind, start, mapped, if_true]
  have run : UvmRun (fun _ => True) k ∅ (k.setPm pm) (∅ ∪ spannedBy 0x4000 len) := by
    refine .create .start (by omega) (by decide) (by omega) (fun areas listed e member => ?_) trivial
      (kept.areaServed (by rw [pages]; omega)) done
    rw [listed.unique kept.listed] at member
    cases member
  obtain ⟨l'', areas', inStep, -⟩ := claim _ _ _ _ _ _ _ _ _ known covered run
  obtain rfl := inStep.listed.unique kept₁.listed
  have first : 0x4000 ∈ spannedBy 0x4000 len := by
    refine ⟨by decide, ?_⟩
    rw [pages]
    decide
  obtain ⟨e, member, -⟩ := (inStep.covered 0x4000).mpr (.inr first)
  cases member

end UvmRun

end Xv6
