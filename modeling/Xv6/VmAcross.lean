import Xv6.VmUnmap

namespace Xv6

open PageMem

variable {k k' : Mm} {root : Nat} {r : Dirs} {l : List Nat} {B : Heap.Slabs}
variable {areas pre mid post : List (Nat × VmArea)} {e f : Nat × VmArea} {v n : Nat}

/-- What `unmap_pages` should do: it returns 0, the areas that are left cover just what was covered
outside of the range, and the pages of the range that were mapped were taken and are free. -/
def Mm.Unmaps (k : Mm) (root : Nat) (r : Dirs) (l : List Nat) (areas : List (Nat × VmArea)) (v n : Nat) : Prop :=
  ∃ k' r' l' B' areas', k.unmapPages v n = .ok (0, k') ∧ k'.Kept root r' l' B' areas' ∧ Ordered areas' ∧
    (∀ x, Covered areas' x ↔ Covered areas x ∧ ¬ (v ≤ x ∧ x < v + 16384 * n)) ∧
    (∀ j w, v ≤ 16384 * j → 16384 * j < v + 16384 * n → r.leaf (path (16384 * j)) = some w → w.1 ∉ l ∧ w.1 ∈ l') ∧
    (PagesMatch r areas → PagesMatch r' areas')

namespace Ordered

/-- An area of the list becomes smaller. -/
theorem shrink (ordered : Ordered (pre ++ e :: post)) {w : VmArea} (valid : w.start < w.stop)
    (aligned : w.start % 16384 = 0 ∧ w.stop % 16384 = 0) (lower : e.2.start ≤ w.start) (upper : w.stop ≤ e.2.stop) :
    Ordered (pre ++ (e.1, w) :: post) := by
  obtain ⟨left, right, across⟩ := List.pairwise_append.mp ordered.sorted
  have bound := ordered.bound e (by simp)
  refine ordered.remove.insert valid aligned (Nat.lt_of_le_of_lt upper bound) (fun g member => ?_) fun g member => ?_
  · exact le_trans (across g member e (List.mem_cons_self ..)) lower
  · exact le_trans upper ((List.pairwise_cons.mp right).1 g member)

end Ordered

/-- The two areas of the range, with the list of areas between them. -/
structure Across (areas pre mid post : List (Nat × VmArea)) (e f : Nat × VmArea) (v n : Nat) : Prop where
  ordered : Ordered areas
  split : areas = pre ++ e :: (mid ++ f :: post)
  aligned : v % 16384 = 0
  first : e.2.Has v
  last : f.2.Has (v + 16384 * n - 1)

namespace Across

theorem order (across : Across areas pre mid post e f v n) : e.2.stop ≤ f.2.start := by
  have sorted := across.ordered.sorted
  rw [across.split] at sorted
  exact (List.pairwise_cons.mp (List.pairwise_append.mp sorted).2.1).1 f (by simp)

theorem left_mem (across : Across areas pre mid post e f v n) : e ∈ areas := by simp [across.split]

theorem right_mem (across : Across areas pre mid post e f v n) : f ∈ areas := by simp [across.split]

theorem stop_le (across : Across areas pre mid post e f v n) : v + 16384 * n ≤ f.2.stop ∧ f.2.stop < 2 ^ 64 := by
  have aligned := across.ordered.aligned f across.right_mem
  have bound := across.ordered.bound f across.right_mem
  have := across.aligned
  obtain ⟨lower, upper⟩ := across.last
  omega

/-- The ends of the range are cut off the two areas. -/
def cut (pre post : List (Nat × VmArea)) (e f : Nat × VmArea) (v n : Nat) : List (Nat × VmArea) :=
  pre ++ (e.1, { e.2 with stop := v }) :: (f.1, { f.2 with start := v + 16384 * n }) :: post

theorem cut_covered (across : Across areas pre [] post e f v n) (x : Nat) :
    Covered (cut pre post e f v n) x ↔ Covered areas x ∧ ¬ (v ≤ x ∧ x < v + 16384 * n) := by
  have sorted := across.ordered.sorted
  have order := across.order
  obtain ⟨upper, -⟩ := across.stop_le
  obtain ⟨lowV, highV⟩ := across.first
  obtain ⟨lowEnd, highEnd⟩ := across.last
  have below : ∀ g ∈ pre, g.2.stop ≤ e.2.start := by
    rw [across.split] at sorted
    exact fun g member => (List.pairwise_append.mp sorted).2.2 g member e (List.mem_cons_self ..)
  have above : ∀ g ∈ post, f.2.stop ≤ g.2.start := by
    rw [across.split] at sorted
    exact (List.pairwise_cons.mp (List.pairwise_cons.mp (List.pairwise_append.mp sorted).2.1).2).1
  have split := across.split
  subst split
  simp only [Covered, cut, List.nil_append, List.mem_append, List.mem_cons]
  constructor
  · rintro ⟨g, member | rfl | rfl | member, lower, upper⟩
    · have := below g member
      exact ⟨⟨g, .inl member, lower, upper⟩, by omega⟩
    · simp only at lower upper
      exact ⟨⟨e, .inr (.inl rfl), lower, by omega⟩, by omega⟩
    · simp only at lower upper
      exact ⟨⟨f, .inr (.inr (.inl rfl)), by omega, upper⟩, by omega⟩
    · have := above g member
      exact ⟨⟨g, .inr (.inr (.inr member)), lower, upper⟩, by omega⟩
  · rintro ⟨⟨g, member | rfl | rfl | member, lower, upper⟩, outside⟩
    · exact ⟨g, .inl member, lower, upper⟩
    · exact ⟨_, .inr (.inl rfl), lower, show x < v by omega⟩
    · exact ⟨_, .inr (.inr (.inl rfl)), show v + 16384 * n ≤ x by omega, upper⟩
    · exact ⟨g, .inr (.inr (.inr member)), lower, upper⟩

theorem cut_ordered (across : Across areas pre [] post e f v n) (head : e.2.start < v) (tail : v + 16384 * n < f.2.stop) :
    Ordered (cut pre post e f v n) := by
  have ordered := across.ordered
  obtain ⟨lowV, highV⟩ := across.first
  obtain ⟨lowEnd, highEnd⟩ := across.last
  have alignedE := ordered.aligned e across.left_mem
  have alignedF := ordered.aligned f across.right_mem
  have aligned := across.aligned
  have split := across.split
  subst split
  rw [List.nil_append] at ordered
  have first := ordered.shrink (w := { e.2 with stop := v }) head ⟨alignedE.1, aligned⟩ le_rfl (Nat.le_of_lt highV)
  have start : f.2.start ≤ v + 16384 * n := by omega
  have regroup : ∀ tl : List (Nat × VmArea), pre ++ (e.1, { e.2 with stop := v }) :: tl =
      (pre ++ [(e.1, { e.2 with stop := v })]) ++ tl := by simp
  rw [regroup] at first
  have second := first.shrink (w := { f.2 with start := v + 16384 * n }) tail
    ⟨(by omega : (v + 16384 * n) % 16384 = 0), alignedF.2⟩ start le_rfl
  rw [cut, regroup]
  exact second

/-- Where the pages of the range are unmapped, the areas still cover what is mapped. -/
theorem cut_match (across : Across areas pre [] post e f v n) {r r' : Dirs} (pages : PagesMatch r areas)
    (cleared : ∀ π ∈ Mm.pathsOf (v / 16384) 0 n, r'.leaf π = none)
    (same : ∀ π, π ∉ Mm.pathsOf (v / 16384) 0 n → r'.leaf π = r.leaf π) : PagesMatch r' (cut pre post e f v n) := by
  obtain ⟨upper, -⟩ := across.stop_le
  obtain ⟨lowV, highV⟩ := across.first
  have aligned := across.aligned
  have high := pages.low f across.right_mem
  refine pages.update (m := v / 16384) (n := n) (fun g member => ?_) (by omega) (fun π outside => same π ?_) (fun i less => ?_)
    fun j outside => ?_
  · simp only [cut, List.mem_append, List.mem_cons] at member
    rcases member with inPre | rfl | rfl | inPost
    · exact pages.low g (by simp [across.split, inPre])
    · have := pages.low e across.left_mem
      exact le_trans (Nat.le_of_lt highV) this
    · exact high
    · exact pages.low g (by simp [across.split, inPost])
  · rintro ⟨i, -, below, here⟩
    exact outside i below here
  · rw [across.cut_covered]
    refine iff_of_false (not_not.mpr (cleared _ ⟨i, Nat.zero_le i, less, rfl⟩)) fun inside => inside.2 (by omega)
  · rw [across.cut_covered]
    exact and_iff_left fun inside => outside (by omega)

end Across

namespace Mm

theorem middleLoop_end {b fuel : Nat} (positive : 0 < fuel) : middleLoop b fuel (.node b) k = .ok k := by
  cases fuel with
  | zero => omega
  | succ fuel => rw [middleLoop, if_pos rfl]

/-- Both ends are found, and the work on the areas begins. -/
theorem unmapPages_across (listed : k.Listed areas) (across : Across areas pre mid post e f v n) :
    ∃ y, Listed { k with vmaLastAccessed := y } areas ∧ k.unmapPages v n =
      ({ k with vmaLastAccessed := y }.unmapAcross e.1 f.1 v (v + 16384 * n) >>= fun done =>
        if done.1 ≠ 0 then .ok (done.1, done.2)
        else freeLoop n (intMax + 1) 0 v done.2 >>= fun k => .ok (0, k)) := by
  have order := across.order
  have highV := across.first.2
  have lowEnd := across.last.1
  have other : e.1 ≠ f.1 := by
    intro same
    have area := listed.area e across.left_mem
    rw [same, listed.area f across.right_mem] at area
    have equal := Option.some.inj area
    rw [equal] at order
    have valid := across.ordered.valid e across.left_mem
    omega
  obtain ⟨y, known, run⟩ := unmapPages_found listed across.ordered across.left_mem across.right_mem across.aligned across.first
    across.last across.stop_le.1 (by omega)
  rw [if_neg other] at run
  exact ⟨y, listed.accessed known, run⟩

/-- Without an area in the middle the two ends are cut off. -/
theorem unmapAcross_direct (listed : k.Listed areas) (across : Across areas pre [] post e f v n) (other : e.1 ≠ f.1) :
    k.unmapAcross e.1 f.1 v (v + 16384 * n) = .ok (0, (k.setArea e.1 { e.2 with stop := v }).setArea f.1
      { f.2 with start := v + 16384 * n }) := by
  have object : (k.setArea e.1 { e.2 with stop := v }).area f.1 = some f.2 := by
    show Function.update k.area e.1 _ f.1 = some f.2
    rw [Function.update_of_ne other.symm, listed.area f across.right_mem]
  have next := listed.next across.split
  rw [List.nil_append, vmaNode_cons] at next
  have stop : middleLoop f.1 vmaFuel (.node f.1) k = .ok k := middleLoop_end (by decide)
  simp only [unmapAcross, next, Res.ok_bind, stop, vma_eq (listed.area e across.left_mem), vma_eq object]

theorem Kept.distinct (kept : k.Kept root r l B areas) (across : Across areas pre mid post e f v n) : e.1 ≠ f.1 := by
  intro same
  have area := kept.listed.area e across.left_mem
  rw [same, kept.listed.area f across.right_mem] at area
  have order := across.order
  rw [Option.some.inj area] at order
  have valid := across.ordered.valid e across.left_mem
  omega

/-- Adjacent areas are cut as they should be. -/
theorem Kept.unmaps (kept : k.Kept root r l B areas) (across : Across areas pre [] post e f v n) (head : e.2.start < v)
    (tail : v + 16384 * n < f.2.stop) (few : n ≤ intMax) : k.Unmaps root r l areas v n := by
  obtain ⟨y, listed, run⟩ := unmapPages_across kept.listed across
  obtain ⟨upper, bound⟩ := across.stop_le
  have aligned := across.aligned
  have kept₁ : Kept { k with vmaLastAccessed := y } root r l B areas :=
    ⟨kept.heap, kept.space, kept.pgd, listed, kept.chunk⟩
  have kept₂ : Kept { k with vmaLastAccessed := y } root r l B (pre ++ e :: f :: post) := across.split ▸ kept₁
  have kept₃ := kept₂.change (v := { e.2 with stop := v }) rfl
  have regroup : pre ++ (e.1, { e.2 with stop := v }) :: f :: post = (pre ++ [(e.1, { e.2 with stop := v })]) ++ f :: post := by
    simp
  rw [regroup] at kept₃
  have kept₄ := kept₃.change (v := { f.2 with start := v + 16384 * n }) rfl
  have cut : pre ++ [(e.1, { e.2 with stop := v })] ++ (f.1, { f.2 with start := v + 16384 * n }) :: post =
      Across.cut pre post e f v n := by simp [Across.cut]
  rw [cut] at kept₄
  obtain ⟨pm, c, r', l', free, kept', freed⟩ := freeLoop_spec kept₄ (Nat.zero_le n) (show n < 0 + (intMax + 1) by omega)
    (show 16384 * (v / 16384 + n) ≤ 2 ^ 64 by omega) (show v = 16384 * (v / 16384 + 0) % 2 ^ 64 by omega)
  refine ⟨_, r', l', B, _, ?_, kept', across.cut_ordered head tail, across.cut_covered, fun j w lower above found => ?_,
    fun pages => across.cut_match pages freed.cleared freed.same⟩
  · rw [run, unmapAcross_direct listed across (kept.distinct across), Res.ok_bind, if_neg (not_not.mpr rfl), free]
    rfl
  · refine ⟨kept.space.leaf_not_free found, freed.freed _ ⟨j - v / 16384, Nat.zero_le _, by omega, ?_⟩ w found⟩
    rw [show v / 16384 + (j - v / 16384) = j by omega]

/-- Where `unmap_pages` does what it should, it found no area between the two, and it left something of both. -/
theorem Kept.unmaps_only (kept : k.Kept root r l B areas) (across : Across areas pre mid post e f v n)
    (unmaps : k.Unmaps root r l areas v n) : mid = [] ∧ e.2.start < v ∧ v + 16384 * n < f.2.stop ∧ n ≤ intMax := by
  obtain ⟨k', r', l', B', areas', done, kept', ordered', -⟩ := unmaps
  obtain ⟨y, listed, run⟩ := unmapPages_across kept.listed across
  rw [run] at done
  obtain ⟨⟨ret, k₁⟩, acrossDone, done⟩ := Res.bind_eq_ok.mp done
  cases mid with
  | cons g rest =>
    -- the first area in the middle is freed, and the loop reads it
    exfalso
    have next := listed.next across.split
    rw [List.cons_append, vmaNode_cons] at next
    rw [unmapAcross, next, Res.ok_bind] at acrossDone
    obtain ⟨k₂, middle, -⟩ := Res.bind_eq_ok.mp acrossDone
    have member : g ∈ areas := by simp [across.split]
    refine middleLoop_stuck vmaFuel (listed.nonzero g member) ?_ middle
    have nodup := listed.nodup
    rw [across.split] at nodup
    simp only [List.map_append, List.map_cons, List.cons_append, List.nodup_append, List.nodup_cons] at nodup
    intro same
    exact nodup.2.1.2.1 (same ▸ by simp)
  | nil =>
    rw [unmapAcross_direct listed across (kept.distinct across)] at acrossDone
    obtain ⟨rfl, rfl⟩ := Prod.mk.inj (Except.ok.inj acrossDone)
    simp only [ne_eq, not_true, if_false] at done
    obtain ⟨k₂, free, done⟩ := Res.bind_eq_ok.mp done
    obtain ⟨-, rfl⟩ := Prod.mk.inj (Except.ok.inj done)
    obtain ⟨link, area, few⟩ := freeLoop_fixed free
    -- the objects of the two areas are still in the list
    have keys : (areas'.map fun g => VmaNode.node g.1) = areas.map fun g => VmaNode.node g.1 := by
      have ring := kept'.listed.ring
      rw [link] at ring
      exact ring.unique listed.ring
    have still : ∀ g ∈ areas, ∃ w, k₂.area g.1 = some w ∧ w.start < w.stop := by
      intro g member
      have node : VmaNode.node g.1 ∈ areas'.map fun g => VmaNode.node g.1 :=
        keys ▸ List.mem_map_of_mem (f := fun g : Nat × VmArea => VmaNode.node g.1) member
      obtain ⟨g', member', same⟩ := List.mem_map.mp node
      refine ⟨g'.2, ?_, ordered'.valid g' member'⟩
      rw [← VmaNode.node.inj same]
      exact kept'.listed.area g' member'
    have other := kept.distinct across
    refine ⟨rfl, ?_, ?_, by omega⟩
    · obtain ⟨w, found, valid⟩ := still e across.left_mem
      rw [area] at found
      have object : some { e.2 with stop := v } = some w := by
        rw [← found]
        show some _ = Function.update (Function.update k.area e.1 (some _)) f.1 (some _) e.1
        rw [Function.update_of_ne other, Function.update_self]
      rw [← Option.some.inj object] at valid
      exact valid
    · obtain ⟨w, found, valid⟩ := still f across.right_mem
      rw [area] at found
      have object : some { f.2 with start := v + 16384 * n } = some w := by
        rw [← found]
        show some _ = Function.update (Function.update k.area e.1 (some _)) f.1 (some _) f.1
        rw [Function.update_self]
      rw [← Option.some.inj object] at valid
      exact valid

/-- Across several areas `unmap_pages` does what it should just when the two ends are in adjacent
areas, the range leaves something of both, and its length is an int. -/
theorem unmapPages_across_iff (kept : k.Kept root r l B areas) (across : Across areas pre mid post e f v n) :
    k.Unmaps root r l areas v n ↔ mid = [] ∧ e.2.start < v ∧ v + 16384 * n < f.2.stop ∧ n ≤ intMax := by
  constructor
  · exact kept.unmaps_only across
  · rintro ⟨rfl, head, tail, few⟩
    exact kept.unmaps across head tail few

/-- Two areas of two pages, of which the inner pages are unmapped. -/
theorem unmapPages_across_two :
    ∃ (k : Mm) (root : Nat) (r : Dirs) (l : List Nat) (B : Heap.Slabs) (areas : List (Nat × VmArea)) (v n : Nat),
      k.Kept root r l B areas ∧ PagesMatch r areas ∧ k.Unmaps root r l areas v n := by
  obtain ⟨k, root, l, B, -, -, kept, room⟩ := smallNew
  obtain ⟨k₁, r₁, l₁, B₁, a, -, kept₁, ordered₁, pages₁, room₁, -⟩ := kept.createUvm_last (m := 1) (n := 2) .nil (.single root) 0
    le_rfl (by decide) (by decide) (by decide) (by simp) (by omega)
  obtain ⟨k₂, r₂, l₂, B₂, b, -, kept₂, ordered₂, pages₂, -, -⟩ := kept₁.createUvm_last (m := 3) (n := 2) ordered₁ pages₁ 0
    (by decide) (by decide) (by decide) (by decide) (by simp) (by omega)
  refine ⟨k₂, root, r₂, l₂, B₂, _, 0x8000, 2, kept₂, pages₂, ?_⟩
  have across : Across _ [] [] [] _ _ 0x8000 2 :=
    ⟨ordered₂, rfl, by decide, .of_bounds (by decide) (by decide), .of_bounds (by decide) (by decide)⟩
  refine (unmapPages_across_iff kept₂ across).mpr ⟨rfl, ?_, ?_, by decide⟩
  · show 16384 * 1 < 0x8000
    decide
  · show 0x8000 + 16384 * 2 < 16384 * (3 + 2)
    decide

/-- With an area between the two, it is read after it was freed. -/
theorem not_unmaps :
    ¬ ∀ (k : Mm) (root : Nat) (r : Dirs) (l : List Nat) (B : Heap.Slabs) (areas pre mid post : List (Nat × VmArea))
      (e f : Nat × VmArea) (v n : Nat), k.Kept root r l B areas → PagesMatch r areas →
      Across areas pre mid post e f v n → k.Unmaps root r l areas v n := by
  intro claim
  obtain ⟨k, root, l, B, -, -, kept, room⟩ := smallNew
  obtain ⟨k₁, r₁, l₁, B₁, a, -, kept₁, ordered₁, pages₁, room₁, -⟩ := kept.createUvm_last (m := 1) (n := 2) .nil (.single root) 0
    le_rfl (by decide) (by decide) (by decide) (by simp) (by omega)
  obtain ⟨k₂, r₂, l₂, B₂, b, -, kept₂, ordered₂, pages₂, room₂, -⟩ := kept₁.createUvm_last (m := 3) (n := 1) ordered₁ pages₁ 0
    (by decide) (by decide) (by decide) (by decide) (by simp) (by omega)
  obtain ⟨k₃, r₃, l₃, B₃, d, -, kept₃, ordered₃, pages₃, -, -⟩ := kept₂.createUvm_last (m := 4) (n := 2) ordered₂ pages₂ 0
    (by decide) (by decide) (by decide) (by decide) (by simp) (by omega)
  have across : Across _ [] _ [] _ _ 0x8000 3 := 
    ⟨ordered₃, rfl, by decide, .of_bounds (by decide) (by decide), .of_bounds (by decide) (by decide)⟩
  have unmaps := claim k₃ root r₃ l₃ B₃ _ _ _ _ _ _ 0x8000 3 kept₃ pages₃ across
  exact absurd (kept₃.unmaps_only across unmaps).1 (by simp)

end Mm

end Xv6
