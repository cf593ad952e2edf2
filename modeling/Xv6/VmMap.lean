import Mathlib.Algebra.Order.BigOperators.Group.Finset
import Mathlib.Order.Interval.Finset.Nat
import Xv6.UserCopyRuns
import Xv6.VmSpec

namespace Xv6

namespace PageMem

/-- The page is mapped somewhere. -/
def IsLeaf (r : Dirs) (q : Nat) : Prop := ∃ π w, r.leaf π = some w ∧ w.1 = q

/-- The page is free, a directory, or mapped. -/
def Accounted (r : Dirs) (l : List Nat) (q : Nat) : Prop := (q ∈ l ∨ r.Owns q) ∨ IsLeaf r q

theorem MapDone.accounted {v p perm : Nat} {s s' : PageMem} {r r' : Dirs} {l l' : List Nat}
    (mapped : MapDone s s' r r' l l' v p perm) (q : Nat) :
    Accounted r' l' q ↔ Accounted r l q ∨ q = p := by
  have leaves : ∀ q, IsLeaf r' q ↔ q = p ∨ ∃ π w, π ≠ path v ∧ r.leaf π = some w ∧ w.1 = q := by
    intro q
    constructor
    · rintro ⟨π, w, found, rfl⟩
      rw [mapped.leaf] at found
      by_cases here : π = path v
      · rw [here, Function.update_self] at found
        exact .inl (by rw [← Option.some.inj found])
      · rw [Function.update_of_ne here] at found
        exact .inr ⟨π, w, here, found, rfl⟩
    · rintro (rfl | ⟨π, w, other, found, rfl⟩)
      · exact ⟨path v, (q, perm), by rw [mapped.leaf, Function.update_self], rfl⟩
      · exact ⟨π, w, by rw [mapped.leaf, Function.update_of_ne other, found], rfl⟩
  rw [Accounted, Accounted, mapped.owned, leaves]
  constructor
  · rintro ((old | ⟨w, found, rfl⟩) | rfl | ⟨π, w, -, found, rfl⟩)
    · exact .inl (.inl old)
    · exact .inl (.inr ⟨_, w, found, rfl⟩)
    · exact .inr rfl
    · exact .inl (.inr ⟨π, w, found, rfl⟩)
  · rintro ((old | ⟨π, w, found, rfl⟩) | rfl)
    · exact .inl (.inl old)
    · by_cases here : π = path v
      · subst here
        exact .inl (.inr ⟨w, found, rfl⟩)
      · exact .inr (.inr ⟨π, w, here, found, rfl⟩)
    · exact .inr (.inl rfl)

/-- Less than 2^33 pages have different paths. -/
theorem path_near {i j m : Nat} (near : i < j) (close : j < i + 2 ^ 33) :
    path (16384 * (m + i)) ≠ path (16384 * (m + j)) := by
  rw [ne_eq, path_alias]
  omega

/-- The directories on the way to the pages from `m + i` up to `m + count`. -/
def dirPaths (m i count : Nat) : Finset (List Nat) :=
  (Finset.Ico i count).biUnion fun j => {[pgx (16384 * (m + j))], [pmx (16384 * (m + j)), pgx (16384 * (m + j))]}

/-- The number of directories that have to be made to map these pages. -/
def missingIn (r : Dirs) (m i count : Nat) : Nat := ((dirPaths m i count).filter fun ρ => r.dir ρ = none).card

theorem missing_eq_card (r : Dirs) (v : Nat) :
    missing r v = (({[pgx v], [pmx v, pgx v]} : Finset (List Nat)).filter fun ρ => r.dir ρ = none).card := by
  rw [missing, Finset.filter_insert, Finset.filter_singleton]
  by_cases upper : r.dir [pgx v] = none <;> by_cases lower : r.dir [pmx v, pgx v] = none <;> simp [upper, lower]

theorem missing_le_missingIn {r : Dirs} {m i count : Nat} (more : i < count) :
    missing r (16384 * (m + i)) ≤ missingIn r m i count := by
  rw [missing_eq_card, missingIn, dirPaths]
  exact Finset.card_le_card (Finset.filter_subset_filter _ (Finset.subset_biUnion_of_mem
    (fun j => ({[pgx (16384 * (m + j))], [pmx (16384 * (m + j)), pgx (16384 * (m + j))]} : Finset (List Nat)))
    (Finset.mem_Ico.mpr ⟨le_rfl, more⟩)))

/-- Mapping the first page makes the directories on its way. -/
theorem missingIn_step {r r₁ : Dirs} {m i count : Nat} (more : i < count)
    (dirs : ∀ ρ, ρ ≠ [pgx (16384 * (m + i))] → ρ ≠ [pmx (16384 * (m + i)), pgx (16384 * (m + i))] → r₁.dir ρ = r.dir ρ)
    (mapped : r₁.leaf (path (16384 * (m + i))) ≠ none) :
    missing r (16384 * (m + i)) + missingIn r₁ m (i + 1) count ≤ missingIn r m i count := by
  obtain ⟨v, defV⟩ : ∃ v, v = 16384 * (m + i) := ⟨_, rfl⟩
  rw [← defV] at dirs mapped ⊢
  obtain ⟨two, defTwo⟩ : ∃ two : Finset (List Nat), two = {[pgx v], [pmx v, pgx v]} := ⟨_, rfl⟩
  -- both directories are there now
  have lower : r₁.dir [pmx v, pgx v] ≠ none := by
    obtain ⟨w, leaf⟩ := Option.ne_none_iff_exists'.mp mapped
    obtain ⟨j, ρ, split, -, -, parent⟩ := r₁.hung (path v) w leaf
    rw [(List.cons.inj split).2]
    exact parent
  have upper : r₁.dir [pgx v] ≠ none := by
    obtain ⟨d, found⟩ := Option.ne_none_iff_exists'.mp lower
    exact (r₁.closed (pmx v) [pgx v] d found).2
  have apart : Disjoint (two.filter fun ρ => r.dir ρ = none) ((dirPaths m (i + 1) count).filter fun ρ => r₁.dir ρ = none) := by
    rw [Finset.disjoint_left]
    intro ρ inTwo inRest
    rw [Finset.mem_filter] at inTwo inRest
    rw [defTwo, Finset.mem_insert, Finset.mem_singleton] at inTwo
    rcases inTwo.1 with rfl | rfl
    · exact upper inRest.2
    · exact lower inRest.2
  rw [missing_eq_card, ← defTwo, missingIn, ← Finset.card_union_of_disjoint apart, missingIn]
  refine Finset.card_le_card fun ρ member => ?_
  rw [Finset.mem_union, Finset.mem_filter, Finset.mem_filter] at member
  rw [Finset.mem_filter, dirPaths, Finset.mem_biUnion]
  rcases member with ⟨inTwo, absent⟩ | ⟨inRest, absent⟩
  · exact ⟨⟨i, Finset.mem_Ico.mpr ⟨le_rfl, more⟩, by rw [← defV, ← defTwo]; exact inTwo⟩, absent⟩
  · obtain ⟨j, within, here⟩ := Finset.mem_biUnion.mp inRest
    rw [Finset.mem_Ico] at within
    refine ⟨⟨j, Finset.mem_Ico.mpr ⟨by omega, within.2⟩, here⟩, ?_⟩
    rw [← dirs ρ]
    · exact absent
    · rintro rfl
      exact upper absent
    · rintro rfl
      exact lower absent

/-- Not more than two directories for each page. -/
theorem missingIn_le (r : Dirs) (m i count : Nat) : missingIn r m i count ≤ 2 * (count - i) := by
  rw [missingIn]
  refine le_trans (Finset.card_filter_le ..) (le_trans (Finset.card_biUnion_le_card_mul _ _ 2 fun j _ => Finset.card_le_two) ?_)
  rw [Nat.card_Ico, Nat.mul_comm]

/-- The pages from `m + i` up to `m + count` are mapped, in their order to those of `new`. -/
structure RangeDone (s s' : PageMem) (r r' : Dirs) (l l' : List Nat) (m i count : Nat) (new : List Nat) : Prop where
  geometry : SameGeometry s s'
  length : new.length = count - i
  mapped : ∀ j, i ≤ j → j < count → r'.leaf (path (16384 * (m + j))) ≠ none
  same : ∀ π, (∀ j, i ≤ j → j < count → path (16384 * (m + j)) ≠ π) → r'.leaf π = r.leaf π
  accounted : ∀ q, Accounted r' l' q ↔ Accounted r l q ∨ q ∈ new
  slabs : ∀ x, SlabPage s x → s.Agree s' x
  bound : ∀ j, i ≤ j → j < count → 16384 * (m + j) < 2 ^ 64
  spent : (∀ j, i ≤ j → j < count → r.leaf (path (16384 * (m + j))) = none) → l.length ≤ l'.length + missingIn r m i count

theorem RangeDone.refl {s : PageMem} {r : Dirs} {l : List Nat} {m i count : Nat} (empty : count ≤ i) :
    RangeDone s s r r l l m i count [] where
  geometry := .refl s
  length := by
    rw [List.length_nil]
    omega
  mapped j lower upper := by omega
  same _ _ := rfl
  accounted q := by simp
  slabs x _ := .refl s x
  bound j lower upper := by omega
  spent _ := Nat.le_add_right ..

/-- One page, and then the others. -/
theorem RangeDone.cons {s s₁ s' : PageMem} {r r₁ r' : Dirs} {l l₁ l' new : List Nat} {root m i count p perm : Nat}
    (kept : SpaceKept root s r l) (here : i < count) (small : 16384 * (m + i) < 2 ^ 64)
    (near : count ≤ i + 2 ^ 33) (mapped : MapDone s s₁ r r₁ l l₁ (16384 * (m + i)) p perm)
    (rest : RangeDone s₁ s' r₁ r' l₁ l' m (i + 1) count new) : RangeDone s s' r r' l l' m i count (p :: new) where
  geometry := mapped.geometry.trans rest.geometry
  length := by
    rw [List.length_cons, rest.length]
    omega
  mapped j lower upper := by
    by_cases first : j = i
    · subst first
      rw [rest.same _ fun j' above below => (path_near (by omega) (by omega)).symm, mapped.leaf, Function.update_self]
      simp
    · exact rest.mapped j (by omega) upper
  same π apart := by
    rw [rest.same π fun j lower upper => apart j (by omega) upper, mapped.leaf,
      Function.update_of_ne (apart i le_rfl here).symm]
  accounted q := by
    rw [rest.accounted, mapped.accounted, List.mem_cons, or_assoc]
  slabs x slab := by
    have agree := mapped.slabs kept slab
    exact agree.trans mapped.geometry (rest.slabs x (slab.frame mapped.geometry agree))
  bound j lower upper := by
    by_cases first : j = i
    · rw [first]
      exact small
    · exact rest.bound j (by omega) upper
  spent vacant := by
    have first := mapped.fresh (vacant i le_rfl here)
    have others := rest.spent fun j lower upper => by
      rw [mapped.leaf, Function.update_of_ne (path_near (by omega) (by omega)).symm]
      exact vacant j (by omega) upper
    have step := missingIn_step (m := m) here mapped.dirs (by rw [mapped.leaf, Function.update_self]; simp)
    rw [first, List.length_drop] at others
    omega

end PageMem

namespace Mm

open PageMem

variable {k k' : Mm} {root : Nat} {r : Dirs} {l : List Nat} {B : Heap.Slabs} {areas : List (Nat × VmArea)}

/-- What the loop of `map_pages` works on after `pre`: the pages `xs` of the set are not mapped yet, and those
of `pre` only where the loop mapped them. -/
structure Mapping (k : Mm) (root : Nat) (r : Dirs) (l : List Nat) (m f : Nat) (tl pre xs : List Nat) : Prop where
  space : SpaceKept root k.heap.pm r l
  pgd : k.pgd = k.heap.pm.pageToKvaddr root
  set : AllocSet k.heap.pm f tl
  type : (k.heap.pm.page f).type = .generic
  split : f :: tl = pre ++ xs
  unmapped : ∀ π w, r.leaf π = some w → w.1 ∉ xs
  earlier : ∀ π w, r.leaf π = some w → w.1 ∈ pre → ∃ j < pre.length, path (16384 * (m + j)) = π
  short : pre.length ≤ intMax

namespace Mapping

variable {m f p perm : Nat} {tl pre xs : List Nat} {pm : PageMem} {r' : Dirs} {l' : List Nat}

theorem held (mapping : k.Mapping root r l m f tl pre (p :: xs)) : Held k.heap.pm p :=
  ⟨f, tl, mapping.set, by simp [mapping.split], mapping.type⟩

theorem free (mapping : k.Mapping root r l m f tl pre (p :: xs)) : ∀ π w, r.leaf π = some w → w.1 ≠ p :=
  fun π w found same => mapping.unmapped π w found (same ▸ List.mem_cons_self ..)

/-- The page that was mapped at the address is none of the set. -/
theorem outside (mapping : k.Mapping root r l m f tl pre xs) {w : Nat × Nat}
    (found : r.leaf (path (16384 * (m + pre.length))) = some w) : w.1 ∉ f :: tl := by
  rw [mapping.split]
  intro inside
  rcases List.mem_append.mp inside with before | after
  · obtain ⟨j, earlier, same⟩ := mapping.earlier _ w found before
    have short := mapping.short
    rw [intMax] at short
    exact path_near earlier (by omega) same
  · exact mapping.unmapped _ w found after

/-- A page of the set is mapped. -/
theorem step (mapping : k.Mapping root r l m f tl pre (p :: xs)) (space' : SpaceKept root pm r' l')
    (mapped : MapDone k.heap.pm pm r r' l l' (16384 * (m + pre.length)) p perm) (short : pre.length < intMax) :
    (k.setPm pm).Mapping root r' l' m f tl (pre ++ [p]) xs := by
  obtain ⟨set, type⟩ := mapped.set mapping.space mapping.set mapping.type fun w found => mapping.outside found
  have nodup := sorted_nodup mapping.set.sorted
  rw [mapping.split] at nodup
  have fresh : p ∉ xs := (List.nodup_cons.mp (List.nodup_append.mp nodup).2.1).1
  have known : ∀ π w, r'.leaf π = some w →
      (π = path (16384 * (m + pre.length)) ∧ w.1 = p) ∨ r.leaf π = some w := by
    intro π w found
    rw [mapped.leaf] at found
    by_cases here : π = path (16384 * (m + pre.length))
    · rw [here, Function.update_self] at found
      exact .inl ⟨here, by rw [← Option.some.inj found]⟩
    · rw [Function.update_of_ne here] at found
      exact .inr found
  refine ⟨space', ?_, set, type, by simpa using mapping.split, fun π w found inside => ?_, fun π w found inside => ?_, ?_⟩
  · show k.pgd = pm.pageToKvaddr root
    rw [mapped.geometry.kvaddr]
    exact mapping.pgd
  · rcases known π w found with ⟨-, same⟩ | old
    · exact fresh (same ▸ inside)
    · exact mapping.unmapped π w old (List.mem_cons_of_mem _ inside)
  · rw [List.length_append, List.length_singleton]
    rcases known π w found with ⟨here, -⟩ | old
    · exact ⟨pre.length, Nat.lt_succ_self _, here.symm⟩
    · have before : w.1 ∈ pre := by
        rcases List.mem_append.mp inside with before | last
        · exact before
        · exact absurd (List.mem_singleton.mp last) (mapping.free π w old)
      obtain ⟨j, earlier, same⟩ := mapping.earlier π w old before
      exact ⟨j, Nat.lt_succ_of_lt earlier, same⟩
  · rw [List.length_append, List.length_singleton]
    exact short

theorem pageCount (mapping : k.Mapping root r l m f tl pre xs) : k.heap.pm.pageCount f = (tl.length + 1) % 2 ^ 32 :=
  mapping.set.pageCount_eq (List.mem_cons_self ..)

theorem nextPage (mapping : k.Mapping root r l m f tl (pre ++ [p]) xs) : k.heap.pm.nextPage p = .page (xs.headD f) :=
  nextPage_eq mapping.set.ring (by simpa using mapping.split)

theorem archMapPage (mapping : k.Mapping root r l m f tl pre xs) (v q : Nat) :
    k.archMapPage v q perm = k.heap.pm.archMapPage (k.heap.pm.pageToKvaddr root) v q perm >>= fun done =>
      .ok (done.1, k.setPm done.2) := by
  have present : k.pgd ≠ 0 := by
    rw [mapping.pgd]
    exact kvaddr_pos _ _
  rw [Mm.archMapPage, if_neg present, mapping.pgd]

end Mapping

/-- When the loop of `map_pages` returns 0 it has mapped the pages, as many as their counter says. -/
theorem mapLoop_done {m f perm fuel vaddr : Nat} {tl pre xs : List Nat} (mapping : k.Mapping root r l m f tl pre xs)
    (own : perm &&& pteGlobal = 0) (limit : pre.length + fuel = intMax + 1)
    (address : vaddr = 16384 * (m + pre.length) % 2 ^ 64) (range : 16384 * (m + pre.length) ≤ 2 ^ 64)
    (done : mapLoop f perm fuel pre.length vaddr (.page (xs.headD f)) k = .ok (0, k')) :
    ∃ pm r' l' pre' xs', k' = k.setPm pm ∧ xs = pre' ++ xs' ∧ k'.Mapping root r' l' m f tl (pre ++ pre') xs' ∧
      RangeDone k.heap.pm pm r r' l l' m pre.length ((tl.length + 1) % 2 ^ 32) pre' ∧
      ∀ j, pre.length ≤ j → j < (tl.length + 1) % 2 ^ 32 → ∃ q, r'.leaf (path (16384 * (m + j))) = some (q, perm) := by
  induction fuel generalizing k r l pre xs vaddr with
  | zero => cases done
  | succ fuel ih =>
    rw [mapLoop, mapping.pageCount] at done
    split_ifs at done with more
    · obtain ⟨p, xs, rfl⟩ : ∃ p ys, xs = p :: ys := by
        cases xs with
        | cons p ys => exact ⟨p, ys, rfl⟩
        | nil =>
          have whole := congrArg List.length mapping.split
          rw [List.append_nil, List.length_cons] at whole
          omega
      rw [List.headD_cons] at done
      obtain ⟨⟨ret, k₁⟩, mapped, done⟩ := Res.bind_eq_ok.mp done
      simp only at done
      split_ifs at done with failed
      · exact absurd (Prod.mk.inj (Except.ok.inj done)).1 failed
      have zero : ret = 0 := not_not.mp failed
      subst zero
      rw [mapping.archMapPage] at mapped
      obtain ⟨⟨ret, pm⟩, run, mapped⟩ := Res.bind_eq_ok.mp mapped
      obtain ⟨rfl, rfl⟩ := Prod.mk.inj (Except.ok.inj mapped)
      obtain ⟨nonzero, r₁, l₁, space₁, mapDone⟩ :=
        mapping.space.map_done (by omega) mapping.held mapping.free own run
      have small : 16384 * (m + pre.length) < 2 ^ 64 := by
        by_contra big
        have null : vaddr = 0 := by omega
        rw [null] at nonzero
        exact nonzero (by decide)
      have here : vaddr = 16384 * (m + pre.length) := by omega
      rw [here] at mapDone
      have short : pre.length < intMax := by
        cases fuel with
        | zero => cases done
        | succ fuel => omega
      have mapping₁ := mapping.step space₁ mapDone short
      have next : (k.setPm pm).heap.pm.nextPage p = .page (xs.headD f) := mapping₁.nextPage
      rw [next] at done
      have index : pre.length + 1 = (pre ++ [p]).length := by simp
      have advance : (vaddr + pgsize) % 2 ^ 64 = 16384 * (m + (pre ++ [p]).length) % 2 ^ 64 := by
        rw [← index, pgsize, here]
        congr 1
      rw [index] at done
      obtain ⟨pm', r', l', pre', xs', rfl, rfl, mapping', rest, words⟩ :=
        ih mapping₁ (by rw [← index]; omega) advance (by rw [← index]; omega) done
      have count : (tl.length + 1) % 2 ^ 32 ≤ pre.length + 2 ^ 33 := by omega
      rw [← index] at rest words
      refine ⟨pm', r', l', p :: pre', xs', rfl, rfl, by simpa using mapping',
        RangeDone.cons mapping.space more small count mapDone rest, fun j lower upper => ?_⟩
      by_cases first : j = pre.length
      · rw [first, rest.same _ fun j' above below => (path_near (by omega) (by omega)).symm, mapDone.leaf,
          Function.update_self]
        exact ⟨p, rfl⟩
      · exact words j (by omega) upper
    · obtain ⟨-, rfl⟩ := Prod.mk.inj (Except.ok.inj done)
      exact ⟨k.heap.pm, r, l, [], xs, rfl, rfl, by simpa using mapping, .refl (by omega), fun j lower upper => by omega⟩

/-- The area that `map_pages` put into the list. It makes none if the range is empty, or
when there is no memory for it. -/
inductive Enlisted (k k' : Mm) (l : List Nat) (B B' : Heap.Slabs) (areas areas' : List (Nat × VmArea)) (v : VmArea) : Prop
  | none (reason : v.stop ≤ v.start ∨ l.length < chunkPages B) (same : areas' = areas) (area : k'.area = k.area)
      (slabs : B' = B)
  | some {l₁ l₂ : List (Nat × VmArea)} {a x i : Nat} (before : areas = l₁ ++ l₂) (after : areas' = l₁ ++ (a, v) :: l₂)
      (order : v.start < v.stop) (below : ∀ e ∈ l₁, e.2.stop ≤ v.start) (above : ∀ e ∈ l₂.head?, v.start < e.2.stop)
      (fresh : k.area a = .none) (area : k'.area = Function.update k.area a (.some v))
      (handed : Heap.Handed B B' areaCache x i) (chunk : Heap.Chunk k'.heap B' a sizeofVmArea areaCache x i)

/-- What `map_pages` leaves when it returns 0: `count` pages from `m` on are mapped to those of `new`. -/
structure RangeMapped (k k' : Mm) (r r' : Dirs) (l l' : List Nat) (B B' : Heap.Slabs) (areas areas' : List (Nat × VmArea))
    (m count flags : Nat) (new : List Nat) : Prop where
  geometry : k.heap.pm.SameGeometry k'.heap.pm
  self : k'.self = k.self
  length : new.length = count
  mapped : ∀ j < count, r'.leaf (path (16384 * (m + j))) ≠ none
  same : ∀ π, (∀ j < count, path (16384 * (m + j)) ≠ π) → r'.leaf π = r.leaf π
  bound : ∀ j < count, 16384 * (m + j) < 2 ^ 64
  accounted : ∀ q, Accounted r' l' q ∨ B'.Slab q ↔ (Accounted r l q ∨ B.Slab q) ∨ q ∈ new
  fewer : ∀ q, Accounted r' l' q → Accounted r l q ∨ q ∈ new
  spent : (∀ j < count, r.leaf (path (16384 * (m + j))) = none) → l.length ≤ l'.length + missingIn r m 0 count + chunkPages B
  enlisted : k.Enlisted k' l B B' areas areas' ⟨16384 * m, (16384 * m + 16384 * count) % 2 ^ 64, flags, k.self⟩

theorem Enlisted.setPm {B' : Heap.Slabs} {areas' : List (Nat × VmArea)} {v : VmArea} {pm : PageMem}
    (enlisted : k.Enlisted k' l B B' areas areas' v) (geometry : k'.heap.pm.SameGeometry pm) :
    k.Enlisted (k'.setPm pm) l B B' areas areas' v := by
  cases enlisted with
  | none reason same area slabs => exact .none reason same area slabs
  | some before after order below above fresh area handed chunk =>
    obtain ⟨fits, live, place⟩ := chunk
    exact .some before after order below above fresh area handed ⟨fits, live, place.trans (by rw [← geometry.kvaddr]; rfl)⟩

/-- The areas that were there remain, -/
theorem Enlisted.old {k' : Mm} {B' : Heap.Slabs} {areas' : List (Nat × VmArea)} {v : VmArea}
    (enlisted : k.Enlisted k' l B B' areas areas' v) {e : Nat × VmArea} (member : e ∈ areas) : e ∈ areas' := by
  cases enlisted with
  | none reason same area slabs => rwa [same]
  | some before after order below above fresh area handed chunk =>
    rw [before, List.mem_append] at member
    rw [after, List.mem_append, List.mem_cons]
    exact member.imp_right .inr

/-- no other area is new, -/
theorem Enlisted.new {k' : Mm} {B' : Heap.Slabs} {areas' : List (Nat × VmArea)} {v : VmArea}
    (enlisted : k.Enlisted k' l B B' areas areas' v) {e : Nat × VmArea} (member : e ∈ areas') : e ∈ areas ∨ e.2 = v := by
  cases enlisted with
  | none reason same area slabs => exact .inl (same ▸ member)
  | some before after order below above fresh area handed chunk =>
    rw [after, List.mem_append, List.mem_cons] at member
    rw [before, List.mem_append]
    rcases member with left | rfl | right
    · exact .inl (.inl left)
    · exact .inr rfl
    · exact .inl (.inr right)

/-- and an area is made if there is memory for it. -/
theorem Enlisted.made {k' : Mm} {B' : Heap.Slabs} {areas' : List (Nat × VmArea)} {v : VmArea}
    (enlisted : k.Enlisted k' l B B' areas areas' v) (order : v.start < v.stop) (room : chunkPages B ≤ l.length) :
    ∃ a, (a, v) ∈ areas' := by
  cases enlisted with
  | none reason same area slabs =>
    rcases reason with empty | scarce
    · exact absurd order (Nat.not_lt.mpr empty)
    · exact absurd room (Nat.not_le.mpr scarce)
  | @some l₁ l₂ a x i before after order below above fresh area handed chunk =>
    refine ⟨a, ?_⟩
    rw [after]
    exact List.mem_append_right _ (List.mem_cons_self ..)

/-- The first half of `map_pages`: an area is made and put into the list. -/
theorem Kept.enlist (kept : k.Kept root r l B areas) {start stop flags a : Nat} {k₁ : Mm}
    (aligned : start % 16384 = 0 ∧ stop % 16384 = 0) (new : k.areaNew start stop flags = .ok (a, k₁))
    (insert : k₁.areaInsert a = .ok k') :
    ∃ l' B' areas', k'.Kept root r l' B' areas' ∧ k.Enlisted k' l B B' areas areas' ⟨start, stop, flags, k.self⟩ ∧
      k.heap.pm.SameGeometry k'.heap.pm ∧ k'.self = k.self ∧ (∀ q, Held k.heap.pm q → k.heap.pm.Agree k'.heap.pm q) ∧
      (∀ q, q ∈ l' ∨ B'.Slab q ↔ q ∈ l ∨ B.Slab q) ∧ (∀ q ∈ l', q ∈ l) ∧ l.length ≤ l'.length + chunkPages B ∧
      (areas' = areas ∨ chunkPages B ≤ l.length) := by
  by_cases empty : stop ≤ start
  · rw [Mm.areaNew, if_pos empty] at new
    obtain ⟨rfl, rfl⟩ := Prod.mk.inj (Except.ok.inj new)
    obtain rfl := Except.ok.inj ((if_pos rfl).symm.trans insert)
    exact ⟨l, B, areas, kept, .none (.inl empty) rfl rfl rfl, .refl _, rfl, fun q _ => .refl _ q, fun _ => Iff.rfl,
      fun _ inside => inside, Nat.le_add_right .., .inl rfl⟩
  · rcases kept.areaNew flags (Nat.lt_of_not_le empty) aligned with
      ⟨h', run, same, scarce, kept₁⟩ | ⟨b, h', l', B', x, i, run, nonzero, fresh, served, chunk, kept₁⟩
    · obtain ⟨rfl, rfl⟩ := Prod.mk.inj (Except.ok.inj (run.symm.trans new))
      obtain rfl := Except.ok.inj ((if_pos rfl).symm.trans insert)
      refine ⟨l, B, areas, kept₁, .none (.inr scarce) rfl rfl rfl, ?_, rfl, fun q _ => ?_, fun _ => Iff.rfl,
        fun _ inside => inside, Nat.le_add_right .., .inl rfl⟩
      · rw [show ({ k with heap := h' } : Mm).heap.pm = k.heap.pm from same]
        exact .refl _
      · rw [show ({ k with heap := h' } : Mm).heap.pm = k.heap.pm from same]
        exact .refl _ q
    · have room : chunkPages B ≤ l.length := by
        by_contra scarce
        exact nonzero (kept.areaNew_null aligned (.inr (Nat.lt_of_not_le scarce)) run).1
      obtain ⟨rfl, rfl⟩ := Prod.mk.inj (Except.ok.inj (run.symm.trans new))
      have object : Function.update k.area b (some ⟨start, stop, flags, 0⟩) b = some ⟨start, stop, flags, 0⟩ :=
        Function.update_self ..
      obtain ⟨L, l₁, l₂, rfl, rfl, listed, below, above⟩ := areaInsert_done kept₁.listed object nonzero (kept.unlisted fresh) insert
      have area : Function.update (Function.update k.area b (some ⟨start, stop, flags, 0⟩)) b (some ⟨start, stop, flags, k.self⟩) =
          Function.update k.area b (some ⟨start, stop, flags, k.self⟩) := Function.update_idem ..
      refine ⟨l', B', _, ⟨served.kept, kept₁.space, kept₁.pgd, listed, fun d object => ?_⟩,
        .some rfl rfl (Nat.lt_of_not_le empty) below above fresh area served.handed chunk, served.geometry, rfl, fun q held => ?_,
        served.pages_iff, fun q inside => served.sub inside, ?_, .inr room⟩
      · by_cases here : d = b
        · exact ⟨areaCache, x, i, here ▸ chunk⟩
        · refine kept₁.chunk d fun none => object ?_
          exact (Function.update_of_ne here ..).trans none
      · refine served.agree q (held.not_free kept.space.free) ?_
        rintro rfl
        rcases served.own with free | ⟨d, holds⟩
        · exact held.not_free kept.space.free free
        · exact (kept.heap.slabPage holds).not_held held
      · rcases served.pages with ⟨rfl, -⟩ | ⟨bare, rfl⟩
        · exact Nat.le_add_right ..
        · rw [chunkPages, if_pos bare, List.length_cons]

/-- The stages of a call of `map_pages` that returns. -/
theorem mapPages_stages {m f flags : Nat} {tl : List Nat} {ret : Int} (set : AllocSet k.heap.pm f tl)
    (done : k.mapPages (16384 * m) f flags = .ok (ret, k')) :
    ∃ a k₁ k₂ ret₁ k₃, k.areaNew (16384 * m) ((16384 * m + 16384 * ((tl.length + 1) % 2 ^ 32)) % 2 ^ 64) flags = .ok (a, k₁) ∧
      k₁.areaInsert a = .ok k₂ ∧ mapLoop f (pagePerm flags) (intMax + 1) 0 (16384 * m) (.page f) k₂ = .ok (ret₁, k₃) ∧
      ((ret₁ = 0 ∧ ret = 0 ∧ k' = k₃) ∨ ret₁ ≠ 0 ∧ ret = ret₁ ∧
        ∃ k₄, unmapLoop f (intMax + 1) 0 (16384 * m) k₃ = .ok k₄ ∧ k₄.areaDestroy a = .ok k') := by
  have counted : k.heap.pm.pageCount f = (tl.length + 1) % 2 ^ 32 := set.pageCount_eq (List.mem_cons_self ..)
  have head : k.heap.pm.firstPage f = f := set.firstPage_eq (List.mem_cons_self ..)
  simp only [mapPages, counted, head, pgsize] at done
  split_ifs at done with odd
  obtain ⟨⟨a, k₁⟩, new, done⟩ := Res.bind_eq_ok.mp done
  obtain ⟨k₂, insert, done⟩ := Res.bind_eq_ok.mp done
  obtain ⟨⟨ret₁, k₃⟩, loop, done⟩ := Res.bind_eq_ok.mp done
  refine ⟨a, k₁, k₂, ret₁, k₃, new, insert, loop, ?_⟩
  simp only at done
  split_ifs at done with zero
  · obtain ⟨rfl, rfl⟩ := Prod.mk.inj (Except.ok.inj done)
    exact .inl ⟨zero, rfl, rfl⟩
  · obtain ⟨k₄, rollback, done⟩ := Res.bind_eq_ok.mp done
    obtain ⟨k₅, destroy, done⟩ := Res.bind_eq_ok.mp done
    obtain ⟨rfl, rfl⟩ := Prod.mk.inj (Except.ok.inj done)
    exact .inr ⟨zero, rfl, k₄, rollback, destroy⟩

/-- The loop of `map_pages` starts with a set that another call has not mapped. -/
theorem Kept.mapping (kept : k'.Kept root r l B areas) {f : Nat} {tl : List Nat} (m : Nat) (set : AllocSet k.heap.pm f tl)
    (type : (k.heap.pm.page f).type = .generic) (unmapped : ∀ π w, r.leaf π = some w → w.1 ∉ f :: tl)
    (geometry : k.heap.pm.SameGeometry k'.heap.pm) (agree : ∀ q, Held k.heap.pm q → k.heap.pm.Agree k'.heap.pm q) :
    k'.Mapping root r l m f tl [] (f :: tl) := by
  have same : ∀ q ∈ f :: tl, k.heap.pm.Agree k'.heap.pm q := fun q member => agree q ⟨f, tl, set, member, type⟩
  refine ⟨kept.space, kept.pgd, set.frame geometry same, ?_, rfl, unmapped, by simp, Nat.zero_le _⟩
  rw [(same f (List.mem_cons_self ..)).page]
  exact type

/-- When `map_pages` returns 0, it has mapped the pages of the set, as many as its counter says. -/
theorem Kept.mapPages_done (kept : k.Kept root r l B areas) {m f flags : Nat} {tl : List Nat} (low : m < 2 ^ 50)
    (set : AllocSet k.heap.pm f tl) (type : (k.heap.pm.page f).type = .generic)
    (unmapped : ∀ π w, r.leaf π = some w → w.1 ∉ f :: tl) (done : k.mapPages (16384 * m) f flags = .ok (0, k')) :
    ∃ r' l' B' areas' new rest, k'.Kept root r' l' B' areas' ∧ f :: tl = new ++ rest ∧ Held k'.heap.pm f ∧
      k.RangeMapped k' r r' l l' B B' areas areas' m ((tl.length + 1) % 2 ^ 32) flags new ∧
      (∀ j < (tl.length + 1) % 2 ^ 32, ∃ q, r'.leaf (path (16384 * (m + j))) = some (q, pagePerm flags)) ∧
      (areas' = areas ∨ chunkPages B ≤ l.length) := by
  obtain ⟨a, k₁, k₂, ret₁, k₃, new, insert, loop, ⟨rfl, -, rfl⟩ | ⟨failed, same, -⟩⟩ := mapPages_stages set done
  · obtain ⟨l₂, B₂, areas₂, kept₂, enlisted, geometry, self, agree, pages, sub, less, room⟩ :=
      kept.enlist (by omega) new insert
    have mapping := kept₂.mapping m set type unmapped geometry agree
    obtain ⟨pm, r', l', new', rest, rfl, split, mapping', range, words⟩ :=
      mapLoop_done mapping (pagePerm_own flags) (by simp) (by simp; omega) (by simp; omega) loop
    have kept₃ := kept₂.setPm mapping'.space range.geometry range.slabs
    have range' : (tl.length + 1) % 2 ^ 32 - ([] : List Nat).length = (tl.length + 1) % 2 ^ 32 := Nat.sub_zero _
    refine ⟨r', l', B₂, areas₂, new', rest, kept₃, split, ⟨f, tl, mapping'.set, List.mem_cons_self .., mapping'.type⟩,
      ⟨geometry.trans range.geometry, self, range.length.trans range', fun j upper => range.mapped j (Nat.zero_le _) upper,
        fun π apart => range.same π fun j _ upper => apart j upper, fun j upper => range.bound j (Nat.zero_le _) upper,
        fun q => ?_, fun q total => ?_, fun vacant => ?_, enlisted.setPm range.geometry⟩,
      fun j upper => words j (Nat.zero_le _) upper, room⟩
    · have before := pages q
      rw [range.accounted, Accounted, Accounted]
      grind
    · refine ((range.accounted q).mp total).imp_left fun old => ?_
      rcases old with (free | owned) | leaf
      · exact .inl (.inl (sub q free))
      · exact .inl (.inr owned)
      · exact .inr leaf
    · have spent := range.spent fun j _ upper => vacant j upper
      rw [List.length_nil] at spent
      omega
  · exact absurd same.symm failed

end Mm

end Xv6
