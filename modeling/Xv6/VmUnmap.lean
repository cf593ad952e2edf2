import Xv6.VmServed

namespace Xv6

namespace PageMem

/-- The pages that were mapped at these paths are free, and the other ones as before. -/
structure PagesFreed (s s' : PageMem) (r r' : Dirs) (l l' : List Nat) (range : Set (List Nat)) : Prop where
  geometry : SameGeometry s s'
  cleared : ∀ π ∈ range, r'.leaf π = none
  same : ∀ π, π ∉ range → r'.leaf π = r.leaf π
  freed : ∀ π ∈ range, ∀ w, r.leaf π = some w → w.1 ∈ l'
  keeps : ∀ q ∈ l, q ∈ l'
  accounted : ∀ q, Accounted r' l' q ↔ Accounted r l q
  slabs : ∀ x, SlabPage s x → s.Agree s' x

namespace PagesFreed

variable {s s₁ s' : PageMem} {r r₁ r' : Dirs} {l l₁ l' : List Nat} {range rest : Set (List Nat)}

theorem refl (s : PageMem) (r : Dirs) (l : List Nat) : PagesFreed s s r r l l ∅ where
  geometry := .refl s
  cleared _ inside := inside.elim
  same _ _ := rfl
  freed _ inside := inside.elim
  keeps _ inside := inside
  accounted _ := Iff.rfl
  slabs x _ := .refl s x

theorem trans (first : PagesFreed s s₁ r r₁ l l₁ range) (second : PagesFreed s₁ s' r₁ r' l₁ l' rest) :
    PagesFreed s s' r r' l l' (range ∪ rest) where
  geometry := first.geometry.trans second.geometry
  cleared π inside := by
    by_cases later : π ∈ rest
    · exact second.cleared π later
    · rw [second.same π later]
      exact first.cleared π (inside.resolve_right later)
  same π outside := by
    rw [Set.mem_union, not_or] at outside
    rw [second.same π outside.2, first.same π outside.1]
  freed π inside w found := by
    by_cases earlier : π ∈ range
    · exact second.keeps w.1 (first.freed π earlier w found)
    · rw [← first.same π earlier] at found
      exact second.freed π (inside.resolve_left earlier) w found
  keeps q inside := second.keeps q (first.keeps q inside)
  accounted q := (second.accounted q).trans (first.accounted q)
  slabs x slab := by
    have agree := first.slabs x slab
    exact agree.trans first.geometry (second.slabs x (slab.frame first.geometry agree))

end PagesFreed

variable {root : Nat} {s : PageMem} {r : Dirs} {l : List Nat}

/-- One round of the last loop of `unmap_pages`. -/
theorem SpaceKept.unmapFree (kept : SpaceKept root s r l) (v : Nat) :
    ∃ s₁ s' r' l', s.pgtableClear (s.pageToKvaddr root) v = .ok ((r.leaf (path v)).map Prod.fst, s₁) ∧
      s₁.pgfree ((r.leaf (path v)).map Prod.fst) = .ok s' ∧ SpaceKept root s' r' l' ∧
      PagesFreed s s' r r' l l' {path v} := by
  obtain ⟨s₁, r', l₁, run, moves, kept₁, leaf, old⟩ := kept.remove v
  have same : ∀ π, π ∉ ({path v} : Set (List Nat)) → r'.leaf π = r.leaf π := by
    intro π outside
    rw [leaf, Function.update_of_ne outside]
  have cleared : ∀ π ∈ ({path v} : Set (List Nat)), r'.leaf π = none := by
    rintro π rfl
    rw [leaf, Function.update_self]
  have keeps : ∀ q ∈ l, q ∈ l₁ := by
    intro q free
    refine ((moves.owned q).mpr (.inl free)).resolve_right fun ⟨ρ, found⟩ => ?_
    exact kept.tree.not_free ⟨ρ, old ρ q found⟩ kept.free free
  have slabs : ∀ x, SlabPage s x → s.Agree s₁ x := fun x slab =>
    moves.agree x (kept.slab_apart slab).1 (kept.slab_apart slab).2
  have leaves : ∀ q, IsLeaf r q ↔ IsLeaf r' q ∨ ∃ w, r.leaf (path v) = some w ∧ w.1 = q := by
    intro q
    constructor
    · rintro ⟨π, w, found, rfl⟩
      by_cases here : π = path v
      · exact .inr ⟨w, here ▸ found, rfl⟩
      · exact .inl ⟨π, w, by rw [same π here, found], rfl⟩
    · rintro (⟨π, w, found, rfl⟩ | ⟨w, found, rfl⟩)
      · refine ⟨π, w, ?_, rfl⟩
        rw [← found, same π]
        rintro rfl
        rw [cleared _ rfl] at found
        cases found
      · exact ⟨path v, w, found, rfl⟩
  cases found : r.leaf (path v) with
  | none =>
    rw [found, Option.map_none] at run
    refine ⟨s₁, s₁, r', l₁, run, rfl, kept₁, moves.geometry, cleared, same, fun π here w mapped => ?_, keeps, fun q => ?_,
      slabs⟩
    · rw [Set.mem_singleton_iff.mp here, found] at mapped
      cases mapped
    · rw [Accounted, Accounted, moves.owned, leaves q, found]
      simp
  | some w =>
    rw [found, Option.map_some] at run
    have unmapped : ∀ π x, r'.leaf π = some x → x.1 ≠ w.1 := by
      intro π x inside shared
      by_cases here : π = path v
      · rw [cleared π here] at inside
        cases inside
      · rw [same π here] at inside
        exact here (kept.apart π (path v) x w inside found shared)
    have held : Held s₁ w.1 := moves.held kept.tree kept.free (kept.held _ w found)
    obtain ⟨s₂, l₂, freed, geometry₂, kept₂, perm, -, agree₂⟩ := kept₁.release held unmapped
    refine ⟨s₁, s₂, r', l₂, run, freed, kept₂, moves.geometry.trans geometry₂, cleared, same, fun π here x mapped => ?_,
      fun q inside => perm.mem_iff.mpr (List.mem_cons_of_mem _ (keeps q inside)), fun q => ?_, fun x slab => ?_⟩
    · rw [Set.mem_singleton_iff.mp here, found] at mapped
      rw [← Option.some.inj mapped]
      exact perm.mem_iff.mpr (List.mem_cons_self ..)
    · have owned := moves.owned q
      rw [Accounted, Accounted, leaves q, perm.mem_iff, List.mem_cons, ← owned, found]
      simp only [Option.some.injEq, exists_eq_left', eq_comm (b := q), or_assoc, or_comm, or_left_comm]
    · have agree := slabs x slab
      have slab₁ := slab.frame moves.geometry agree
      exact agree.trans moves.geometry (agree₂ x (slab₁.not_free kept₁.free) fun mates => slab₁.not_held (mates.held held))

end PageMem

namespace Mm

open PageMem

variable {k k' : Mm} {root : Nat} {r : Dirs} {l : List Nat} {B : Heap.Slabs} {areas : List (Nat × VmArea)}

theorem Kept.setCpu (kept : k.Kept root r l B areas) (c : Cpu) : Kept { k with cpu := c } root r l B areas :=
  ⟨kept.heap, kept.space, kept.pgd, kept.listed.elsewhere rfl rfl rfl fun _ _ => rfl, kept.chunk⟩

theorem Kept.pgd_ne_zero (kept : k.Kept root r l B areas) : k.pgd ≠ 0 := by
  rw [kept.pgd]
  exact kvaddr_pos _ _

/-- The paths of the pages from `m + i` to `m + count`. -/
def pathsOf (m i count : Nat) : Set (List Nat) := { π | ∃ j, i ≤ j ∧ j < count ∧ path (16384 * (m + j)) = π }

theorem pathsOf_empty {m i count : Nat} (empty : count ≤ i) : pathsOf m i count = ∅ := by
  ext π
  simp only [pathsOf, Set.mem_ofPred_eq, Set.mem_empty_iff_false, iff_false]
  rintro ⟨j, lower, upper, -⟩
  omega

theorem pathsOf_cons {m i count : Nat} (more : i < count) :
    pathsOf m i count = {path (16384 * (m + i))} ∪ pathsOf m (i + 1) count := by
  ext π
  simp only [pathsOf, Set.mem_ofPred_eq, Set.mem_union, Set.mem_singleton_iff]
  constructor
  · rintro ⟨j, lower, upper, rfl⟩
    by_cases first : j = i
    · exact .inl (by rw [first])
    · exact .inr ⟨j, by omega, upper, rfl⟩
  · rintro (rfl | ⟨j, lower, upper, rfl⟩)
    · exact ⟨i, le_rfl, more, rfl⟩
    · exact ⟨j, by omega, upper, rfl⟩

/-- The last loop of `unmap_pages` frees the pages of the range. -/
theorem freeLoop_spec {m count fuel i vaddr : Nat} (kept : k.Kept root r l B areas) (order : i ≤ count)
    (enough : count < i + fuel) (range : 16384 * (m + count) ≤ 2 ^ 64) (address : vaddr = 16384 * (m + i) % 2 ^ 64) :
    ∃ pm c r' l', freeLoop count fuel i vaddr k = .ok { k.setPm pm with cpu := c } ∧
      Kept { k.setPm pm with cpu := c } root r' l' B areas ∧
      PagesFreed k.heap.pm pm r r' l l' (pathsOf m i count) := by
  induction fuel generalizing k r l i vaddr with
  | zero => omega
  | succ fuel ih =>
    rw [freeLoop]
    split_ifs with more
    · obtain rfl : vaddr = 16384 * (m + i) := by omega
      obtain ⟨s₁, s₂, r₁, l₁, clear, free, space, freed⟩ := kept.space.unmapFree (16384 * (m + i))
      rw [← kept.pgd] at clear
      have unmap : k.archUnmapPage (16384 * (m + i)) =
          .ok ((r.leaf (path (16384 * (m + i)))).map Prod.fst, { k.setPm s₁ with cpu := k.cpu.tlbRemove (16384 * (m + i)) }) := by
        simp only [archUnmapPage, kept.pgd_ne_zero, if_false, PageMem.archUnmapPage, pgtableRemove, clear, Res.ok_bind]
      have kept₁ := (kept.setPm space freed.geometry freed.slabs).setCpu (k.cpu.tlbRemove (16384 * (m + i)))
      obtain ⟨pm, c, r', l', run, kept', rest⟩ := ih kept₁ more (by omega)
        (show (16384 * (m + i) + pgsize) % 2 ^ 64 = 16384 * (m + (i + 1)) % 2 ^ 64 by rw [pgsize]; omega)
      refine ⟨pm, c, r', l', ?_, kept', ?_⟩
      · simp only [unmap, Res.ok_bind]
        have step : s₁.pgfree (Option.map Prod.fst (r.leaf (path (16384 * (m + i))))) = .ok s₂ := free
        show (s₁.pgfree _ >>= fun pm => freeLoop count fuel (i + 1) ((16384 * (m + i) + pgsize) % 2 ^ 64) _) = _
        rw [step]
        exact run
      · rw [pathsOf_cons more]
        exact freed.trans rest
    · rw [pathsOf_empty (by omega)]
      exact ⟨k.heap.pm, k.cpu, r, l, rfl, kept.setCpu k.cpu, .refl _ r l⟩

theorem archUnmapPage_fixed {vaddr : Nat} {p : Option Nat} (done : k.archUnmapPage vaddr = .ok (p, k')) :
    k'.link = k.link ∧ k'.area = k.area := by
  rw [archUnmapPage] at done
  split_ifs at done
  obtain ⟨⟨q, pm, c⟩, -, done⟩ := Res.bind_eq_ok.mp done
  obtain ⟨-, rfl⟩ := Prod.mk.inj (Except.ok.inj done)
  exact ⟨rfl, rfl⟩

/-- The last loop of `unmap_pages` has nothing to do with the areas, and its int does not overflow. -/
theorem freeLoop_fixed {count fuel i vaddr : Nat} (done : freeLoop count fuel i vaddr k = .ok k') :
    k'.link = k.link ∧ k'.area = k.area ∧ count < i + fuel := by
  induction fuel generalizing k i vaddr with
  | zero => cases done
  | succ fuel ih =>
    rw [freeLoop] at done
    split_ifs at done with more
    · obtain ⟨⟨p, k₁⟩, unmap, done⟩ := Res.bind_eq_ok.mp done
      obtain ⟨pm, -, done⟩ := Res.bind_eq_ok.mp done
      obtain ⟨link, area⟩ := archUnmapPage_fixed unmap
      obtain ⟨link', area', bound⟩ := ih done
      exact ⟨link'.trans link, area'.trans area, by omega⟩
    · obtain rfl := Except.ok.inj done
      exact ⟨rfl, rfl, by omega⟩

/-- Both ends of the range are found, and the work on the areas begins. -/
theorem unmapPages_found {v n : Nat} {e f : Nat × VmArea} (listed : k.Listed areas) (ordered : Ordered areas) (left : e ∈ areas)
    (right : f ∈ areas) (aligned : v % 16384 = 0) (first : e.2.Has v) (last : f.2.Has (v + 16384 * n - 1))
    (upper : v + 16384 * n ≤ f.2.stop) (positive : 1 ≤ v + 16384 * n) :
    ∃ y, (y = 0 ∨ y ∈ areas.map Prod.fst) ∧ k.unmapPages v n =
      ((if e.1 = f.1 then { k with vmaLastAccessed := y }.unmapInside e.1 v (v + 16384 * n)
        else { k with vmaLastAccessed := y }.unmapAcross e.1 f.1 v (v + 16384 * n)) >>= fun done =>
        if done.1 ≠ 0 then .ok (done.1, done.2)
        else freeLoop n (intMax + 1) 0 v done.2 >>= fun k => .ok (0, k)) := by
  have bound := ordered.bound f right
  have whole : ¬ pageOff v ≠ 0 := by
    rw [pageOff_eq]
    omega
  have atStart : areaAt areas v = some e := ordered.areaAt_eq left first
  have atEnd : areaAt areas (v + 16384 * n - 1) = some f := ordered.areaAt_eq right last
  obtain ⟨x, find, known⟩ := areaFind_spec listed ordered v
  have listed₁ := listed.accessed known
  obtain ⟨y, find', known'⟩ := areaFind_spec listed₁ ordered (v + 16384 * n - 1)
  refine ⟨y, known', ?_⟩
  rw [atStart, Option.elim_some] at find
  rw [atEnd, Option.elim_some] at find'
  have stop : (v + n * pgsize) % 2 ^ 64 = v + 16384 * n := by
    rw [pgsize]
    omega
  have back : (v + 16384 * n + 2 ^ 64 - 1) % 2 ^ 64 = v + 16384 * n - 1 := by omega
  have nonzero := listed.nonzero e left
  have nonzero' := listed.nonzero f right
  by_cases same : e.1 = f.1
  · simp only [unmapPages, whole, if_false, find, Res.ok_bind, stop, back, find', nonzero', or_self, same, if_true]
  · simp only [unmapPages, whole, if_false, find, Res.ok_bind, stop, back, find', nonzero, nonzero', or_self, same]

/-- A middle area is read after it was freed. -/
theorem middleLoop_stuck {b a : Nat} (fuel : Nat) (nonzero : a ≠ 0) (other : a ≠ b) :
    middleLoop b fuel (.node a) k ≠ .ok k' := by
  intro done
  cases fuel with
  | zero => cases done
  | succ fuel =>
    simp only [middleLoop, VmaNode.node.injEq, other, if_false] at done
    obtain ⟨k₁, -, done⟩ := Res.bind_eq_ok.mp done
    obtain ⟨k₂, destroy, done⟩ := Res.bind_eq_ok.mp done
    obtain ⟨n, next, -⟩ := Res.bind_eq_ok.mp done
    rw [areaDestroy, if_neg nonzero] at destroy
    obtain ⟨v, -, destroy⟩ := Res.bind_eq_ok.mp destroy
    obtain ⟨heap, -, destroy⟩ := Res.bind_eq_ok.mp destroy
    obtain rfl := Except.ok.inj destroy
    have dead : ¬ live { k₁ with heap := heap, area := Function.update k₁.area a none } (.node a) :=
      fun alive => alive (Function.update_self ..)
    rw [nextVma, if_neg dead] at next
    cases next

end Mm

section

variable {k : Mm} {l₁ l₂ : List (Nat × VmArea)} {e : Nat × VmArea} {v : VmArea}

/-- An area gets other bounds. -/
theorem Mm.Listed.change (listed : k.Listed (l₁ ++ e :: l₂)) (own : v.mm = e.2.mm) :
    (k.setArea e.1 v).Listed (l₁ ++ (e.1, v) :: l₂) := by
  have keys : (l₁ ++ (e.1, v) :: l₂).map Prod.fst = (l₁ ++ e :: l₂).map Prod.fst := by simp
  have nodes : ((l₁ ++ (e.1, v) :: l₂).map fun f => VmaNode.node f.1) = (l₁ ++ e :: l₂).map fun f => VmaNode.node f.1 := by
    simp
  have nodup := listed.nodup
  rw [List.map_append, List.map_cons] at nodup
  have known : ∀ f ∈ l₁ ++ (e.1, v) :: l₂, f = (e.1, v) ∨ f ∈ l₁ ++ e :: l₂ ∧ f.1 ≠ e.1 := by
    intro f member
    rcases List.mem_append.mp member with left | right
    · refine .inr ⟨List.mem_append_left _ left, fun same => ?_⟩
      exact (List.nodup_append.mp nodup).2.2 _ (List.mem_map_of_mem left) _ (List.mem_cons_self ..) same
    · rcases List.mem_cons.mp right with here | later
      · exact .inl here
      · refine .inr ⟨List.mem_append_right _ (List.mem_cons_of_mem _ later), fun same => ?_⟩
        exact (List.nodup_cons.mp (List.nodup_append.mp nodup).2.1).1 (same ▸ List.mem_map_of_mem later)
  have here : e ∈ l₁ ++ e :: l₂ := by simp
  refine ⟨by rw [nodes]; exact listed.ring, fun f member => ?_, fun f member => ?_, fun f member => ?_,
    by rw [keys]; exact listed.last⟩
  · rcases known f member with rfl | ⟨old, other⟩
    · exact Function.update_self ..
    · exact (Function.update_of_ne other ..).trans (listed.area f old)
  · rcases known f member with rfl | ⟨old, -⟩
    · exact own.trans (listed.own e here)
    · exact listed.own f old
  · rcases known f member with rfl | ⟨old, -⟩
    · exact listed.nonzero e here
    · exact listed.nonzero f old

theorem Mm.Kept.change {root : Nat} {r : PageMem.Dirs} {l : List Nat} {B : Heap.Slabs}
    (kept : k.Kept root r l B (l₁ ++ e :: l₂)) (own : v.mm = e.2.mm) :
    (k.setArea e.1 v).Kept root r l B (l₁ ++ (e.1, v) :: l₂) := by
  refine ⟨kept.heap, kept.space, kept.pgd, kept.listed.change own, fun a object => ?_⟩
  by_cases here : a = e.1
  · subst here
    refine kept.chunk e.1 ?_
    rw [kept.listed.area e (by simp)]
    exact Option.some_ne_none _
  · refine kept.chunk a fun none => object ?_
    exact (Function.update_of_ne here ..).trans none

end

end Xv6
