import Mathlib.Data.Finset.Sort
import Mathlib.Tactic.Tauto

namespace Xv6

/-- The books of an allocator of ordered items: the free ones and the sets that
are given out. The sets are ascending, apart from each other and not free. -/
structure Ledger (α : Type) [LinearOrder α] where
  free : Finset α
  sets : List (List α)
  nonempty : [] ∉ sets
  sorted : ∀ set ∈ sets, set.Pairwise (· < ·)
  apart : sets.Pairwise List.Disjoint
  outside : ∀ set ∈ sets, ∀ p ∈ set, p ∉ free

namespace Ledger

variable {α : Type} [LinearOrder α]

/-- The lowest `n` free items. -/
def lowest (led : Ledger α) (n : Nat) : List α := led.free.sort.take n

theorem sort_sorted (s : Finset α) : s.sort.Pairwise (· < ·) := s.sortedLT_sort.pairwise

/-- An ascending list is the sorted list of its members. -/
theorem eq_sort {l : List α} {s : Finset α} (sorted : l.Pairwise (· < ·)) (same : ∀ p, p ∈ l ↔ p ∈ s) :
    l = s.sort := by
  have perm : l.Perm s.sort := by
    refine (List.perm_ext_iff_of_nodup (sorted.imp ne_of_lt) (s.sort_nodup _)).mpr ?_
    intro p
    rw [same, Finset.mem_sort]
  exact perm.eq_of_pairwise (fun a b _ _ lt gt => absurd lt (lt_asymm gt)) sorted (sort_sorted s)

theorem lowest_subset (led : Ledger α) (n : Nat) {p : α} (member : p ∈ led.lowest n) : p ∈ led.free :=
  (Finset.mem_sort _).mp (List.mem_of_mem_take member)

/-- The lowest items are given out as a set of their own. -/
def grant (led : Ledger α) (n : Nat) (positive : 0 < n) (enough : n ≤ led.free.card) : Ledger α where
  free := led.free \ (led.lowest n).toFinset
  sets := led.lowest n :: led.sets
  nonempty := by
    have length : (led.lowest n).length = n := by
      simpa [lowest] using enough
    intro member
    rcases List.mem_cons.mp member with empty | old
    · rw [← empty, List.length_nil] at length
      omega
    · exact led.nonempty old
  sorted := by
    intro set member
    rcases List.mem_cons.mp member with rfl | old
    · exact (sort_sorted led.free).sublist (List.take_sublist _ _)
    · exact led.sorted set old
  apart := by
    refine List.pairwise_cons.mpr ⟨?_, led.apart⟩
    intro set member p lowest inSet
    exact led.outside set member p inSet (led.lowest_subset n lowest)
  outside := by
    intro set member p inSet inFree
    obtain ⟨wasFree, notLowest⟩ := Finset.mem_sdiff.mp inFree
    rcases List.mem_cons.mp member with rfl | old
    · exact notLowest (List.mem_toFinset.mpr inSet)
    · exact led.outside set old p inSet wasFree

theorem erase_apart (led : Ledger α) {set other : List α} (member : set ∈ led.sets)
    (inRest : other ∈ led.sets.erase set) : set.Disjoint other := by
  have perm := List.perm_cons_erase member
  have whole := (perm.pairwise_iff (fun {a b} apart => apart.symm)).mp led.apart
  exact (List.pairwise_cons.mp whole).1 other inRest

/-- The middle part of a set becomes free; its ends stay given out, each as a
set of its own. -/
def release (led : Ledger α) (set xs mid ys : List α) (member : set ∈ led.sets)
    (split : set = xs ++ mid ++ ys) : Ledger α where
  free := led.free ∪ mid.toFinset
  sets := [xs, ys].filter (fun part => !part.isEmpty) ++ led.sets.erase set
  nonempty := by
    intro empty
    rcases List.mem_append.mp empty with part | old
    · simp at part
    · exact led.nonempty (List.mem_of_mem_erase old)
  sorted := by
    have whole := led.sorted set member
    rw [split] at whole
    have outer := List.pairwise_append.mp whole
    intro other inside
    rcases List.mem_append.mp inside with part | old
    · have which : other = xs ∨ other = ys := by simpa using (List.mem_filter.mp part).1
      rcases which with rfl | rfl
      · exact (List.pairwise_append.mp outer.1).1
      · exact outer.2.1
    · exact led.sorted other (List.mem_of_mem_erase old)
  apart := by
    have distinct : (xs ++ mid ++ ys).Nodup := split ▸ (led.sorted set member).imp ne_of_lt
    have ends : xs.Disjoint ys := fun p inXs inYs =>
      (List.nodup_append.mp distinct).2.2 p (List.mem_append_left _ inXs) p inYs rfl
    refine List.pairwise_append.mpr ⟨?_, led.apart.sublist (List.erase_sublist ..), ?_⟩
    · exact (List.pairwise_pair.mpr ends).sublist List.filter_sublist
    · intro part inParts other inRest p inPart inOther
      refine led.erase_apart member inRest ?_ inOther
      have which : part = xs ∨ part = ys := by simpa using (List.mem_filter.mp inParts).1
      rw [split]
      rcases which with rfl | rfl <;> simp [inPart]
  outside := by
    have distinct : (xs ++ mid ++ ys).Nodup := split ▸ (led.sorted set member).imp ne_of_lt
    intro other inside p inOther inFree
    rcases List.mem_append.mp inside with part | old
    · have which : other = xs ∨ other = ys := by simpa using (List.mem_filter.mp part).1
      have inSet : p ∈ set := by
        rw [split]
        rcases which with rfl | rfl <;> simp [inOther]
      rcases Finset.mem_union.mp inFree with wasFree | freed
      · exact led.outside set member p inSet wasFree
      · have inMid := List.mem_toFinset.mp freed
        have outer := List.nodup_append.mp distinct
        rcases which with rfl | rfl
        · exact (List.nodup_append.mp outer.1).2.2 p inOther p inMid rfl
        · exact outer.2.2 p (List.mem_append_right _ inMid) p inOther rfl
    · have wasOther := List.mem_of_mem_erase old
      rcases Finset.mem_union.mp inFree with wasFree | freed
      · exact led.outside other wasOther p inOther wasFree
      · refine led.erase_apart member old ?_ inOther
        rw [split]
        simp [List.mem_toFinset.mp freed]

/-- The items an allocator looks after. -/
def Owns (led : Ledger α) (p : α) : Prop := p ∈ led.free ∨ ∃ set ∈ led.sets, p ∈ set

theorem grant_owns (led : Ledger α) {n : Nat} (positive : 0 < n) (enough : n ≤ led.free.card) (p : α) :
    (led.grant n positive enough).Owns p ↔ led.Owns p := by
  have lowest := led.lowest_subset n (p := p)
  simp only [Owns, grant, Finset.mem_sdiff, List.mem_toFinset, List.mem_cons, exists_eq_or_imp]
  tauto

theorem release_owns (led : Ledger α) {set xs mid ys : List α} (member : set ∈ led.sets)
    (split : set = xs ++ mid ++ ys) (p : α) :
    (led.release set xs mid ys member split).Owns p ↔ led.Owns p := by
  have parts : ∀ q, q ∈ set ↔ q ∈ xs ∨ q ∈ mid ∨ q ∈ ys := by
    intro q
    rw [split]
    simp
  constructor
  · rintro (inFree | ⟨other, inside, inOther⟩)
    · rcases Finset.mem_union.mp inFree with wasFree | freed
      · exact .inl wasFree
      · exact .inr ⟨set, member, (parts p).mpr (.inr (.inl (List.mem_toFinset.mp freed)))⟩
    · rcases List.mem_append.mp inside with part | old
      · have which : other = xs ∨ other = ys := by simpa using (List.mem_filter.mp part).1
        refine .inr ⟨set, member, (parts p).mpr ?_⟩
        rcases which with rfl | rfl <;> tauto
      · exact .inr ⟨other, List.mem_of_mem_erase old, inOther⟩
  · rintro (wasFree | ⟨other, inside, inOther⟩)
    · exact .inl (Finset.mem_union_left _ wasFree)
    · by_cases same : other = set
      · subst same
        rcases (parts p).mp inOther with inXs | inMid | inYs
        · exact .inr ⟨xs, List.mem_append_left _ (by simp [List.ne_nil_of_mem inXs]), inXs⟩
        · exact .inl (Finset.mem_union_right _ (List.mem_toFinset.mpr inMid))
        · exact .inr ⟨ys, List.mem_append_left _ (by simp [List.ne_nil_of_mem inYs]), inYs⟩
      · exact .inr ⟨other, List.mem_append_right _ ((List.mem_erase_of_ne same).mpr inside), inOther⟩

/-- No item is in two sets. -/
theorem same_set (led : Ledger α) {set other : List α} {p : α} (left : set ∈ led.sets)
    (right : other ∈ led.sets) (inLeft : p ∈ set) (inRight : p ∈ other) : set = other := by
  by_contra different
  have inRest : other ∈ led.sets.erase set := (List.mem_erase_of_ne (Ne.symm different)).mpr right
  exact led.erase_apart left inRest inLeft inRight

end Ledger

end Xv6
