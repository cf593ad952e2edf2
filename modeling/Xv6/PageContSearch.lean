import Xv6.PageSets
import Xv6.Lib.Fuel

namespace Xv6.PageMem

/-- The `num` pages from `f` on are in the list. -/
def RunAt (l : List Nat) (num f : Nat) : Prop := ∀ k < num, f + k ∈ l

/-- The lowest run of `num` pages starts at `f`. -/
def LowestRun (l : List Nat) (num f : Nat) : Prop := RunAt l num f ∧ ∀ g < f, ¬ RunAt l num g

theorem LowestRun.unique {l : List Nat} {num f g : Nat} (left : LowestRun l num f) (right : LowestRun l num g) :
    f = g := by
  rcases Nat.lt_trichotomy f g with lt | eq | gt
  · exact absurd left.1 (right.2 f lt)
  · exact eq
  · exact absurd right.1 (left.2 g gt)

theorem exists_lowestRun {l : List Nat} {num f : Nat} (run : RunAt l num f) : ∃ g, LowestRun l num g := by
  induction f using Nat.strongRecOn with
  | ind f ih =>
    by_cases lower : ∃ g < f, RunAt l num g
    · obtain ⟨g, lt, run'⟩ := lower
      exact ih g lt run'
    · exact ⟨f, run, fun g lt run' => lower ⟨g, lt, run'⟩⟩

/-- How one pass of the search over the free pages ends: on a page that is not
the last one, or at the head of the list with a counter. -/
inductive Pass
  | found (p : Nat)
  | passed (i : Nat)
  deriving DecidableEq

/-- One pass of `contSearch` over the pages that are left, from counter `i` on. -/
def pass (num : Nat) : Nat → List Nat → Pass
  | i, [] => .passed i
  | i, [_] => .passed (i - 1)
  | i, x :: y :: rest =>
    if 1 < i ∧ y ≠ x + 1 then pass num num (y :: rest)
    else if i = 1 then .found x
    else pass num (i - 1) (y :: rest)

/-- What is known in front of the pages `rest` with counter `i`: the run that
starts at `f` needs `i` more pages, and no run starts below it. -/
structure Scanned (l rest : List Nat) (num i f : Nat) : Prop where
  suffix : rest <:+ l
  positive : 0 < i
  next : rest.head? = some (f + (num - i))
  le : i ≤ num
  here : ∀ k < num - i, f + k ∈ l
  lowest : ∀ g < f, ¬ RunAt l num g

theorem suffix_below {l rest : List Nat} {x p : Nat} (sorted : l.Pairwise (· < ·)) (suffix : x :: rest <:+ l)
    (member : p ∈ l) (above : x < p) : p ∈ rest := by
  obtain ⟨front, rfl⟩ := suffix
  rcases List.mem_append.mp member with before | inside
  · have lt := (List.pairwise_append.mp sorted).2.2 p before x (by simp)
    omega
  · rcases List.mem_cons.mp inside with rfl | after
    · omega
    · exact after

/-- No run starts at the pages behind which the list has a hole. -/
theorem no_run_across {l : List Nat} {num f x : Nat} (hole : x + 1 ∉ l) (short : x + 1 < f + num)
    (lowest : ∀ g < f, ¬ RunAt l num g) : ∀ g ≤ x, ¬ RunAt l num g := by
  intro g le run
  by_cases low : g < f
  · exact lowest g low run
  · have member := run (x + 1 - g) (by omega)
    rw [Nat.add_sub_of_le (by omega : g ≤ x + 1)] at member
    exact hole member

/-- A pass finds the lowest run, unless that ends at the last page. -/
theorem pass_spec {l rest : List Nat} {num i f : Nat} (sorted : l.Pairwise (· < ·))
    (scanned : Scanned l rest num i f) :
    (∃ g, pass num i rest = .found (g + num - 1) ∧ LowestRun l num g ∧ ∃ p ∈ l, g + num ≤ p) ∨
    (∃ g, pass num i rest = .passed 0 ∧ LowestRun l num g ∧ ∀ p ∈ l, p < g + num) ∨
    (∃ j, pass num i rest = .passed (j + 1) ∧ ∀ g, ¬ RunAt l num g) := by
  induction rest generalizing i f with
  | nil => exact absurd scanned.next (by simp)
  | cons x rest ih =>
    obtain ⟨suffix, positive, next, le, here, lowest⟩ := scanned
    obtain rfl : x = f + (num - i) := by simpa using next
    have inside : f + (num - i) ∈ l := suffix.subset (by simp)
    have longer : ∀ k < num - i + 1, f + k ∈ l := by
      intro k lt
      by_cases last : k = num - i
      · exact last ▸ inside
      · exact here k (by omega)
    have full : i = 1 → RunAt l num f := fun one k lt => longer k (by omega)
    cases rest with
    | nil =>
      have top : ∀ p ∈ l, p ≤ f + (num - i) := by
        intro p member
        by_contra above
        exact absurd (suffix_below sorted suffix member (by omega)) (by simp)
      by_cases one : i = 1
      · refine .inr (.inl ⟨f, by simp [pass, one], ⟨full one, lowest⟩, fun p member => ?_⟩)
        have := top p member
        omega
      · refine .inr (.inr ⟨i - 2, by simp only [pass]; congr 1; omega, fun g run => ?_⟩)
        have hole : f + (num - i) + 1 ∉ l := fun member => by have := top _ member; omega
        by_cases low : g ≤ f + (num - i)
        · exact no_run_across hole (by omega) lowest g low run
        · have := top _ (run 0 (by omega))
          omega
    | cons y rest =>
      have ascending : ((f + (num - i)) :: y :: rest).Pairwise (· < ·) := sorted.sublist suffix.sublist
      have above : f + (num - i) < y := (List.pairwise_cons.mp ascending).1 y (by simp)
      have later : y :: rest <:+ l := (List.suffix_cons _ _).trans suffix
      have yIn : y ∈ l := later.subset (by simp)
      by_cases gap : 1 < i ∧ y ≠ f + (num - i) + 1
      · have between : ∀ p ∈ l, f + (num - i) < p → y ≤ p := by
          intro p member lt
          rcases List.mem_cons.mp (suffix_below sorted suffix member lt) with rfl | after
          · exact Nat.le_refl _
          · exact Nat.le_of_lt ((List.pairwise_cons.mp (List.pairwise_cons.mp ascending).2).1 p after)
        have hole : f + (num - i) + 1 ∉ l := fun member => by
          have := between _ member (by omega)
          omega
        have fresh : Scanned l (y :: rest) num num y := by
          refine ⟨later, by omega, by simp, Nat.le_refl _, by simp, fun g lt run => ?_⟩
          by_cases low : g ≤ f + (num - i)
          · exact no_run_across hole (by omega) lowest g low run
          · have := between _ (run 0 (by omega)) (by omega)
            omega
        simpa only [pass, if_pos gap] using ih fresh
      · by_cases one : i = 1
        · refine .inl ⟨f, ?_, ⟨full one, lowest⟩, y, yIn, by omega⟩
          subst one
          simp only [pass, if_neg gap, if_true, Pass.found.injEq]
          omega
        · have adjacent : y = f + (num - i) + 1 := by
            by_contra other
            exact gap ⟨by omega, other⟩
          have grown : Scanned l (y :: rest) num (i - 1) f := by
            refine ⟨later, by omega, ?_, by omega, fun k lt => longer k (by omega), lowest⟩
            rw [adjacent, List.head?_cons]
            congr 1
            omega
          simpa only [pass, if_neg gap, if_neg one] using ih grown

/-- A pass over the whole list. -/
theorem pass_all {l : List Nat} {num : Nat} (sorted : l.Pairwise (· < ·)) (nonempty : l ≠ []) (positive : 0 < num) :
    (∃ g, pass num num l = .found (g + num - 1) ∧ LowestRun l num g ∧ ∃ p ∈ l, g + num ≤ p) ∨
    (∃ g, pass num num l = .passed 0 ∧ LowestRun l num g ∧ ∀ p ∈ l, p < g + num) ∨
    (∃ j, pass num num l = .passed (j + 1) ∧ ∀ g, ¬ RunAt l num g) := by
  obtain ⟨x, rest, rfl⟩ := List.exists_cons_of_ne_nil nonempty
  refine pass_spec sorted (⟨List.suffix_refl _, positive, by simp, Nat.le_refl _, by simp, ?_⟩ :
    Scanned (x :: rest) (x :: rest) num num x)
  intro g lt run
  have member := run 0 positive
  rcases List.mem_cons.mp member with same | after
  · omega
  · have := (List.pairwise_cons.mp sorted).1 _ after
    omega

/-- A counter that starts too high comes back to the head of the list. -/
theorem pass_high {num i j : Nat} {l : List Nat} (nonempty : l ≠ []) (positive : 0 < i)
    (back : pass num i l = .passed 0) (high : l.length + 2 ≤ j) : pass num j l = .passed 0 ∨ ∃ k, pass num j l = .passed (k + 2) := by
  induction l generalizing i j with
  | nil => exact absurd rfl nonempty
  | cons x rest ih =>
    simp only [List.length_cons] at high
    cases rest with
    | nil =>
      refine .inr ⟨j - 3, ?_⟩
      simp only [List.length_nil] at high
      simp only [pass, Pass.passed.injEq]
      omega
    | cons y rest =>
      have big : 1 < j := by omega
      by_cases gap : y ≠ x + 1
      · rw [pass, if_pos ⟨big, gap⟩]
        by_cases one : i = 1
        · subst one
          simp [pass] at back
        · rw [pass, if_pos ⟨by omega, gap⟩] at back
          exact .inl back
      · have keeps : ∀ k, ¬ (1 < k ∧ y ≠ x + 1) := fun k both => gap both.2
        rw [pass, if_neg (keeps i)] at back
        rw [pass, if_neg (keeps j), if_neg (by omega : ¬ j = 1)]
        split_ifs at back with one
        exact ih (by simp) (by omega) back (by omega)

/-- The search of `alloc_cont_pages` as a loop on its counter and its two cursors. -/
def search (s : PageMem) (num n : Nat) (state : Nat × PageNode × PageNode) : Res (Nat × PageNode) :=
  s.contSearch num n state.1 state.2.1 state.2.2

theorem search_fueled (s : PageMem) (num : Nat) : Fueled (s.search num) (.error .diverge) where
  zero _ := rfl
  stable n := by
    rintro ⟨i, p, np⟩ done
    simp only [search] at done ⊢
    induction n generalizing i p np with
    | zero => exact absurd rfl done
    | succ n ih =>
      rw [contSearch.eq_2 s num i p np n] at done ⊢
      rw [contSearch.eq_2 s num i p np (n + 1)]
      split_ifs at done ⊢ with more
      · exact ih _ _ _ done
      · rfl

/-- A round of the search at a page. -/
theorem search_page {s : PageMem} {l front rest : List Nat} (num : Nat) {i x : Nat} {p : PageNode} (free : FreeList s l)
    (split : l = front ++ x :: rest) (positive : 0 < i) (bound : i < 2 ^ 64) (n : Nat) :
    s.search num (n + 1) (i, p, .page x) =
      s.search num n (if 1 < i ∧ rest.head? ≠ some (x + 1) ∧ rest ≠ [] then num else i - 1, .page x,
        firstNode rest) := by
  have ring : s.link.IsRing .freeList (front.map .page ++ .page x :: rest.map .page) := by
    simpa [split] using free.ring
  have next : s.link.next (.page x) = firstNode rest := by rw [ring.next_mid, firstNode_eq]
  have less : (i + 2 ^ 64 - 1) % 2 ^ 64 = i - 1 := by omega
  simp only [search]
  rw [contSearch, if_pos (.inl positive)]
  simp only [next, less]
  have same : (1 < i ∧ (firstNode rest == PageNode.page (x + 1)) = false ∧ firstNode rest ≠ .freeList) ↔
      (1 < i ∧ rest.head? ≠ some (x + 1) ∧ rest ≠ []) := by
    cases rest <;> simp [firstNode]
  rw [if_congr same rfl rfl]

/-- A round of the search at the head of the free list. -/
theorem search_head {s : PageMem} {l : List Nat} (num : Nat) {i : Nat} {p : PageNode} (free : FreeList s l)
    (nonempty : l ≠ []) (n : Nat) :
    s.search num (n + 1) (i, p, .freeList) =
      s.search num n (if 1 < i then num else (i + 2 ^ 64 - 1) % 2 ^ 64, .freeList, firstNode l) := by
  have next := free.first
  obtain ⟨x, rest, rfl⟩ := List.exists_cons_of_ne_nil nonempty
  simp only [search]
  rw [contSearch, if_pos (.inr rfl)]
  have other : s.link.next .freeList ≠ .freeList := by rw [next]; simp [firstNode]
  simp only [next, firstNode, ne_eq, reduceCtorEq, not_false_eq_true, and_true]

/-- A pass of the search over the pages `rest`. -/
theorem search_pass {s : PageMem} {l front rest : List Nat} {num i : Nat} {p : PageNode} (free : FreeList s l)
    (split : l = front ++ rest) (nonempty : rest ≠ []) (positive : 0 < i) (bound : i < 2 ^ 64)
    (wanted : 0 < num) (small : num < 2 ^ 64) :
    match pass num i rest with
    | .found x => ∃ y, Segment (s.search num) (i, p, firstNode rest) (0, .page x, .page y)
    | .passed j => ∃ p', Segment (s.search num) (i, p, firstNode rest) (j, p', .freeList) := by
  induction rest generalizing front i p with
  | nil => exact absurd rfl nonempty
  | cons x rest ih =>
    have step := fun n => search_page num (p := p) free split positive bound n
    cases rest with
    | nil =>
      refine ⟨.page x, .one (fun n => ?_)⟩
      simpa [firstNode] using step n
    | cons y rest =>
      have split' : l = (front ++ [x]) ++ y :: rest := by simpa using split
      by_cases gap : 1 < i ∧ y ≠ x + 1
      · have round : Segment (s.search num) (i, p, firstNode (x :: y :: rest)) (num, .page x, firstNode (y :: rest)) :=
          .one (fun n => by simpa [firstNode, gap] using step n)
        have later := ih (p := .page x) split' (by simp) wanted small
        rw [pass, if_pos gap]
        revert later
        cases pass num num (y :: rest) with
        | found z => exact fun ⟨w, run⟩ => ⟨w, round.trans run⟩
        | passed j => exact fun ⟨w, run⟩ => ⟨w, round.trans run⟩
      · have keep : ¬ (1 < i ∧ (y :: rest).head? ≠ some (x + 1) ∧ y :: rest ≠ []) := fun both =>
          gap ⟨both.1, fun same => both.2.1 (by simp [same])⟩
        have round : Segment (s.search num) (i, p, firstNode (x :: y :: rest))
            (i - 1, .page x, firstNode (y :: rest)) :=
          .one (fun n => by
            have here := step n
            rwa [if_neg keep] at here)
        rw [pass, if_neg gap]
        by_cases one : i = 1
        · subst one
          exact ⟨y, round⟩
        · have later := ih (p := .page x) split' (by simp) (by omega : 0 < i - 1) (by omega)
          rw [if_neg one]
          revert later
          cases pass num (i - 1) (y :: rest) with
          | found z => exact fun ⟨w, run⟩ => ⟨w, round.trans run⟩
          | passed j => exact fun ⟨w, run⟩ => ⟨w, round.trans run⟩

section Search

variable {s : PageMem} {l : List Nat} {num : Nat}

/-- The search finds the lowest run when that ends in front of the last page. -/
theorem search_found (free : FreeList s l) (wanted : 0 < num) (small : num < 2 ^ 64) {f p : Nat}
    (lowest : LowestRun l num f) (inside : p ∈ l) (behind : f + num ≤ p) :
    ∃ n, s.contSearch num n num .freeList (s.link.next .freeList) = .ok (0, .page (f + num - 1)) := by
  have nonempty : l ≠ [] := List.ne_nil_of_mem inside
  have run := search_pass (p := .freeList) free (List.nil_append l).symm nonempty wanted small wanted small
  rcases pass_all free.sorted nonempty wanted with ⟨g, done, same, -⟩ | ⟨g, -, same, top⟩ | ⟨j, -, none⟩
  · obtain rfl := lowest.unique same
    rw [done] at run
    obtain ⟨y, c, -, steps⟩ := run
    refine ⟨1 + c, ?_⟩
    rw [free.first]
    exact (steps 1).trans (by simp [search, contSearch])
  · obtain rfl := lowest.unique same
    have := top p inside
    omega
  · exact absurd lowest.1 (none f)

/-- When the lowest run ends at the last page the search never ends. -/
theorem search_last (free : FreeList s l) (wanted : 0 < num) (small : num < 2 ^ 64) (few : l.length + 3 < 2 ^ 64)
    {f : Nat} (lowest : LowestRun l num f) (last : ∀ p ∈ l, p < f + num) (n : Nat) :
    s.contSearch num n num .freeList (s.link.next .freeList) = .error .diverge := by
  have nonempty : l ≠ [] := List.ne_nil_of_mem (lowest.1 0 wanted)
  have back : pass num num l = .passed 0 := by
    rcases pass_all free.sorted nonempty wanted with ⟨g, -, same, p, inside, behind⟩ | ⟨g, done, -⟩ | ⟨j, -, none⟩
    · obtain rfl := lowest.unique same
      have := last p inside
      omega
    · exact done
    · exact absurd lowest.1 (none f)
  have wraps : (0 + 2 ^ 64 - 1) % 2 ^ 64 = 2 ^ 64 - 1 := by decide
  have wrap : ∀ p, Segment (s.search num) (0, p, .freeList) (2 ^ 64 - 1, .freeList, firstNode l) := fun p =>
    .one (fun m => by
      have round := search_head num (i := 0) (p := p) free nonempty m
      rwa [if_neg (by decide), wraps] at round)
  have again : ∀ k p, Segment (s.search num) (k + 2, p, .freeList) (num, .freeList, firstNode l) := fun k p =>
    .one (fun m => by
      have round := search_head num (i := k + 2) (p := p) free nonempty m
      rwa [if_pos (by omega)] at round)
  refine (search_fueled s num).runs_out
    (fun state => state = (num, .freeList, firstNode l) ∨ state = (2 ^ 64 - 1, .freeList, firstNode l)) ?_ n
    (s := (num, .freeList, s.link.next .freeList)) (.inl (by rw [free.first]))
  rintro state (rfl | rfl)
  · have run := search_pass (p := .freeList) free (List.nil_append l).symm nonempty wanted small wanted small
    rw [back] at run
    obtain ⟨p, steps⟩ := run
    exact ⟨_, steps.trans (wrap p), .inr rfl⟩
  · have run := search_pass (i := 2 ^ 64 - 1) (p := .freeList) free (List.nil_append l).symm nonempty
      (by decide) (by decide) wanted small
    rcases pass_high nonempty wanted back (by omega : l.length + 2 ≤ 2 ^ 64 - 1) with done | ⟨k, done⟩
    · rw [done] at run
      obtain ⟨p, steps⟩ := run
      exact ⟨_, steps.trans (wrap p), .inr rfl⟩
    · rw [done] at run
      obtain ⟨p, steps⟩ := run
      exact ⟨_, steps.trans (again k p), .inl rfl⟩

/-- Without a run the search takes the head of the list for a page, or never ends. -/
theorem search_none (free : FreeList s l) (wanted : 0 < num) (small : num < 2 ^ 64) (nonempty : l ≠ [])
    (none : ∀ f, ¬ RunAt l num f) (n : Nat) {i : Nat} {p : PageNode}
    (done : s.contSearch num n num .freeList (s.link.next .freeList) = .ok (i, p)) : i = 0 ∧ p = .freeList := by
  have run := search_pass (p := .freeList) free (List.nil_append l).symm nonempty wanted small wanted small
  have passed : ∃ j, pass num num l = .passed (j + 1) := by
    rcases pass_all free.sorted nonempty wanted with ⟨g, -, same, -⟩ | ⟨g, -, same, -⟩ | ⟨j, passed, -⟩
    · exact absurd same.1 (none g)
    · exact absurd same.1 (none g)
    · exact ⟨j, passed⟩
  obtain ⟨j, passed⟩ := passed
  rw [passed] at run
  obtain ⟨q, steps⟩ := run
  have round := fun m => search_head num (i := j + 1) (p := q) free nonempty m
  rw [free.first] at done
  by_cases one : j = 0
  · subst one
    -- the run at the end lacks one page, and the head of the list is counted for it
    have leaves : Segment (s.search num) (num, .freeList, firstNode l) (0, .freeList, firstNode l) :=
      steps.trans (.one (fun m => by simpa using round m))
    obtain ⟨m, answer⟩ := (leaves.answer (search_fueled s num) (r := .ok (i, p)) (by simp)).mp ⟨n, by exact done⟩
    obtain ⟨x, rest, rfl⟩ := List.exists_cons_of_ne_nil nonempty
    cases m with
    | zero => cases answer
    | succ m =>
      simp only [search, contSearch, firstNode] at answer
      cases answer
      exact ⟨rfl, rfl⟩
  · have cycle : Segment (s.search num) (num, .freeList, firstNode l) (num, .freeList, firstNode l) :=
      steps.trans (.one (fun m => by
        have here := round m
        rwa [if_pos (by omega)] at here))
    have out := (search_fueled s num).runs_out (fun state => state = (num, .freeList, firstNode l))
      (fun state here => ⟨_, here ▸ cycle, rfl⟩) n rfl
    rw [search, done] at out
    cases out

end Search

end Xv6.PageMem
