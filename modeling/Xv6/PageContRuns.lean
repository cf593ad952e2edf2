import Xv6.PageContSpec
import Xv6.PageRuns

namespace Xv6.PageMem

/-- The pages of an ascending list around a run in it. -/
theorem RunAt.split {l : List Nat} {num f : Nat} (run : RunAt l num f) (sorted : l.Pairwise (· < ·)) :
    l = l.filter (· < f) ++ List.range' f num ++ l.filter (f + num ≤ ·) := by
  have member : ∀ p, p ∈ l ↔ p ∈ l.filter (· < f) ++ List.range' f num ++ l.filter (f + num ≤ ·) := by
    intro p
    simp only [List.mem_append, List.mem_filter, List.mem_range'_1, decide_eq_true_eq]
    constructor
    · intro inside
      rcases Nat.lt_or_ge p f with low | high
      · exact .inl (.inl ⟨inside, low⟩)
      · rcases Nat.lt_or_ge p (f + num) with among | behind
        · exact .inl (.inr ⟨high, among⟩)
        · exact .inr ⟨inside, behind⟩
    · rintro ((⟨inside, -⟩ | ⟨high, among⟩) | ⟨inside, -⟩)
      · exact inside
      · have there := run (p - f) (by omega)
        rwa [Nat.add_sub_of_le high] at there
      · exact inside
  refine sorted_ext sorted ?_ member
  rw [List.append_assoc, List.pairwise_append, List.pairwise_append]
  refine ⟨sorted.sublist List.filter_sublist, ⟨List.pairwise_lt_range', sorted.sublist List.filter_sublist, ?_⟩, ?_⟩
  · intro p inRun q above
    have := List.mem_range'_1.mp inRun
    have := (List.mem_filter.mp above).2
    simp only [decide_eq_true_eq] at this
    omega
  · intro p below q later
    have low := (List.mem_filter.mp below).2
    simp only [decide_eq_true_eq, List.mem_append, List.mem_filter, List.mem_range'_1] at low later
    omega

/-- The pages of an ascending list on both sides of a run. -/
theorem filter_around {l : List Nat} (f num : Nat) (sorted : l.Pairwise (· < ·)) :
    l.filter (fun p => p < f ∨ f + num ≤ p) = l.filter (· < f) ++ l.filter (f + num ≤ ·) := by
  refine sorted_ext (sorted.sublist List.filter_sublist) ?_ ?_
  · rw [List.pairwise_append]
    refine ⟨sorted.sublist List.filter_sublist, sorted.sublist List.filter_sublist, ?_⟩
    intro p below q above
    have low := (List.mem_filter.mp below).2
    have high := (List.mem_filter.mp above).2
    simp only [decide_eq_true_eq] at low high
    omega
  · intro p
    simp only [List.mem_filter, List.mem_append, decide_eq_true_eq]
    grind

/-- The pages `f`, …, `f + num - 1` left the free list `l` and are one set. -/
structure ContServed (s s' : PageMem) (l : List Nat) (num f : Nat) : Prop where
  free : FreeList s' (l.filter (fun p => p < f ∨ f + num ≤ p))
  dropped : s'.nrFreePages + num = s.nrFreePages
  ring : s'.link.IsRing (.page f) ((List.range' (f + 1) (num - 1)).map .page)
  reserved : ∀ p, (s'.page p).reserved = true ↔ (s.page p).reserved = true ∨ (f ≤ p ∧ p < f + num)
  head : (s'.page f).type = .generic
  count : (s'.page f).pageCount = num
  tails : ∀ p, f < p → p < f + num → (s'.page p).type = .tail ∧ (s'.page p).extra = .firstPage f
  others : ∀ p, ¬ (f ≤ p ∧ p < f + num) → s'.page p = s.page p
  outside : ∀ p, p ∉ l → s.Agree s' p
  mem : s'.mem = s.mem

/-- The pages are an allocated set, whose counter may have wrapped. -/
structure ContTaken (s s' : PageMem) (l : List Nat) (num f : Nat) : Prop where
  free : FreeList s' (l.filter (fun p => p < f ∨ f + num ≤ p))
  set : AllocSet s' f (List.range' (f + 1) (num - 1))
  type : (s'.page f).type = .generic
  geometry : SameGeometry s s'
  outside : ∀ p, p ∉ l → s.Agree s' p

section Cont

variable {s : PageMem} {l : List Nat} {num f : Nat}

/-- Taking a run, from its last page down. -/
theorem takeCont_all (free : FreeList s l) (positive : 0 < num) (run : RunAt l num f) :
    ∃ s', takeCont num (.page (f + num - 1)) none s = .ok (some f, s') ∧
      FreeList s' (l.filter (fun p => p < f ∨ f + num ≤ p)) ∧ Taken s' f (List.range' (f + 1) (num - 1)) ∧
      SameGeometry s s' ∧ s'.mem = s.mem ∧
      (∀ q, s'.page q = if f ≤ q ∧ q < f + num then { s.page q with reserved := true } else s.page q) ∧
      ∀ q, q ∉ l → s.Agree s' q := by
  obtain ⟨m, rfl⟩ : ∃ m, num = m + 1 := ⟨num - 1, by omega⟩
  have split := run.split free.sorted
  have rest := filter_around f (m + 1) free.sorted
  rw [rest]
  generalize l.filter (· < f) = front at split ⊢
  generalize l.filter (f + (m + 1) ≤ ·) = back at split ⊢
  subst split
  rw [List.range'_1_concat] at free ⊢
  have free' : FreeList s ((front ++ List.range' f m) ++ (f + m) :: back) := by simpa using free
  obtain ⟨free₁, taken₁, agree₁⟩ := takePage_first free'
  have below : 0 < m → (if f + m = 0 then PageNode.freeList else .page (f + m - 1)) = .page (f + m - 1) := by
    intro some
    rw [if_neg (by omega)]
  obtain ⟨s', steps, free₂, taken₂, geometry, mem, page, agree₂⟩ := takeCont_run free₁ taken₁ below
  have geometry₁ : SameGeometry s (s.takePage (f + m) none) := takePage_geometry _
  refine ⟨s', ?_, free₂, by simpa using taken₂, geometry₁.trans geometry, mem.trans (takePage_mem _), ?_, ?_⟩
  · have last : f + (m + 1) - 1 = f + m := by omega
    rw [last, takeCont_succ]
    exact steps
  · intro q
    rw [page q, takePage_page]
    by_cases top : q = f + m
    · subst top
      rw [if_neg (by omega), if_pos rfl, if_pos (by omega)]
    · rw [if_neg top]
      exact if_congr (by omega) rfl rfl
  · intro q outside
    have outFree : q ∉ (front ++ List.range' f m) ++ (f + m) :: back := by simpa using outside
    refine (agree₁ q outFree).trans geometry₁ (agree₂ q ?_ ?_)
    · intro member
      apply outFree
      simp only [List.mem_append, List.mem_cons] at member ⊢
      grind
    · intro member
      exact outFree (by simp [List.mem_singleton.mp member])

/-- The pages of a run after all of them were reserved, all but the first tagged, and the first given the counter. -/
theorem handed_page {s₁ s₂ : PageMem} (positive : 0 < num)
    (page₁ : ∀ q, s₁.page q = if f ≤ q ∧ q < f + num then { s.page q with reserved := true } else s.page q)
    (tagged : ∀ p ∈ List.range' (f + 1) (num - 1), s₂.page p = { s₁.page p with type := .tail, extra := .firstPage f })
    (others : ∀ p, p ∉ List.range' (f + 1) (num - 1) → s₂.page p = s₁.page p) (p : Nat) :
    ((s₂.setType f .generic).setPageCount f num).page p =
      if p = f then { s.page f with reserved := true, type := .generic, pageCount := num % 2 ^ 32 }
      else if f ≤ p ∧ p < f + num then { s.page p with reserved := true, type := .tail, extra := .firstPage f }
      else s.page p := by
  have fNotTail : f ∉ List.range' (f + 1) (num - 1) := by simp
  by_cases first : p = f
  · subst first
    simp [setPageCount, setType, setPage, others p fNotTail, page₁ p, positive]
  · have kept : ((s₂.setType f .generic).setPageCount f num).page p = s₂.page p := by
      simp [setPageCount, setType, setPage, first]
    rw [kept, if_neg first]
    by_cases inside : f ≤ p ∧ p < f + num
    · have member : p ∈ List.range' (f + 1) (num - 1) := by
        rw [List.mem_range'_1]
        omega
      rw [tagged p member, page₁ p, if_pos inside, if_pos inside]
    · have absent : p ∉ List.range' (f + 1) (num - 1) := by
        rw [List.mem_range'_1]
        omega
      rw [others p absent, page₁ p, if_neg inside, if_neg inside]

/-- What `alloc_cont_pages` does once its search has found the last page of a run.
The counter of the set wraps. -/
theorem allocContPages_found (free : FreeList s l) (positive : 0 < num) (run : RunAt l num f) {n : Nat}
    (found : s.contSearch num n num .freeList (s.link.next .freeList) = .ok (0, .page (f + num - 1))) :
    ∃ s', s.allocContPages n num = .ok (some f, s') ∧ ContTaken s s' l num f ∧
      (num < 2 ^ 32 → ContServed s s' l num f) := by
  obtain ⟨s₁, took, free₁, taken, geometry₁, mem₁, page₁, agree₁⟩ := takeCont_all free positive run
  obtain ⟨s₂, tags, link, geometry₂, mem₂, count₂, tagged, others⟩ := tagTails_run [] taken.ring
  rw [List.length_range'] at tags
  have enough : ¬ s.nrFreePages < num := by
    have whole := congrArg List.length (run.split free.sorted)
    simp only [List.length_append, List.length_range'] at whole
    rw [free.count]
    omega
  have cursor : s₁.nextPage f = ((List.range' (f + 1) (num - 1)).map PageNode.page ++ [PageNode.page f]).head (by simp) :=
    taken.ring.next_head
  rw [← cursor] at tags
  have page₃ := handed_page positive page₁ tagged others
  have geometry : SameGeometry s ((s₂.setType f .generic).setPageCount f num) := geometry₁.trans ⟨geometry₂.base, geometry₂.pages⟩
  have free' : FreeList ((s₂.setType f .generic).setPageCount f num) (l.filter (fun p => p < f ∨ f + num ≤ p)) := by
    have kept : ∀ p ∈ l.filter (fun p => p < f ∨ f + num ≤ p), p ≠ f ∧ ¬ (f ≤ p ∧ p < f + num) := by
      intro p member
      have apart := (List.mem_filter.mp member).2
      simp only [decide_eq_true_eq] at apart
      omega
    refine ⟨?_, free₁.sorted, count₂.trans free₁.count, ?_, ?_⟩
    · show s₂.link.IsRing .freeList _
      rw [link]
      exact free₁.ring
    · intro p member
      rw [page₃ p, if_neg (kept p member).1, if_neg (kept p member).2]
      exact free.unreserved p (List.mem_filter.mp member).1
    · intro p member
      show p < s₂.nrPages
      rw [geometry₂.pages]
      exact free₁.bound p member
  have ring : ((s₂.setType f .generic).setPageCount f num).link.IsRing (.page f)
      ((List.range' (f + 1) (num - 1)).map .page) := by
    show s₂.link.IsRing (.page f) _
    rw [link]
    exact taken.ring
  have reserved : ∀ p, (((s₂.setType f .generic).setPageCount f num).page p).reserved = true ↔
      (s.page p).reserved = true ∨ (f ≤ p ∧ p < f + num) := by
    intro p
    rw [page₃ p]
    by_cases first : p = f
    · subst first
      simp [positive]
    · rw [if_neg first]
      by_cases inside : f ≤ p ∧ p < f + num
      · simp [inside]
      · simp [inside]
  have tails : ∀ p, f < p → p < f + num → (((s₂.setType f .generic).setPageCount f num).page p).type = .tail ∧
      (((s₂.setType f .generic).setPageCount f num).page p).extra = .firstPage f := by
    intro p above below
    rw [page₃ p, if_neg (by omega), if_pos ⟨by omega, below⟩]
    exact ⟨rfl, rfl⟩
  have outside : ∀ p, p ∉ l → s.Agree ((s₂.setType f .generic).setPageCount f num) p := by
    intro p outside
    have apart : ¬ (f ≤ p ∧ p < f + num) := by
      rintro ⟨low, high⟩
      apply outside
      have member := run (p - f) (by omega)
      rwa [Nat.add_sub_of_le low] at member
    refine ⟨by rw [page₃ p, if_neg (by omega), if_neg apart], ?_, ?_⟩
    · have same := (agree₁ p outside).link
      rw [← link] at same
      exact same
    · intro x _ _
      show s₂.mem x = s.mem x
      rw [mem₂, mem₁]
  have members : ∀ p, p ∈ f :: List.range' (f + 1) (num - 1) → f ≤ p ∧ p < f + num := by
    intro p member
    rw [List.mem_cons, List.mem_range'_1] at member
    omega
  refine ⟨(s₂.setType f .generic).setPageCount f num, ?_, ⟨free', ?_, ?_, geometry, outside⟩, fun small => ⟨free', ?_, ring, reserved, ?_, ?_, tails, ?_, outside, mem₂.trans mem₁⟩⟩
  · rw [allocContPages, if_neg enough, found]
    simp only [Res.ok_bind, Nat.lt_irrefl, if_false, took, tags, if_true]
  · refine ⟨ring, ?_, fun p member => (reserved p).mpr (.inr (members p member)), ?_, ?_, ?_, ?_⟩
    · have cons : f :: List.range' (f + 1) (num - 1) = List.range' f (num - 1 + 1) := (List.range'_succ ..).symm
      rw [cons]
      exact List.pairwise_lt_range'
    · intro p member
      have inFree := run (p - f) (by have := members p member; omega)
      rw [Nat.add_sub_of_le (members p member).1] at inFree
      rw [geometry.pages]
      exact free.bound p inFree
    · rw [page₃ f, if_pos rfl]
      simp
    · rw [page₃ f, if_pos rfl, List.length_range', Nat.sub_add_cancel positive]
    · intro p member
      rw [List.mem_range'_1] at member
      exact tails p (by omega) (by omega)
  · rw [page₃ f, if_pos rfl]
  · have parts := congrArg List.length (run.split free.sorted)
    have left := congrArg List.length (filter_around f num free.sorted)
    show s₂.nrFreePages + num = s.nrFreePages
    simp only [List.length_append, List.length_range'] at parts left
    rw [count₂, free₁.count, free.count, left]
    omega
  · rw [page₃ f, if_pos rfl]
  · rw [page₃ f, if_pos rfl]
    exact Nat.mod_eq_of_lt small
  · intro p outside
    rw [page₃ p, if_neg (by omega), if_neg outside]

/-- The pages are taken downwards, so the first one tells the last. -/
theorem takeCont_last {p : Nat} {pfirst : Option Nat} {s s' : PageMem} (positive : 0 < num)
    (took : takeCont num (.page p) pfirst s = .ok (some f, s')) : f + num - 1 = p := by
  induction num generalizing p pfirst s with
  | zero => exact absurd positive (Nat.lt_irrefl 0)
  | succ num ih =>
    rw [takeCont_succ] at took
    cases num with
    | zero =>
      have same := Option.some.inj (Prod.mk.inj (Except.ok.inj took)).1
      omega
    | succ num =>
      by_cases bottom : p = 0
      · rw [if_pos bottom] at took
        cases took
      · rw [if_neg bottom] at took
        have := ih (Nat.succ_pos _) took
        omega

/-- Whenever the pages asked for are those of a run, they were taken in order. -/
theorem allocContPages_run {s' : PageMem} {n : Nat} (free : FreeList s l) (positive : 0 < num) (run : RunAt l num f)
    (done : s.allocContPages n num = .ok (some f, s')) : ContTaken s s' l num f := by
  have start := done
  rw [allocContPages] at done
  split_ifs at done with few
  · cases done
  obtain ⟨⟨i, p⟩, found, done⟩ := Res.bind_eq_ok.mp done
  simp only at done
  split_ifs at done with left
  · cases done
  obtain ⟨⟨pfirst, s₁⟩, took, done⟩ := Res.bind_eq_ok.mp done
  cases pfirst with
  | none => cases done
  | some g =>
    obtain ⟨⟨q, s₂⟩, -, done⟩ := Res.bind_eq_ok.mp done
    simp only at done
    split_ifs at done with back
    obtain rfl := Option.some.inj (Prod.mk.inj (Except.ok.inj done)).1
    obtain rfl : i = 0 := by omega
    cases p with
    | freeList =>
      obtain ⟨m, rfl⟩ : ∃ m, num = m + 1 := ⟨num - 1, by omega⟩
      cases took
    | page p =>
      obtain rfl := takeCont_last positive took
      obtain ⟨s'', done', taken, -⟩ := allocContPages_found free positive run found
      obtain rfl := (Prod.mk.inj (Except.ok.inj (start.symm.trans done'))).2
      exact taken

theorem takeCont_geometry {m : Nat} {p : PageNode} {pfirst r : Option Nat} {s s' : PageMem}
    (took : takeCont m p pfirst s = .ok (r, s')) : SameGeometry s s' := by
  induction m generalizing p pfirst s with
  | zero =>
    obtain rfl := (Prod.mk.inj (Except.ok.inj took)).2
    exact .refl s
  | succ m ih =>
    cases p with
    | freeList => cases took
    | page p =>
      rw [takeCont_succ] at took
      exact (takePage_geometry pfirst).trans (ih took)

theorem tagTails_geometry {m g : Nat} {p q : PageNode} {s s' : PageMem}
    (tagged : tagTails g m p s = .ok (q, s')) : SameGeometry s s' := by
  induction m generalizing p s with
  | zero =>
    obtain rfl := (Prod.mk.inj (Except.ok.inj tagged)).2
    exact .refl s
  | succ m ih =>
    cases p with
    | freeList => cases tagged
    | page p =>
      have first : SameGeometry s ((s.setType p .tail).setFirstPage p g) := ⟨rfl, rfl⟩
      exact first.trans (ih tagged)

theorem allocContPages_geometry {r : Option Nat} {s' : PageMem} {n : Nat}
    (done : s.allocContPages n num = .ok (r, s')) : SameGeometry s s' := by
  rw [allocContPages] at done
  split_ifs at done with few
  · obtain rfl := (Prod.mk.inj (Except.ok.inj done)).2
    exact .refl s
  obtain ⟨⟨i, p⟩, -, done⟩ := Res.bind_eq_ok.mp done
  simp only at done
  split_ifs at done with left
  · obtain rfl := (Prod.mk.inj (Except.ok.inj done)).2
    exact .refl s
  obtain ⟨⟨pfirst, s₁⟩, took, done⟩ := Res.bind_eq_ok.mp done
  cases pfirst with
  | none => cases done
  | some g =>
    obtain ⟨⟨q, s₂⟩, tagged, done⟩ := Res.bind_eq_ok.mp done
    simp only at done
    split_ifs at done with back
    obtain rfl := (Prod.mk.inj (Except.ok.inj done)).2
    exact (takeCont_geometry took).trans ((tagTails_geometry tagged).trans ⟨rfl, rfl⟩)

/-- NULL leaves everything as it was. -/
theorem allocContPages_null {s' : PageMem} {n : Nat} (done : s.allocContPages n num = .ok (none, s')) : s' = s := by
  rw [allocContPages] at done
  split_ifs at done with few
  · exact (Prod.mk.inj (Except.ok.inj done)).2.symm
  obtain ⟨⟨i, p⟩, -, done⟩ := Res.bind_eq_ok.mp done
  simp only at done
  split_ifs at done with left
  · exact (Prod.mk.inj (Except.ok.inj done)).2.symm
  obtain ⟨⟨pfirst, s₁⟩, -, done⟩ := Res.bind_eq_ok.mp done
  cases pfirst with
  | none => cases done
  | some g =>
    obtain ⟨⟨q, s₂⟩, -, done⟩ := Res.bind_eq_ok.mp done
    simp only at done
    split_ifs at done with back
    cases done

/-- The search for a run that ends at the last free page starts over for ever. -/
theorem allocContPages_last (free : FreeList s l) (size : s.nrPages < 2 ^ 50) (positive : 0 < num)
    (lowest : LowestRun l num f) (last : ∀ p ∈ l, p < f + num) (n : Nat) :
    s.allocContPages n num = .error .diverge := by
  have whole := congrArg List.length (lowest.1.split free.sorted)
  simp only [List.length_append, List.length_range'] at whole
  have few := free.length_le
  rw [allocContPages, if_neg (by rw [free.count]; omega),
    search_last free positive (by omega) (by omega) lowest last n]
  rfl

/-- The counter of the set is an unsigned int. -/
theorem allocContPages_count {s' : PageMem} {n : Nat} (done : s.allocContPages n num = .ok (some f, s')) :
    (s'.page f).pageCount < 2 ^ 32 := by
  rw [allocContPages] at done
  split_ifs at done with few
  · cases done
  obtain ⟨⟨i, p⟩, -, done⟩ := Res.bind_eq_ok.mp done
  simp only at done
  split_ifs at done with left
  · cases done
  obtain ⟨⟨pfirst, s₁⟩, -, done⟩ := Res.bind_eq_ok.mp done
  cases pfirst with
  | none => cases done
  | some g =>
    obtain ⟨⟨q, s₂⟩, -, done⟩ := Res.bind_eq_ok.mp done
    simp only at done
    split_ifs at done with back
    cases done
    simp only [setPageCount, setPage, Function.update_self]
    exact Nat.mod_lt _ (by decide)

/-- `alloc_cont_pages` hands out the lowest run of `num` free pages if and only if that ends in front of the last free page, and its
length fits the counter of a set. -/
theorem contServed_iff (free : FreeList s l) (size : s.nrPages < 2 ^ 50) (positive : 1 ≤ num) :
    (∃ f n s', LowestRun l num f ∧ s.allocContPages n num = .ok (some f, s') ∧ ContServed s s' l num f) ↔
      num < 2 ^ 32 ∧ ∃ f p, LowestRun l num f ∧ p ∈ l ∧ f + num ≤ p := by
  constructor
  · rintro ⟨f, n, s', lowest, done, served⟩
    refine ⟨served.count ▸ allocContPages_count done, f, ?_⟩
    by_contra none
    have last : ∀ p ∈ l, p < f + num := fun p inside => by
      by_contra above
      exact none ⟨p, lowest, inside, by omega⟩
    rw [allocContPages_last free size positive lowest last n] at done
    cases done
  · rintro ⟨small, f, p, lowest, inside, behind⟩
    obtain ⟨n, found⟩ := search_found free positive (by omega) lowest inside behind
    obtain ⟨s', done, -, served⟩ := allocContPages_found free positive lowest.1 found
    exact ⟨f, n, s', lowest, done, served small⟩

/-- Without a run NULL is returned for lack of pages only: else the search never
ends, or takes the head of the list for a page. -/
theorem allocContPages_none (free : FreeList s l) (size : s.nrPages < 2 ^ 50) (positive : 0 < num)
    (none : ∀ g, ¬ RunAt l num g) {n : Nat} (done : s.allocContPages n num = .ok (.none, s)) : l.length < num := by
  by_contra enough
  have few := free.length_le
  have nonempty : l ≠ [] := List.ne_nil_of_length_pos (by omega)
  rw [allocContPages, if_neg (by rw [free.count]; exact enough)] at done
  obtain ⟨⟨i, p⟩, searched, done⟩ := Res.bind_eq_ok.mp done
  obtain ⟨rfl, rfl⟩ := search_none free positive (by omega) nonempty none n searched
  obtain ⟨m, rfl⟩ : ∃ m, num = m + 1 := ⟨num - 1, by omega⟩
  simp only [Nat.lt_irrefl, if_false, takeCont] at done
  cases done

/-- When no `num` free pages are consecutive, `alloc_cont_pages` returns NULL if
and only if fewer than `num` pages are free. -/
theorem contRefused_iff (free : FreeList s l) (size : s.nrPages < 2 ^ 50) (positive : 1 ≤ num)
    (none : ∀ g, ¬ RunAt l num g) :
    (∃ n, s.allocContPages n num = .ok (.none, s)) ↔ l.length < num := by
  constructor
  · rintro ⟨n, done⟩
    exact allocContPages_none free size positive none done
  · intro short
    exact ⟨0, by rw [allocContPages, if_pos (by rw [free.count]; exact short)]⟩

end Cont

/-- The free pages of a machine with four pages, the first of which holds the
page structures. -/
theorem bootFree (L : Links PageNode) (mem : ByteMem) : FreeList (initPageArray 0 4 L mem) [1, 2, 3] := by
  have pages : (bootLedger 4).free.sort = [1, 2, 3] := (bootLedger_sort 4).trans (by decide)
  exact pages ▸ (initPageArray_books 0 4 L mem).free

/-- On that machine a run is a run below 4. -/
theorem bootRun {num f : Nat} : RunAt [1, 2, 3] num f ↔ num = 0 ∨ (1 ≤ f ∧ f + num ≤ 4) := by
  constructor
  · intro run
    by_cases zero : num = 0
    · exact .inl zero
    · have first := run 0 (by omega)
      have last := run (num - 1) (by omega)
      simp only [List.mem_cons, List.not_mem_nil, or_false] at first last
      omega
  · rintro (rfl | ⟨low, high⟩) k lt
    · omega
    · simp only [List.mem_cons, List.not_mem_nil, or_false]
      omega

theorem contServed_two :
    ∃ f n s', LowestRun [1, 2, 3] 2 f ∧
      (initPageArray 0 4 ⟨id, id⟩ (fun _ => 0)).allocContPages n 2 = .ok (some f, s') ∧
      ContServed (initPageArray 0 4 ⟨id, id⟩ (fun _ => 0)) s' [1, 2, 3] 2 f := by
  refine (contServed_iff (bootFree _ _) (by decide : 4 < 2 ^ 50) (by decide)).mpr
    ⟨by decide, 1, 3, ⟨bootRun.mpr (.inr (by decide)), fun g lt run => ?_⟩, by decide, by decide⟩
  rcases bootRun.mp run with zero | ⟨low, -⟩
  · cases zero
  · omega

/-- The last free page is not found at the end of a run. -/
theorem not_contServed :
    ¬ ∀ (s : PageMem) (l : List Nat) (num g : Nat), FreeList s l → s.nrPages < 2 ^ 50 → 1 ≤ num → RunAt l num g →
      ∃ f n s', LowestRun l num f ∧ s.allocContPages n num = .ok (some f, s') ∧ ContServed s s' l num f := by
  intro claim
  have free := bootFree ⟨id, id⟩ (fun _ => 0)
  have run : RunAt [1, 2, 3] 3 1 := bootRun.mpr (.inr (by decide))
  obtain ⟨f, n, s', lowest, done, -⟩ := claim _ _ 3 1 free (by decide : 4 < 2 ^ 50) (by decide) run
  have last : ∀ p ∈ [1, 2, 3], p < f + 3 := by
    rcases bootRun.mp lowest.1 with zero | ⟨low, high⟩
    · cases zero
    · intro p inside
      simp only [List.mem_cons, List.not_mem_nil, or_false] at inside
      omega
  rw [allocContPages_last free (by decide : 4 < 2 ^ 50) (by decide) lowest last n] at done
  cases done

theorem contRefused_four :
    ∃ n, (initPageArray 0 4 ⟨id, id⟩ (fun _ => 0)).allocContPages n 4 =
      .ok (none, initPageArray 0 4 ⟨id, id⟩ (fun _ => 0)) := by
  refine (contRefused_iff (bootFree _ _) (by decide : 4 < 2 ^ 50) (by decide) (fun g run => ?_)).mpr (by decide)
  rcases bootRun.mp run with zero | ⟨low, high⟩
  · cases zero
  · omega

/-- A fragmented free list: pages 1 and 2 were allocated together, and page 1
was given back. -/
theorem fragmentedFree : ∃ s, s.nrPages = 4 ∧ FreeList s [1, 3] := by
  have books := initPageArray_books 0 4 ⟨id, id⟩ (fun _ => 0)
  have pages : (bootLedger 4).free.sort = [1, 2, 3] := books.free.unique (bootFree _ _)
  have lowest : (bootLedger 4).lowest 2 = [1, 2] := by rw [Ledger.lowest, pages]; rfl
  have enough : 2 ≤ (bootLedger 4).free.card := by
    rw [← Finset.length_sort (· ≤ ·), pages]
    decide
  obtain ⟨s₁, -, books₁, geometry₁, -⟩ := books.grant (by decide) enough lowest
  have member : [1, 2] ∈ ((bootLedger 4).grant 2 (by decide) enough).sets := by
    rw [← lowest]
    exact List.mem_cons_self ..
  have small : s₁.nrPages < 2 ^ 64 := by
    rw [geometry₁.pages]
    exact (by decide : 4 < 2 ^ 64)
  obtain ⟨s₂, -, books₂, geometry₂, -⟩ :=
    books₁.release member (show [1, 2] = [] ++ [1] ++ [2] from rfl) (by decide) small
  refine ⟨s₂, geometry₂.pages.trans geometry₁.pages, ?_⟩
  have rest : [1, 3] = (((bootLedger 4).grant 2 (by decide) enough).release [1, 2] [] [1] [2] member rfl).free.sort := by
    refine Ledger.eq_sort (by decide) ?_
    intro p
    have occupied : pageArrayPages 4 = 1 := by decide
    simp only [Ledger.release, Ledger.grant, lowest]
    simp only [bootLedger, occupied, Finset.mem_union, Finset.mem_sdiff, Finset.mem_Ico,
      List.mem_toFinset, List.mem_cons, List.not_mem_nil, or_false]
    omega
  exact rest ▸ books₂.free

/-- On a fragmented free list the search for two pages does not end. -/
theorem not_contRefused :
    ¬ ∀ (s : PageMem) (l : List Nat) (num : Nat), FreeList s l → s.nrPages < 2 ^ 50 → 1 ≤ num →
      (∀ g, ¬ RunAt l num g) → ∃ n, s.allocContPages n num = .ok (none, s) := by
  intro claim
  obtain ⟨s, pages, free⟩ := fragmentedFree
  have none : ∀ g, ¬ RunAt [1, 3] 2 g := by
    intro g run
    have first := run 0 (by decide)
    have last := run 1 (by decide)
    simp only [List.mem_cons, List.not_mem_nil, or_false] at first last
    omega
  have size : s.nrPages < 2 ^ 50 := by
    rw [pages]
    decide
  obtain ⟨n, done⟩ := claim s _ 2 free size (by decide) none
  exact absurd (allocContPages_none free size (by decide) none done) (by decide)

end Xv6.PageMem
