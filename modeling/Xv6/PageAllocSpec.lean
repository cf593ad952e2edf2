import Xv6.PageSets

namespace Xv6.PageMem

/-- A set under construction: the ring is closed, but the first page has
neither its type nor its counter yet. -/
structure OpenSet (s : PageMem) (f : Nat) (tl : List Nat) : Prop where
  ring : s.link.IsRing (.page f) (tl.map .page)
  reserved : ∀ p ∈ f :: tl, (s.page p).reserved = true
  tails : ∀ p ∈ tl, (s.page p).type = .tail ∧ (s.page p).extra = .firstPage f

theorem OpenSet.disjoint_free {s : PageMem} {f p : Nat} {tl l : List Nat} (opened : OpenSet s f tl)
    (free : FreeList s l) (member : p ∈ f :: tl) : p ∉ l := free.not_mem (opened.reserved p member)

/-- The nodes of the free list and of a set are different nodes. -/
theorem OpenSet.nodes_disjoint {s : PageMem} {f : Nat} {tl l : List Nat} (opened : OpenSet s f tl)
    (free : FreeList s l) :
    ∀ y ∈ PageNode.freeList :: l.map PageNode.page, y ∉ PageNode.page f :: tl.map PageNode.page := by
  intro y inFree inSet
  rcases List.mem_cons.mp inFree with rfl | member
  · simp at inSet
  · obtain ⟨p, pFree, rfl⟩ := List.mem_map.mp member
    have pSet : p ∈ f :: tl := by simpa using inSet
    exact opened.disjoint_free free pSet pFree

/-- The first page of the free list becomes the first page of a set. -/
theorem allocLoop_first {s : PageMem} {x : Nat} {rest : List Nat} (free : FreeList s (x :: rest)) :
    ∃ s', (∀ i, allocLoop (i + 1) (firstNode (x :: rest)) none s = allocLoop i (firstNode rest) (some x) s') ∧
      FreeList s' rest ∧ OpenSet s' x [] ∧ SameGeometry s s' ∧ s'.mem = s.mem ∧
      ∀ p, p ∉ x :: rest → s.Agree s' p := by
  have ring : s.link.IsRing .freeList ([] ++ .page x :: rest.map .page) := free.ring
  have next : s.nextPage x = firstNode rest := by
    rw [nextPage, ring.next_mid, firstNode_eq]
  have sorted := List.pairwise_cons.mp free.sorted
  have different : ∀ p ∈ rest, p ≠ x := fun p member => Nat.ne_of_gt (sorted.1 p member)
  have notReserved := free.unreserved x (by simp)
  refine ⟨((s.reservePage x).pageDelete x).decFree, ?_, ?_, ?_, ⟨rfl, rfl⟩, rfl, ?_⟩
  · intro i
    simp [firstNode, allocLoop, notReserved, next]
  · refine ⟨ring.delInit, sorted.2, ?_, ?_, fun p member => free.bound p (by simp [member])⟩
    · simp [decFree, pageDelete, reservePage, setPage, free.count]
    · intro p member
      have unreserved := free.unreserved p (by simp [member])
      simpa [decFree, pageDelete, reservePage, setPage, different p member] using unreserved
  · refine ⟨Links.delInit_ring _ _, ?_, by simp⟩
    intro p member
    have same : p = x := by simpa using member
    simp [decFree, pageDelete, reservePage, setPage, same]
  · intro p absent
    have px : p ≠ x := fun same => absent (by simp [same])
    refine ⟨by simp [decFree, pageDelete, reservePage, setPage, px], ?_, fun _ _ _ => rfl⟩
    refine Links.delInit_same ring (by simp) ?_
    simpa using absent

/-- Each further page leaves the free list and joins the set at its end. -/
theorem allocLoop_next {s : PageMem} {f x : Nat} {tl rest : List Nat} (free : FreeList s (x :: rest))
    (opened : OpenSet s f tl) :
    ∃ s', (∀ i, allocLoop (i + 1) (firstNode (x :: rest)) (some f) s =
        allocLoop i (firstNode rest) (some f) s') ∧
      FreeList s' rest ∧ OpenSet s' f (tl ++ [x]) ∧ SameGeometry s s' ∧ s'.mem = s.mem ∧
      ∀ p, p ∉ x :: rest → p ∉ f :: tl → s.Agree s' p := by
  have ring : s.link.IsRing .freeList ([] ++ .page x :: rest.map .page) := free.ring
  have next : s.nextPage x = firstNode rest := by
    rw [nextPage, ring.next_mid, firstNode_eq]
  have sorted := List.pairwise_cons.mp free.sorted
  have different : ∀ p ∈ rest, p ≠ x := fun p member => Nat.ne_of_gt (sorted.1 p member)
  have notReserved := free.unreserved x (by simp)
  have disjoint := opened.nodes_disjoint free
  have apart : ∀ p ∈ f :: tl, p ≠ x := fun p member same =>
    opened.disjoint_free free member (by simp [same])
  obtain ⟨freeRing, setRing⟩ := ring.move opened.ring disjoint
  refine ⟨(((((s.reservePage x).pageDelete x).pageAddBefore (.page f) x).setType x .tail).setFirstPage x f).decFree,
    ?_, ?_, ?_, ⟨rfl, rfl⟩, rfl, ?_⟩
  · intro i
    simp [firstNode, allocLoop, notReserved, next]
  · refine ⟨freeRing, sorted.2, ?_, ?_, fun p member => free.bound p (by simp [member])⟩
    · simp [decFree, setFirstPage, setType, pageAddBefore, pageDelete, reservePage, setPage, free.count]
    · intro p member
      have unreserved := free.unreserved p (by simp [member])
      simpa [decFree, setFirstPage, setType, pageAddBefore, pageDelete, reservePage, setPage,
        different p member] using unreserved
  · refine ⟨by rw [List.map_append]; exact setRing, ?_, ?_⟩
    · intro p member
      rcases List.mem_cons.mp member with rfl | inside
      · have reserved := opened.reserved p (by simp)
        simpa [decFree, setFirstPage, setType, pageAddBefore, pageDelete, reservePage, setPage,
          apart p (by simp)] using reserved
      · rcases List.mem_append.mp inside with old | new
        · have reserved := opened.reserved p (by simp [old])
          simpa [decFree, setFirstPage, setType, pageAddBefore, pageDelete, reservePage, setPage,
            apart p (by simp [old])] using reserved
        · have same : p = x := by simpa using new
          simp [decFree, setFirstPage, setType, pageAddBefore, pageDelete, reservePage, setPage, same]
    · intro p member
      rcases List.mem_append.mp member with old | new
      · have tail := opened.tails p old
        simpa [decFree, setFirstPage, setType, pageAddBefore, pageDelete, reservePage, setPage,
          apart p (by simp [old])] using tail
      · have same : p = x := by simpa using new
        simp [decFree, setFirstPage, setType, pageAddBefore, pageDelete, reservePage, setPage, same]
  · intro p outFree outSet
    have px : p ≠ x := fun same => outFree (by simp [same])
    refine ⟨by simp [decFree, setFirstPage, setType, pageAddBefore, pageDelete, reservePage, setPage, px],
      ?_, fun _ _ _ => rfl⟩
    exact Links.move_same ring opened.ring disjoint (by simpa using outFree) (by simpa using outSet)

/-- The loop takes the pages of `xs` into the set, in their order. -/
theorem allocLoop_run {s : PageMem} {f : Nat} {tl xs ys : List Nat} (free : FreeList s (xs ++ ys))
    (opened : OpenSet s f tl) :
    ∃ s', allocLoop xs.length (firstNode (xs ++ ys)) (some f) s = .ok (some f, s') ∧
      FreeList s' ys ∧ OpenSet s' f (tl ++ xs) ∧ SameGeometry s s' ∧ s'.mem = s.mem ∧
      ∀ p, p ∉ xs ++ ys → p ∉ f :: tl → s.Agree s' p := by
  induction xs generalizing s tl with
  | nil => exact ⟨s, rfl, free, by simpa using opened, .refl s, rfl, fun p _ _ => .refl s p⟩
  | cons x xs ih =>
    obtain ⟨s₁, step, free₁, opened₁, geometry₁, mem₁, agree₁⟩ := allocLoop_next free opened
    obtain ⟨s₂, run, free₂, opened₂, geometry₂, mem₂, agree₂⟩ := ih free₁ opened₁
    refine ⟨s₂, (step xs.length).trans run, free₂, by simpa using opened₂, geometry₁.trans geometry₂,
      mem₂.trans mem₁, ?_⟩
    intro p outFree outSet
    have outRest : p ∉ xs ++ ys := fun member => outFree (List.mem_cons_of_mem _ member)
    refine (agree₁ p outFree outSet).trans geometry₁ (agree₂ p outRest ?_)
    intro member
    rcases List.mem_cons.mp member with same | inside
    · exact outSet (by simp [same])
    · rcases List.mem_append.mp inside with old | new
      · exact outSet (by simp [old])
      · exact outFree (by simp at new; simp [new])

theorem allocPages_none {s : PageMem} {l : List Nat} {num : Nat} (free : FreeList s l)
    (short : l.length < num) : s.allocPages num = .ok (none, s) := by
  rw [allocPages, free.count, if_pos short]

/-- `alloc_pages` takes the lowest free pages, as one set. -/
theorem allocPages_spec {s : PageMem} {f : Nat} {tl ys : List Nat} (free : FreeList s (f :: tl ++ ys)) :
    ∃ s', s.allocPages (tl.length + 1) = .ok (some f, s') ∧ FreeList s' ys ∧ AllocSet s' f tl ∧
      (s'.page f).type = .generic ∧ SameGeometry s s' ∧ s'.mem = s.mem ∧
      ∀ p, p ∉ f :: tl ++ ys → s.Agree s' p := by
  obtain ⟨s₁, step, free₁, opened₁, geometry₁, mem₁, agree₁⟩ := allocLoop_first (by simpa using free)
  obtain ⟨s₂, run, free₂, opened₂, geometry₂, mem₂, agree₂⟩ := allocLoop_run free₁ opened₁
  have sorted : (f :: tl ++ ys).Pairwise (· < ·) := free.sorted
  have parts := List.pairwise_append.mp sorted
  have fNotTail : ∀ p ∈ tl, p ≠ f := fun p member =>
    Nat.ne_of_gt ((List.pairwise_cons.mp parts.1).1 p member)
  have fNotRest : ∀ p ∈ ys, p ≠ f := fun p member => Nat.ne_of_gt (parts.2.2 f (by simp) p member)
  have first := free.first
  have enough : ¬ s.nrFreePages < tl.length + 1 := by
    rw [free.count]
    simp
  have geometry := geometry₁.trans geometry₂
  refine ⟨(s₂.setType f .generic).setPageCount f (tl.length + 1), ?_, ?_, ?_, ?_,
    ⟨geometry.base, geometry.pages⟩, mem₂.trans mem₁, ?_⟩
  · have loop := (step tl.length).trans run
    simp only [List.cons_append] at first
    rw [allocPages, if_neg enough, first, loop]
    rfl
  · refine ⟨free₂.ring, free₂.sorted, free₂.count, ?_, free₂.bound⟩
    intro p member
    simpa [setPageCount, setType, setPage, fNotRest p member] using free₂.unreserved p member
  · refine ⟨opened₂.ring, parts.1, ?_, ?_, ?_, ?_, ?_⟩
    · intro p member
      have reserved := opened₂.reserved p (by simpa using member)
      by_cases same : p = f
      · subst same; simpa [setPageCount, setType, setPage] using reserved
      · simpa [setPageCount, setType, setPage, same] using reserved
    · intro p member
      have bound := free.bound p (List.mem_append_left _ member)
      simpa [setPageCount, setType, setPage, geometry.pages] using bound
    · simp [setPageCount, setType, setPage]
    · simp [setPageCount, setType, setPage]
    · intro p member
      have tail := opened₂.tails p (by simpa using member)
      simpa [setPageCount, setType, setPage, fNotTail p member] using tail
  · simp [setPageCount, setType, setPage]
  · intro p absent
    have outFree : p ∉ f :: (tl ++ ys) := by simpa using absent
    have pf : p ≠ f := fun same => outFree (by simp [same])
    have whole := (agree₁ p outFree).trans geometry₁
      (agree₂ p (fun member => outFree (List.mem_cons_of_mem _ member)) (by simpa using pf))
    exact ⟨by simpa [setPageCount, setType, setPage, pf] using whole.page, whole.link, whole.mem⟩

theorem allocPages_some {s : PageMem} {l : List Nat} {num : Nat} (free : FreeList s l) (positive : 0 < num)
    (enough : num ≤ l.length) : ∃ f s', s.allocPages num = .ok (some f, s') := by
  have length : (l.take num).length = num := List.length_take_of_le enough
  obtain ⟨f, tl, first⟩ := List.exists_cons_of_length_pos (length.symm ▸ positive)
  rw [← List.take_append_drop num l, first] at free
  rw [first, List.length_cons] at length
  obtain ⟨s', run, -⟩ := allocPages_spec free
  exact ⟨f, s', length ▸ run⟩

/-- Whenever `alloc_pages` returns a page, its set is the front of the free list. -/
theorem allocPages_served {s s' : PageMem} {l : List Nat} {num f : Nat} (free : FreeList s l)
    (done : s.allocPages num = .ok (some f, s')) :
    ∃ tl ys, l = f :: tl ++ ys ∧ tl.length + 1 = num ∧ FreeList s' ys ∧ AllocSet s' f tl ∧
      (s'.page f).type = .generic ∧ SameGeometry s s' ∧ ∀ p, p ∉ l → s.Agree s' p := by
  by_cases few : l.length < num
  · rw [allocPages_none free few] at done
    cases done
  · obtain ⟨ys, defYs⟩ : ∃ ys, ys = l.drop num := ⟨_, rfl⟩
    have split : l = l.take num ++ ys := by rw [defYs, List.take_append_drop]
    have length : (l.take num).length = num := by
      rw [List.length_take]
      omega
    cases first : l.take num with
    | nil =>
      rw [first, List.length_nil] at length
      rw [← length] at done
      cases done
    | cons g tl =>
      rw [first] at split length
      rw [split] at free
      obtain ⟨s₁, run, free₁, set, type, geometry, -, agree⟩ := allocPages_spec free
      rw [← length, List.length_cons, run] at done
      cases done
      exact ⟨tl, ys, split, length, free₁, set, type, geometry, split ▸ agree⟩

theorem allocPages_null {s s' : PageMem} {num : Nat}
    (done : s.allocPages num = .ok (none, s')) : s' = s := by
  rw [allocPages] at done
  split_ifs at done with few
  · exact (Prod.mk.inj (Except.ok.inj done)).2.symm
  · obtain ⟨⟨pfirst, s₁⟩, -, done⟩ := Res.bind_eq_ok.mp done
    cases pfirst <;> cases done

/-- `alloc_page` takes the lowest free page. -/
theorem allocPage_spec {s : PageMem} {f : Nat} {ys : List Nat} (free : FreeList s (f :: ys)) :
    ∃ s', s.allocPage = .ok (some f, s') ∧ FreeList s' ys ∧ AllocSet s' f [] ∧
      (s'.page f).type = .generic ∧ SameGeometry s s' ∧ s'.mem = s.mem ∧
      ∀ p, p ∉ f :: ys → s.Agree s' p :=
  allocPages_spec (by simpa using free : FreeList s (f :: [] ++ ys))

end Xv6.PageMem
