import Xv6.PageContSearch

namespace Xv6.PageMem

/-- The pages taken so far: a ring from the lowest one, all reserved, none tagged. -/
structure Taken (s : PageMem) (f : Nat) (tl : List Nat) : Prop where
  ring : s.link.IsRing (.page f) (tl.map .page)
  reserved : ∀ p ∈ f :: tl, (s.page p).reserved = true

/-- The state after a page left the free list and was put in front of `pfirst`. -/
def takePage (s : PageMem) (p : Nat) (pfirst : Option Nat) : PageMem :=
  match pfirst with
  | none => ((s.reservePage p).pageDelete p).decFree
  | some f => (((s.reservePage p).pageDelete p).pageAddBefore (.page f) p).decFree

theorem takeCont_succ (s : PageMem) (n p : Nat) (pfirst : Option Nat) :
    takeCont (n + 1) (.page p) pfirst s =
      takeCont n (if p = 0 then .freeList else .page (p - 1)) (some p) (s.takePage p pfirst) := by
  cases pfirst <;> rfl

section Take

variable {s : PageMem} {front back : List Nat} {x : Nat}

theorem takePage_page (pfirst : Option Nat) (p : Nat) :
    (s.takePage x pfirst).page p = if p = x then { s.page x with reserved := true } else s.page p := by
  by_cases same : p = x
  · subst same
    cases pfirst <;> simp [takePage, decFree, pageAddBefore, pageDelete, reservePage, setPage]
  · cases pfirst <;> simp [takePage, decFree, pageAddBefore, pageDelete, reservePage, setPage, same]

theorem takePage_geometry (pfirst : Option Nat) : SameGeometry s (s.takePage x pfirst) := by
  cases pfirst <;> exact ⟨rfl, rfl⟩

theorem takePage_mem (pfirst : Option Nat) : (s.takePage x pfirst).mem = s.mem := by
  cases pfirst <;> rfl

/-- The rest of a free list from which a page was taken, whatever the ring it went to. -/
theorem FreeList.taken (free : FreeList s (front ++ x :: back)) (pfirst : Option Nat)
    (ring : (s.takePage x pfirst).link.IsRing .freeList ((front ++ back).map .page)) :
    FreeList (s.takePage x pfirst) (front ++ back) := by
  have distinct := sorted_nodup free.sorted
  have inner : ∀ p ∈ front ++ back, p ∈ front ++ x :: back := by
    intro p member
    simp only [List.mem_append, List.mem_cons] at member ⊢
    grind
  have absent : x ∉ front ++ back := (List.nodup_middle.mp distinct |> List.nodup_cons.mp).1
  refine ⟨ring, free.sorted.sublist (by simp), ?_, ?_, ?_⟩
  · have count := free.count
    simp only [List.length_append, List.length_cons] at count ⊢
    cases pfirst <;> simp only [takePage, decFree, pageAddBefore, pageDelete, reservePage, setPage] <;> omega
  · intro p member
    have other : p ≠ x := fun same => absent (same ▸ member)
    rw [takePage_page, if_neg other]
    exact free.unreserved p (inner p member)
  · intro p member
    rw [(takePage_geometry pfirst).pages]
    exact free.bound p (inner p member)

theorem takePage_first (free : FreeList s (front ++ x :: back)) :
    FreeList (s.takePage x none) (front ++ back) ∧ Taken (s.takePage x none) x [] ∧
      ∀ p, p ∉ front ++ x :: back → s.Agree (s.takePage x none) p := by
  have ring : s.link.IsRing .freeList (front.map .page ++ .page x :: back.map .page) := by
    simpa using free.ring
  refine ⟨free.taken none ?_, ⟨Links.delInit_ring _ _, ?_⟩, ?_⟩
  · rw [List.map_append]
    exact ring.delInit
  · intro p member
    have same : p = x := by simpa using member
    simp [takePage_page, same]
  · intro p absent
    have other : p ≠ x := fun same => absent (by simp [same])
    refine ⟨by rw [takePage_page, if_neg other], ?_, fun _ _ _ => rfl⟩
    refine Links.delInit_same ring (by simp) ?_
    simpa using absent

theorem takePage_next {f : Nat} {tl : List Nat} (free : FreeList s (front ++ x :: back)) (taken : Taken s f tl) :
    FreeList (s.takePage x (some f)) (front ++ back) ∧ Taken (s.takePage x (some f)) x (f :: tl) ∧
      ∀ p, p ∉ front ++ x :: back → p ∉ f :: tl → s.Agree (s.takePage x (some f)) p := by
  have ring : s.link.IsRing .freeList (front.map .page ++ .page x :: back.map .page) := by
    simpa using free.ring
  have apart : ∀ p ∈ f :: tl, p ∉ front ++ x :: back := fun p member => free.not_mem (taken.reserved p member)
  have disjoint : ∀ y ∈ PageNode.freeList :: (front.map PageNode.page ++ .page x :: back.map .page),
      y ∉ PageNode.page f :: tl.map PageNode.page := by
    intro y inFree inSet
    rcases List.mem_cons.mp inFree with rfl | member
    · simp at inSet
    · obtain ⟨p, pFree, rfl⟩ : ∃ p, p ∈ front ++ x :: back ∧ PageNode.page p = y := by
        rw [← List.mem_map]
        simpa using member
      exact apart p (by simpa using inSet) pFree
  obtain ⟨freeRing, setRing⟩ := ring.move taken.ring disjoint
  refine ⟨free.taken (some f) ?_, ⟨?_, ?_⟩, ?_⟩
  · rw [List.map_append]
    exact freeRing
  · exact Links.isRing_rotate.mp setRing
  · intro p member
    rw [takePage_page]
    split_ifs with same
    · rfl
    · refine taken.reserved p ?_
      simpa [same] using member
  · intro p outFree outSet
    have other : p ≠ x := fun same => outFree (by simp [same])
    refine ⟨by rw [takePage_page, if_neg other], ?_, fun _ _ _ => rfl⟩
    exact Links.move_same ring taken.ring disjoint (by simpa using outFree) (by simpa using outSet)

end Take

/-- Behind the page `f + m` the loop takes the `m` pages below it as well. -/
theorem takeCont_run {s : PageMem} {front back tl : List Nat} {f m : Nat}
    (free : FreeList s (front ++ List.range' f m ++ back)) (taken : Taken s (f + m) tl) {p : PageNode}
    (cursor : 0 < m → p = .page (f + m - 1)) :
    ∃ s', takeCont m p (some (f + m)) s = .ok (some f, s') ∧ FreeList s' (front ++ back) ∧
      Taken s' f (List.range' (f + 1) m ++ tl) ∧ SameGeometry s s' ∧ s'.mem = s.mem ∧
      (∀ q, s'.page q = if f ≤ q ∧ q < f + m then { s.page q with reserved := true } else s.page q) ∧
      ∀ q, q ∉ front ++ List.range' f m ++ back → q ∉ (f + m) :: tl → s.Agree s' q := by
  induction m generalizing s tl back p with
  | zero =>
    refine ⟨s, rfl, by simpa using free, by simpa using taken, .refl s, rfl, fun q => ?_, fun q _ _ => .refl s q⟩
    rw [if_neg (by omega)]
  | succ m ih =>
    obtain rfl : p = .page (f + m) := cursor (by omega)
    rw [List.range'_1_concat] at free ⊢
    have free' : FreeList s ((front ++ List.range' f m) ++ (f + m) :: back) := by simpa using free
    obtain ⟨free₁, taken₁, agree₁⟩ := takePage_next free' taken
    have below : 0 < m → (if f + m = 0 then PageNode.freeList else .page (f + m - 1)) = .page (f + m - 1) := by
      intro positive
      rw [if_neg (by omega)]
    obtain ⟨s₂, run, free₂, taken₂, geometry, mem, page, agree₂⟩ := ih free₁ taken₁ below
    have geometry₁ : SameGeometry s (s.takePage (f + m) (some (f + (m + 1)))) := takePage_geometry _
    refine ⟨s₂, ?_, free₂, ?_, geometry₁.trans geometry, mem.trans (takePage_mem _), ?_, ?_⟩
    · rw [takeCont_succ]
      exact run
    · have order : f + 1 + m = f + (m + 1) := by omega
      rw [order]
      simpa using taken₂
    · intro q
      rw [page q, takePage_page]
      by_cases top : q = f + m
      · subst top
        rw [if_neg (by omega), if_pos rfl, if_pos (by omega)]
      · rw [if_neg top]
        exact if_congr (by omega) rfl rfl
    · intro q outFree outSet
      have outFree' : q ∉ (front ++ List.range' f m) ++ (f + m) :: back := by
        rw [List.range'_1_concat] at outFree
        simpa using outFree
      refine (agree₁ q outFree' outSet).trans geometry₁ (agree₂ q ?_ ?_)
      · intro member
        apply outFree'
        simp only [List.mem_append, List.mem_cons] at member ⊢
        grind
      · intro member
        rcases List.mem_cons.mp member with same | old
        · exact outFree' (by simp [same])
        · exact outSet old

/-- The loop over the tails tags them and comes back to the first page. -/
theorem tagTails_run (front : List Nat) {s : PageMem} {f : Nat} {rest : List Nat}
    (ring : s.link.IsRing (.page f) ((front ++ rest).map .page)) :
    ∃ s', tagTails f rest.length ((rest.map PageNode.page ++ [PageNode.page f]).head (by simp)) s = .ok (.page f, s') ∧
      s'.link = s.link ∧ SameGeometry s s' ∧ s'.mem = s.mem ∧ s'.nrFreePages = s.nrFreePages ∧
      (∀ p ∈ rest, s'.page p = { s.page p with type := .tail, extra := .firstPage f }) ∧
      ∀ p, p ∉ rest → s'.page p = s.page p := by
  induction rest generalizing s front with
  | nil => exact ⟨s, rfl, rfl, .refl s, rfl, rfl, by simp, fun _ _ => rfl⟩
  | cons x rest ih =>
    have ring' : s.link.IsRing (.page f) (front.map .page ++ .page x :: rest.map .page) := by simpa using ring
    have distinct := ring'.2
    have fresh : x ∉ rest := by
      have nodup := (List.nodup_cons.mp distinct).2
      have parts := (List.nodup_append.mp nodup).2.1
      exact fun member => (List.nodup_cons.mp parts).1 (List.mem_map_of_mem member)
    have kept : ((s.setType x .tail).setFirstPage x f).link.IsRing (.page f) ((front ++ [x] ++ rest).map .page) := by
      show s.link.IsRing (.page f) _
      simpa using ring
    obtain ⟨s', run, link, geometry, mem, count, tagged, others⟩ := ih _ kept
    refine ⟨s', ?_, link, ⟨geometry.base, geometry.pages⟩, mem, count, ?_, ?_⟩
    · have next : s.nextPage x = (rest.map PageNode.page ++ [PageNode.page f]).head (by simp) := ring'.next_mid
      rw [← next] at run
      exact run
    · intro p member
      rcases List.mem_cons.mp member with rfl | later
      · rw [others p fresh]
        simp [setFirstPage, setType, setPage]
      · have other : p ≠ x := fun same => fresh (same ▸ later)
        rw [tagged p later]
        simp [setFirstPage, setType, setPage, other]
    · intro p absent
      rw [others p (fun later => absent (by simp [later]))]
      have other : p ≠ x := fun same => absent (by simp [same])
      simp [setFirstPage, setType, setPage, other]

end Xv6.PageMem
