import Xv6.PageAllocSpec
import Mathlib.Data.List.TakeWhile

namespace Xv6

theorem dropWhile_not_below {l : List Nat} {x y : Nat} (sorted : l.Pairwise (· < ·))
    (member : y ∈ l.dropWhile (fun q => decide (q < x))) : x ≤ y := by
  induction l with
  | nil => simp at member
  | cons q qs ih =>
    have parts := List.pairwise_cons.mp sorted
    by_cases below : q < x
    · rw [List.dropWhile_cons_of_pos (by simpa using below)] at member
      exact ih parts.2 member
    · rw [List.dropWhile_cons_of_neg (by simpa using below)] at member
      rcases List.mem_cons.mp member with rfl | later
      · omega
      · have above := parts.1 y later
        omega

/-- Where the cursor stops a new page keeps the list ascending. -/
theorem sorted_insert {l₁ l₂ : List Nat} {x : Nat} (sorted : (l₁ ++ l₂).Pairwise (· < ·))
    (below : ∀ p ∈ l₁, p < x) (fresh : x ∉ l₂) :
    (l₁ ++ l₂.takeWhile (fun q => decide (q < x)) ++ x :: l₂.dropWhile (fun q => decide (q < x))).Pairwise (· < ·) := by
  have whole : (l₁ ++ l₂.takeWhile (fun q => decide (q < x)) ++ l₂.dropWhile (fun q => decide (q < x))).Pairwise (· < ·) := by
    rw [List.append_assoc, List.takeWhile_append_dropWhile]
    exact sorted
  have parts := List.pairwise_append.mp whole
  have second := (List.pairwise_append.mp sorted).2.1
  refine List.pairwise_append.mpr ⟨parts.1, List.pairwise_cons.mpr ⟨?_, parts.2.1⟩, ?_⟩
  · intro y member
    have least := dropWhile_not_below second member
    have inside : y ∈ l₂ := (List.dropWhile_sublist _).subset member
    have different : x ≠ y := fun same => fresh (same ▸ inside)
    omega
  · intro p member y later
    have px : p < x := by
      rcases List.mem_append.mp member with old | taken
      · exact below p old
      · simpa using List.mem_takeWhile_imp taken
    rcases List.mem_cons.mp later with rfl | rest
    · exact px
    · exact parts.2.2 p member y rest

theorem insert_perm (l₁ l₂ : List Nat) (x : Nat) :
    (l₁ ++ l₂.takeWhile (fun q => decide (q < x)) ++ x :: l₂.dropWhile (fun q => decide (q < x))).Perm
      (x :: (l₁ ++ l₂)) := by
  have middle : (l₁ ++ l₂.takeWhile (fun q => decide (q < x)) ++ x :: l₂.dropWhile (fun q => decide (q < x))).Perm
      (x :: (l₁ ++ l₂.takeWhile (fun q => decide (q < x)) ++ l₂.dropWhile (fun q => decide (q < x)))) :=
    List.perm_middle
  refine middle.trans ?_
  rw [List.append_assoc, List.takeWhile_append_dropWhile]

namespace PageMem

def InPage (s : PageMem) (p x : Nat) : Prop :=
  s.pageToKvaddr p ≤ x ∧ x < s.pageToKvaddr p + 16384

theorem InPage.unique {s : PageMem} {p q x : Nat} (left : s.InPage p x) (right : s.InPage q x) : p = q := by
  simp only [InPage, pageToKvaddr_eq] at left right
  omega

/-- Exactly the pages of `xs` are overwritten, with the junk byte. -/
structure Shredded (s s' : PageMem) (xs : List Nat) : Prop where
  junk : ∀ p ∈ xs, ∀ x, s.InPage p x → s'.mem x = 1
  other : ∀ x, (∀ p ∈ xs, ¬ s.InPage p x) → s'.mem x = s.mem x

theorem seekFree_spec {s : PageMem} {l₁ l₂ : List Nat} {p fuel : Nat}
    (ring : s.link.IsRing .freeList ((l₁ ++ l₂).map .page)) (enough : l₂.length < fuel) :
    s.seekFree p fuel (firstNode l₂) = .ok (firstNode (l₂.dropWhile (fun q => decide (q < p)))) := by
  induction l₂ generalizing l₁ fuel with
  | nil =>
    obtain ⟨n, rfl⟩ := Nat.exists_eq_succ_of_ne_zero (by omega : fuel ≠ 0)
    rfl
  | cons q qs ih =>
    obtain ⟨n, rfl⟩ := Nat.exists_eq_succ_of_ne_zero (by omega : fuel ≠ 0)
    by_cases below : q < p
    · have next : s.nextPage q = firstNode qs := by
        rw [nextPage, (by simpa using ring : s.link.IsRing .freeList (l₁.map .page ++ .page q :: qs.map .page)).next_mid,
          firstNode_eq]
      have rest := ih (by simpa using ring : s.link.IsRing .freeList (((l₁ ++ [q]) ++ qs).map .page))
        (by simp at enough; omega : qs.length < n)
      rw [List.dropWhile_cons_of_pos (by simpa using below), ← rest, ← next]
      simp [firstNode, seekFree, below]
    · rw [List.dropWhile_cons_of_neg (by simpa using below)]
      simp [firstNode, seekFree, below]

/-- One page goes from the ring `x :: rem` back to its place in the free list.
The cursor stays in front of the place where the next page of the ring goes. -/
theorem freeLoop_step {s : PageMem} {x : Nat} {rem l₁ l₂ : List Nat} (free : FreeList s (l₁ ++ l₂))
    (ring : s.link.IsRing (.page x) (rem.map .page)) (reserved : ∀ p ∈ x :: rem, (s.page p).reserved = true)
    (below : ∀ p ∈ l₁, p < x) (bound : x < s.nrPages) :
    ∃ s' : PageMem, (∀ i, freeLoop (i + 1) (.page x) (firstNode l₂) s = freeLoop i (s.nextPage x)
        (firstNode (l₂.dropWhile (fun q => decide (q < x)))) s') ∧
      FreeList s' (l₁ ++ l₂.takeWhile (fun q => decide (q < x)) ++ x :: l₂.dropWhile (fun q => decide (q < x))) ∧
      (∀ y rem', rem = y :: rem' → s.nextPage x = .page y ∧ s'.link.IsRing (.page y) (rem'.map .page)) ∧
      s'.page = Function.update s.page x { s.page x with reserved := false } ∧
      s'.mem = s.mem.fill (s.pageToKvaddr x) 16384 1 ∧ SameGeometry s s' ∧
      ∀ p, p ∉ l₁ ++ l₂ → p ∉ x :: rem → s.link.Same s'.link (.page p) := by
  have xReserved := reserved x (by simp)
  have xNotFree : x ∉ l₁ ++ l₂ := free.not_mem xReserved
  have nodeOut : ∀ p, p ∉ x :: rem → PageNode.page p ∉ PageNode.page x :: rem.map .page := by
    intro p absent member
    exact absent (by simpa using member)
  have freeKept : (s.link.delInit (.page x)).IsRing .freeList ((l₁ ++ l₂).map .page) := by
    refine free.ring.congr ?_
    intro y member
    refine Links.delInit_same ring (by simp) ?_
    rcases List.mem_cons.mp member with rfl | inside
    · simp
    · obtain ⟨p, pFree, rfl⟩ := List.mem_map.mp inside
      exact nodeOut p fun pSet => free.not_mem (reserved p pSet) pFree
  have short : l₂.length < s.fuel := by
    have length := free.length_le
    simp only [fuel, List.length_append] at length ⊢
    omega
  have cursor : (s.pageDelete x).seekFree x (s.pageDelete x).fuel (firstNode l₂) = _ :=
    seekFree_spec freeKept short
  generalize ha : l₂.takeWhile (fun q => decide (q < x)) = a at *
  generalize hb : l₂.dropWhile (fun q => decide (q < x)) = b at *
  have parts : a ++ b = l₂ := by rw [← ha, ← hb]; exact List.takeWhile_append_dropWhile
  have sorted := sorted_insert free.sorted below (fun member => xNotFree (List.mem_append_right _ member))
  rw [ha, hb] at sorted
  have freeSplit : (s.link.delInit (.page x)).IsRing .freeList ((l₁ ++ a).map .page ++ b.map .page) := by
    rw [← List.map_append, List.append_assoc, parts]
    exact freeKept
  have xNode : PageNode.page x ∉ PageNode.freeList :: ((l₁ ++ a).map PageNode.page ++ b.map .page) := by
    rw [← List.map_append, List.append_assoc, parts]
    simpa using xNotFree
  have added := freeSplit.addBefore xNode
  rw [firstNode_eq] at added
  have cursorMem : firstNode b ∈ PageNode.freeList :: (l₁ ++ l₂).map PageNode.page := by
    rw [← parts]
    cases b <;> simp [firstNode]
  have cursorNe : firstNode b ≠ .page x := by
    intro same
    rw [same] at cursorMem
    exact xNotFree (by simpa using cursorMem)
  refine ⟨(((s.pageDelete x).shredAndReleasePage x).pageAddBefore (firstNode b) x).incFree, ?_, ?_, ?_, ?_, ?_,
    ⟨rfl, rfl⟩, ?_⟩
  · intro i
    have kept : ((s.pageDelete x).page x).reserved = true := xReserved
    simp only [freeLoop, cursor, bind, Except.bind, cursorNe, kept, false_or, Bool.true_eq_false,
      if_false]
  · refine ⟨by rw [List.map_append]; exact added, sorted, ?_, ?_, ?_⟩
    · have count := free.count
      simp only [incFree, pageAddBefore, shredAndReleasePage, releasePage, setPage, shredPage, pageDelete, count,
        ← parts, List.length_append, List.length_cons]
      omega
    · intro p member
      by_cases same : p = x
      · simp [incFree, pageAddBefore, shredAndReleasePage, releasePage, setPage, shredPage, pageDelete, same]
      · have old : p ∈ l₁ ++ l₂ := by
          rw [← parts]
          simp only [List.mem_append, List.mem_cons] at member ⊢
          grind
        simpa [incFree, pageAddBefore, shredAndReleasePage, releasePage, setPage, shredPage, pageDelete, same]
          using free.unreserved p old
    · intro p member
      by_cases same : p = x
      · subst same; exact bound
      · refine free.bound p ?_
        rw [← parts]
        simp only [List.mem_append, List.mem_cons] at member ⊢
        grind
  · rintro y rem' rfl
    have next : s.nextPage x = .page y := ring.1.1.1
    refine ⟨next, ?_⟩
    refine (by simpa using ring : s.link.IsRing (.page x) (.page y :: rem'.map .page)).delInit_head.congr ?_
    intro z member
    have zSet : z ∈ PageNode.page x :: (y :: rem').map PageNode.page := by
      simp only [List.map_cons]
      exact List.mem_cons_of_mem _ member
    have distinct := ring.2
    refine Links.addBefore_same freeKept cursorMem ?_ ?_
    · intro inFree
      rcases List.mem_cons.mp inFree with rfl | inside
      · simp at zSet
      · obtain ⟨p, pFree, rfl⟩ := List.mem_map.mp inside
        exact free.not_mem (reserved p (by simpa using zSet)) pFree
    · rintro rfl
      exact (List.nodup_cons.mp distinct).1 (by simpa using member)
  · rfl
  · rfl
  · intro p outFree outSet
    refine (Links.delInit_same ring (by simp) (nodeOut p outSet)).trans
      (Links.addBefore_same freeKept cursorMem ?_ ?_)
    · simpa using outFree
    · intro same
      exact outSet (by simp [PageNode.page.inj same])

/-- The loop frees the pages of `xs`, the front of the ring; `zs` is what it leaves. -/
theorem freeLoop_run {s : PageMem} {node : PageNode} {xs zs l₁ l₂ : List Nat} (free : FreeList s (l₁ ++ l₂))
    (ring : ∀ x rem, xs ++ zs = x :: rem → s.link.IsRing (.page x) (rem.map .page))
    (entry : ∀ x xs', xs = x :: xs' → node = .page x)
    (reserved : ∀ p ∈ xs ++ zs, (s.page p).reserved = true) (sorted : (xs ++ zs).Pairwise (· < ·))
    (below : ∀ p ∈ l₁, ∀ x ∈ xs, p < x) (bound : ∀ p ∈ xs, p < s.nrPages) :
    ∃ s' l', freeLoop xs.length node (firstNode l₂) s = .ok s' ∧ FreeList s' l' ∧
      l'.Perm (xs ++ (l₁ ++ l₂)) ∧ Shredded s s' xs ∧ SameGeometry s s' ∧
      (∀ p, s'.page p = if p ∈ xs then { s.page p with reserved := false } else s.page p) ∧
      ∀ p, p ∉ l₁ ++ l₂ → p ∉ xs ++ zs → s.link.Same s'.link (.page p) := by
  induction xs generalizing s node l₁ l₂ with
  | nil =>
    exact ⟨s, l₁ ++ l₂, rfl, free, by simp, ⟨by simp, fun _ _ => rfl⟩, .refl s, by simp,
      fun p _ _ => Links.Same.refl _ _⟩
  | cons x xs ih =>
    obtain rfl := entry x xs rfl
    have parts := List.pairwise_cons.mp sorted
    obtain ⟨s₁, step, free₁, next, page₁, mem₁, geometry₁, same₁⟩ :=
      freeLoop_step free (ring x (xs ++ zs) rfl) reserved (fun p member => below p member x (by simp))
        (bound x (by simp))
    have xNot : ∀ p ∈ xs ++ zs, p ≠ x := fun p member => Nat.ne_of_gt (parts.1 p member)
    have moved := insert_perm l₁ l₂ x
    generalize ha : l₂.takeWhile (fun q => decide (q < x)) = a at *
    generalize hb : l₂.dropWhile (fun q => decide (q < x)) = b at *
    have taken : ∀ p ∈ a, p < x := by
      intro p member
      rw [← ha] at member
      simpa using List.mem_takeWhile_imp member
    have free₁' : FreeList s₁ ((l₁ ++ a ++ [x]) ++ b) := by simpa using free₁
    have ring₁ : ∀ y rem', xs ++ zs = y :: rem' → s₁.link.IsRing (.page y) (rem'.map .page) :=
      fun y rem' rest => (next y rem' rest).2
    have entry₁ : ∀ y xs', xs = y :: xs' → s.nextPage x = .page y := by
      rintro y xs' rfl
      exact (next y (xs' ++ zs) rfl).1
    have reserved₁ : ∀ p ∈ xs ++ zs, (s₁.page p).reserved = true := by
      intro p member
      rw [page₁, Function.update_of_ne (xNot p member)]
      exact reserved p (List.mem_cons_of_mem _ member)
    have below₁ : ∀ p ∈ l₁ ++ a ++ [x], ∀ y ∈ xs, p < y := by
      intro p member y later
      have xy := parts.1 y (List.mem_append_left _ later)
      simp only [List.mem_append, List.mem_singleton] at member
      rcases member with (old | inA) | rfl
      · exact below p old y (List.mem_cons_of_mem _ later)
      · exact (taken p inA).trans xy
      · exact xy
    have bound₁ : ∀ p ∈ xs, p < s₁.nrPages := by
      intro p member
      rw [geometry₁.pages]
      exact bound p (List.mem_cons_of_mem _ member)
    obtain ⟨s₂, l', run, free₂, perm, shredded, geometry₂, page₂, same₂⟩ :=
      ih free₁' ring₁ entry₁ reserved₁ parts.2 below₁ bound₁
    refine ⟨s₂, l', (step xs.length).trans run, free₂, ?_, ?_, geometry₁.trans geometry₂, ?_, ?_⟩
    · have reorder : (xs ++ (l₁ ++ a ++ [x] ++ b)).Perm (xs ++ x :: (l₁ ++ l₂)) :=
        List.Perm.append_left xs (by simpa using moved)
      exact perm.trans (reorder.trans List.perm_middle)
    · constructor
      · intro p member y inside
        by_cases later : ∃ q ∈ xs, s₁.InPage q y
        · obtain ⟨q, qMem, qIn⟩ := later
          exact shredded.junk q qMem y qIn
        · have kept := shredded.other y (fun q qMem qIn => later ⟨q, qMem, qIn⟩)
          have here : p = x := by
            rcases List.mem_cons.mp member with same | old
            · exact same
            · exact absurd ⟨p, old, by simpa only [InPage, geometry₁.kvaddr] using inside⟩ later
          subst here
          rw [kept, mem₁]
          exact ByteMem.fill_inside inside.1 inside.2
      · intro y outside
        have kept := shredded.other y (fun q qMem qIn =>
          outside q (List.mem_cons_of_mem _ qMem) (by simpa only [InPage, geometry₁.kvaddr] using qIn))
        have notHere := outside x (by simp)
        rw [kept, mem₁]
        refine ByteMem.fill_outside ?_
        simp only [InPage] at notHere
        omega
    · intro p
      rw [page₂ p, page₁]
      by_cases same : p = x
      · subst same
        have absent : p ∉ xs := fun member => xNot p (List.mem_append_left _ member) rfl
        simp [absent]
      · simp [same]
    · intro p outFree outSet
      have px : p ≠ x := fun same => outSet (by simp [same])
      refine (same₁ p outFree outSet).trans (same₂ p ?_ ?_)
      · intro member
        have back := moved.mem_iff (a := p)
        have inside : p ∈ x :: (l₁ ++ l₂) := back.mp (by simpa using member)
        rcases List.mem_cons.mp inside with same | old
        · exact px same
        · exact outFree old
      · exact fun member => outSet (List.mem_cons_of_mem _ member)

/-- `free_all_pages` frees as many pages of the set as its counter says. The
counter is the length of the set as an unsigned int. -/
theorem freeAllPages_spec {s : PageMem} {f p : Nat} {tl l xs zs : List Nat} (free : FreeList s l)
    (set : AllocSet s f tl) (member : p ∈ f :: tl) (split : f :: tl = xs ++ zs)
    (counted : xs.length = (tl.length + 1) % 2 ^ 32) :
    ∃ s' l', s.freeAllPages p = .ok s' ∧ FreeList s' l' ∧ l'.Perm (xs ++ l) ∧ Shredded s s' xs ∧
      SameGeometry s s' ∧
      (∀ q, s'.page q = if q ∈ xs then { s.page q with reserved := false } else s.page q) ∧
      ∀ q, q ∉ l → q ∉ f :: tl → s.Agree s' q := by
  have free' : FreeList s ([] ++ l) := free
  have ring : ∀ x rem, xs ++ zs = x :: rem → s.link.IsRing (.page x) (rem.map .page) := by
    intro x rem whole
    have same : f :: tl = x :: rem := split.trans whole
    cases same
    exact set.ring
  have entry : ∀ x xs', xs = x :: xs' → PageNode.page f = .page x := by
    rintro x xs' rfl
    rw [(List.cons.inj split).1]
  obtain ⟨s', l', run, freed, perm, shredded, geometry, page, same⟩ :=
    freeLoop_run free' ring entry (fun q inside => set.reserved q (split ▸ inside)) (split ▸ set.sorted)
      (by simp) (fun q inside => set.bound q (split ▸ List.mem_append_left _ inside))
  refine ⟨s', l', ?_, freed, perm, shredded, geometry, page, ?_⟩
  · rw [freeAllPages, set.pageCount_eq member, set.firstPage_eq member, free.first, ← counted]
    exact run
  · intro q outFree outSet
    have absent : q ∉ xs := fun inside => outSet (split ▸ List.mem_append_left _ inside)
    refine ⟨by rw [page q, if_neg absent], same q outFree (split ▸ outSet), ?_⟩
    intro x lower upper
    refine shredded.other x ?_
    intro r rMem inside
    have here : q = r := InPage.unique ⟨lower, upper⟩ inside
    exact absent (here ▸ rMem)

end PageMem

end Xv6
