import Xv6.PageRuns

namespace Xv6

/-- Behind a page of an ascending list come the pages above it. -/
theorem sorted_after {a b : List Nat} {q : Nat} (sorted : (a ++ q :: b).Pairwise (· < ·)) (p : Nat) :
    p ∈ b ↔ p ∈ a ++ q :: b ∧ q < p := by
  have parts := List.pairwise_append.mp sorted
  refine ⟨fun inside => ⟨by simp [inside], (List.pairwise_cons.mp parts.2.1).1 p inside⟩, fun ⟨inside, above⟩ => ?_⟩
  rcases List.mem_append.mp inside with before | here
  · exact absurd (parts.2.2 p before q (List.mem_cons_self ..)) (by omega)
  · exact (List.mem_cons.mp here).resolve_left (by omega)

/-- The first of the pages, when some of them are new. -/
theorem firstNode_insert {l l' freed : List Nat} (sorted : l.Pairwise (· < ·)) (sorted' : l'.Pairwise (· < ·))
    (members : ∀ p, p ∈ l' → p ∈ freed ∨ p ∈ l) (kept : ∀ p ∈ l, p ∈ l') :
    firstNode l' = firstNode l ∨ ∃ p ∈ freed, firstNode l' = .page p := by
  cases l' with
  | nil =>
    cases l with
    | nil => exact .inl rfl
    | cons p r => exact absurd (kept p (List.mem_cons_self ..)) List.not_mem_nil
  | cons p' r' =>
    obtain new | old := members p' (List.mem_cons_self ..)
    · exact .inr ⟨p', new, rfl⟩
    · cases l with
      | nil => cases old
      | cons p r =>
        refine .inl (congrArg PageNode.page ?_)
        have least : ∀ x ∈ r, p < x := (List.pairwise_cons.mp sorted).1
        have least' : ∀ x ∈ r', p' < x := (List.pairwise_cons.mp sorted').1
        obtain same | above := List.mem_cons.mp old
        · exact same
        · obtain same' | above' := List.mem_cons.mp (kept p (List.mem_cons_self ..))
          · exact same'.symm
          · have one := least _ above
            have two := least' _ above'
            omega

namespace PageMem

variable {s s' : PageMem} {l l' freed : List Nat}

theorem FreeList.next_page (free : FreeList s l) {a b : List Nat} {q : Nat} (place : l = a ++ q :: b) :
    s.link.next (.page q) = firstNode b := by
  have ring := free.ring
  rw [place, List.map_append, List.map_cons] at ring
  rw [ring.next_mid, firstNode_eq]

/-- When pages come to the free list, `next` changes only to one of them. -/
theorem FreeList.next_insert (free : FreeList s l) (free' : FreeList s' l') (perm : l'.Perm (freed ++ l)) {y : PageNode}
    (member : y ∈ PageNode.freeList :: l.map PageNode.page) :
    s'.link.next y = s.link.next y ∨ ∃ p ∈ freed, s'.link.next y = .page p := by
  have members : ∀ p, p ∈ l' ↔ p ∈ freed ∨ p ∈ l := fun p => by rw [perm.mem_iff, List.mem_append]
  rcases List.mem_cons.mp member with rfl | inside
  · rw [free.first, free'.first]
    exact firstNode_insert free.sorted free'.sorted (fun p => (members p).mp) (fun p here => (members p).mpr (.inr here))
  · obtain ⟨q, inList, rfl⟩ := List.mem_map.mp inside
    obtain ⟨a, b, place⟩ := List.append_of_mem inList
    obtain ⟨a', b', place'⟩ := List.append_of_mem ((members q).mpr (.inr inList))
    have sorted := free.sorted
    have sorted' := free'.sorted
    rw [free.next_page place, free'.next_page place']
    rw [place] at sorted
    rw [place'] at sorted'
    have after : ∀ p, p ∈ b ↔ p ∈ l ∧ q < p := fun p => place ▸ sorted_after sorted p
    have after' : ∀ p, p ∈ b' ↔ p ∈ l' ∧ q < p := fun p => place' ▸ sorted_after sorted' p
    refine firstNode_insert (List.pairwise_cons.mp (List.pairwise_append.mp sorted).2.1).2
      (List.pairwise_cons.mp (List.pairwise_append.mp sorted').2.1).2 (fun p here => ?_) (fun p here => ?_)
    · obtain ⟨inside', above⟩ := (after' p).mp here
      exact ((members p).mp inside').imp_right (fun old => (after p).mpr ⟨old, above⟩)
    · obtain ⟨old, above⟩ := (after p).mp here
      exact (after' p).mpr ⟨(members p).mpr (.inr old), above⟩

/-- And so does `prev`. -/
theorem FreeList.prev_insert (free : FreeList s l) (free' : FreeList s' l') (perm : l'.Perm (freed ++ l))
    (apart : ∀ p ∈ freed, p ∉ l) {y : PageNode} (member : y ∈ PageNode.freeList :: l.map PageNode.page) :
    s'.link.prev y = s.link.prev y ∨ ∃ p ∈ freed, s'.link.prev y = .page p := by
  have kept : ∀ x ∈ PageNode.freeList :: l'.map PageNode.page,
      (∃ p ∈ freed, x = .page p) ∨ x ∈ PageNode.freeList :: l.map PageNode.page := by
    intro x here
    rcases List.mem_cons.mp here with rfl | inside
    · exact .inr (List.mem_cons_self ..)
    · obtain ⟨p, inList, rfl⟩ := List.mem_map.mp inside
      obtain new | old := List.mem_append.mp (perm.mem_iff.mp inList)
      · exact .inl ⟨p, new, rfl⟩
      · exact .inr (List.mem_cons_of_mem _ (mem_map_page.mpr old))
  have member' : y ∈ PageNode.freeList :: l'.map PageNode.page := by
    rcases List.mem_cons.mp member with rfl | inside
    · exact List.mem_cons_self ..
    · obtain ⟨q, inList, rfl⟩ := List.mem_map.mp inside
      exact List.mem_cons_of_mem _ (mem_map_page.mpr (perm.mem_iff.mpr (List.mem_append_right _ inList)))
  obtain ⟨p, new, same⟩ | old := kept _ (free'.ring.prev_mem member')
  · exact .inr ⟨p, new, same⟩
  · left
    have back := free'.ring.next_prev member'
    obtain same | ⟨p, new, same⟩ := free.next_insert free' perm old
    · have forth : s.link.next (s'.link.prev y) = y := same.symm.trans back
      rw [← free.ring.prev_next old, forth]
    · exfalso
      rcases List.mem_cons.mp member with rfl | inside
      · cases same.symm.trans back
      · obtain ⟨q, inList, rfl⟩ := List.mem_map.mp inside
        obtain rfl : p = q := PageNode.page.inj (same.symm.trans back)
        exact apart p new inList

/-- What `free_pages` leaves: the pages `freed` are on the free list, the parts in
front of and behind them are sets of their own with the type of the old first page,
and of the other pages only new neighbours on the free list get other links. -/
structure SplitOff (s s' : PageMem) (f : Nat) (tl l xs freed ys : List Nat) : Prop where
  geometry : SameGeometry s s'
  free : ∃ l', FreeList s' l' ∧ l'.Perm (freed ++ l)
  count : s'.nrFreePages = s.nrFreePages + freed.length
  parts : ∀ x rem, (xs = x :: rem ∨ ys = x :: rem) → AllocSet s' x rem ∧ (s'.page x).type = (s.page f).type
  page : ∀ q, q ∉ f :: tl → s'.page q = s.page q
  next : ∀ q, q ∉ f :: tl → s'.link.next (.page q) = s.link.next (.page q) ∨ ∃ p ∈ freed, s'.link.next (.page q) = .page p
  prev : ∀ q, q ∉ f :: tl → s'.link.prev (.page q) = s.link.prev (.page q) ∨ ∃ p ∈ freed, s'.link.prev (.page q) = .page p
  mem : ∀ x, (∀ p ∈ freed, ¬ s.InPage p x) → s'.mem x = s.mem x

/-- `free_pages` splits an allocated set exactly. -/
theorem freePages_exact {f base : Nat} {tl xs ms ys : List Nat} (free : FreeList s l) (set : AllocSet s f tl)
    (split : f :: tl = xs ++ (base :: ms) ++ ys) (small : s.nrPages < 2 ^ 64) (counted : ms.length + 1 < 2 ^ 32) :
    ∃ s', s.freePages (some base) (ms.length + 1) = .ok (some (ys.headD f), s') ∧
      SplitOff s s' f tl l xs (base :: ms) ys := by
  obtain ⟨s', l', run, free', perm, shredded, geometry, parts, page, agree⟩ := freePagesFrom_spec free set split small
  have whole : (base :: ms).take ((ms.length + 1) % 2 ^ 32) = base :: ms := by
    rw [Nat.mod_eq_of_lt counted]
    exact List.take_of_length_le (Nat.le_refl _)
  rw [whole] at perm shredded
  have apart : ∀ p ∈ base :: ms, p ∉ l := fun p inside => set.disjoint_free free (by
    rw [split]
    exact List.mem_append_left _ (List.mem_append_right _ inside))
  have listed : ∀ q, q ∈ l → PageNode.page q ∈ PageNode.freeList :: l.map PageNode.page := fun q inList =>
    List.mem_cons_of_mem _ (mem_map_page.mpr inList)
  refine ⟨s', run, geometry, ⟨l', free', perm⟩, ?_, parts, page, fun q outside => ?_, fun q outside => ?_, shredded.other⟩
  · rw [free'.count, free.count, perm.length_eq, List.length_append]
    exact Nat.add_comm ..
  · by_cases inList : q ∈ l
    · exact free.next_insert free' perm (listed q inList)
    · exact .inl (agree q inList outside).link.1
  · by_cases inList : q ∈ l
    · exact free.prev_insert free' perm apart (listed q inList)
    · exact .inl (agree q inList outside).link.2

/-- Two of the three pages of a small machine are allocated. -/
theorem exists_pair : ∃ (s : PageMem) (l : List Nat), FreeList s l ∧ AllocSet s 1 [2] ∧ s.nrPages = 4 := by
  have pages : (bootLedger 4).free.sort = [1, 2, 3] := by
    refine (Ledger.eq_sort (by decide) ?_).symm
    intro p
    have occupied : pageArrayPages 4 = 1 := by decide
    simp only [bootLedger, occupied, Finset.mem_Ico, List.mem_cons, List.not_mem_nil, or_false]
    omega
  have lowest : (bootLedger 4).lowest 2 = [1, 2] := by rw [Ledger.lowest, pages]; rfl
  have enough : 2 ≤ (bootLedger 4).free.card := by
    rw [← Finset.length_sort (· ≤ ·), pages]
    decide
  obtain ⟨s, -, books, geometry, -⟩ := (initPageArray_books 0 4 ⟨id, id⟩ (fun _ => 0)).grant (by decide) enough lowest
  have set := books.sets 1 [2] (by rw [← lowest]; exact List.mem_cons_self ..)
  exact ⟨s, _, books.free, set, geometry.pages⟩

/-- The upper one of two pages is freed. -/
theorem freePages_upper : ∃ s s' l, s.freePages (some 2) 1 = .ok (some 1, s') ∧ SplitOff s s' 1 [2] l [1] [2] [] := by
  obtain ⟨s, l, free, set, size⟩ := exists_pair
  have parts : [1, 2] = [1] ++ (2 :: []) ++ [] := rfl
  obtain ⟨s', run, exact⟩ := freePages_exact free set parts (by rw [size]; decide) (by decide)
  exact ⟨s, s', l, run, exact⟩

/-- Of a set of `2 ^ 32` pages nothing is freed: the counter of `free_all_pages` is 0. -/
theorem not_freePages_exact : ¬ ∀ (s : PageMem) (f base : Nat) (tl l xs ms ys : List Nat), FreeList s l → AllocSet s f tl →
    f :: tl = xs ++ (base :: ms) ++ ys → s.nrPages < 2 ^ 64 →
    ∃ s', s.freePages (some base) (ms.length + 1) = .ok (some (ys.headD f), s') ∧
      SplitOff s s' f tl l xs (base :: ms) ys := by
  intro always
  have enough : 2 ^ 32 ≤ (bootLedger (2 ^ 33)).free.card := by
    rw [bootLedger, Nat.card_Ico]
    decide
  have length : ((bootLedger (2 ^ 33)).lowest (2 ^ 32)).length = 2 ^ 32 := by
    simpa only [Ledger.lowest, List.length_take, Finset.length_sort, min_eq_left_iff] using enough
  obtain ⟨f, tl, lowest⟩ := List.exists_cons_of_length_pos (by rw [length]; decide :
    0 < ((bootLedger (2 ^ 33)).lowest (2 ^ 32)).length)
  obtain ⟨s, -, books, geometry, -⟩ := (initPageArray_books 0 (2 ^ 33) ⟨id, id⟩ (fun _ => 0)).grant (by decide) enough lowest
  have set := books.sets f tl (by rw [← lowest]; exact List.mem_cons_self ..)
  have small : s.nrPages < 2 ^ 64 := by
    rw [geometry.pages, show (initPageArray 0 (2 ^ 33) ⟨id, id⟩ (fun _ => 0)).nrPages = 2 ^ 33 from rfl]
    decide
  have split : f :: tl = [] ++ (f :: tl) ++ [] := by simp
  have big : tl.length + 1 = 2 ^ 32 := by rw [← length, lowest, List.length_cons]
  obtain ⟨s', run, exact⟩ := always s f f tl _ [] tl [] books.free set split small
  obtain ⟨s'', l', run', free', perm, -⟩ := freePagesFrom_spec books.free set split small
  obtain ⟨-, rfl⟩ := Prod.mk.inj (Except.ok.inj (run.symm.trans run'))
  have count := exact.count
  rw [free'.count, perm.length_eq, big, Nat.mod_self, List.take_zero, List.nil_append, ← books.free.count,
    List.length_cons, big] at count
  omega

/-- The two loops at the start of `free_pages`, which write nothing. -/
def freeChecks (s : PageMem) (base num : Nat) : Res PageNode := do
  let _ ← s.headLen base s.fuel (.page (s.firstPage base)) 0
  s.findLast (s.firstPage base) base num (.page base)

/-- `free_pages` stops at an assertion, with nothing written yet. -/
def Rejects (s : PageMem) (base num : Nat) : Prop :=
  s.freeChecks base num = .error .assertion ∧ s.freePages (some base) num = .error .assertion

/-- What stops one of the checks stops `free_pages`. -/
theorem freePages_stops {base num : Nat} {e : Fault} (positive : 0 < num) (stops : s.freeChecks base num = .error e) :
    s.freePages (some base) num = .error e := by
  rw [freeChecks] at stops
  rw [freePages, if_neg (by omega), freePagesFrom]
  cases head : s.headLen base s.fuel (.page (s.firstPage base)) 0 with
  | error e' =>
    obtain rfl : e' = e := by simpa [head, bind, Except.bind] using stops
    rfl
  | ok n =>
    rw [head, Res.ok_bind] at stops
    simp only [Res.ok_bind, stops]
    rfl

/-- The walk goes on where it is. -/
theorem findLast_add {first base n : Nat} (m : Nat) {last : PageNode} {q : PageNode}
    (start : s.findLast first base n last = .ok q) :
    s.findLast first base (n + m) last = s.findLast first base m q := by
  induction n generalizing last with
  | zero =>
    obtain rfl : last = q := Except.ok.inj start
    rw [Nat.zero_add]
  | succ n ih =>
    rw [Nat.succ_add]
    cases last with
    | freeList => cases start
    | page p =>
      rw [findLast] at start ⊢
      split_ifs at start ⊢ with inside
      exact ih start

theorem AllocSet.nextPage_mem {f q : Nat} {tl : List Nat} (set : AllocSet s f tl) (member : q ∈ f :: tl) :
    ∃ q' ∈ f :: tl, s.nextPage q = .page q' := by
  obtain ⟨pre, post, split⟩ := List.append_of_mem member
  refine ⟨post.headD f, ?_, nextPage_eq set.ring split⟩
  cases post with
  | nil => exact List.mem_cons_self ..
  | cons x rest =>
    rw [split]
    simp

/-- From the first page on the walk never stops. -/
theorem AllocSet.findLast_first {f q : Nat} {tl : List Nat} (set : AllocSet s f tl) (member : q ∈ f :: tl) (num : Nat) :
    ∃ last ∈ f :: tl, s.findLast f f num (.page q) = .ok (.page last) := by
  induction num generalizing q with
  | zero => exact ⟨q, member, rfl⟩
  | succ num ih =>
    obtain ⟨q', member', next⟩ := set.nextPage_mem member
    obtain ⟨last, inside, walk⟩ := ih member'
    refine ⟨last, inside, ?_⟩
    rw [findLast, if_pos ⟨ne_or_eq q f, set.reserved q member⟩, next, walk]

/-- From any other page it stops when it gets to the first one. -/
theorem AllocSet.findLast_stops {f base x num : Nat} {tl xs ys : List Nat} (set : AllocSet s f tl)
    (split : f :: tl = (x :: xs) ++ (base :: ys) ++ []) (long : ys.length + 1 < num) :
    s.findLast f base num (.page base) = .error .assertion := by
  obtain rfl : f = x := (List.cons.inj split).1
  have nodup := sorted_nodup set.sorted
  have later : f ∉ base :: ys := by
    intro member
    rw [split, List.append_nil] at nodup
    exact (List.disjoint_of_nodup_append nodup) (List.mem_cons_self ..) member
  have walk := @findLast_spec s f base _ _ _ _ set.ring split set.reserved fun q member => .inl fun same => later (same ▸ member)
  obtain ⟨m, rfl⟩ : ∃ m, num = (base :: ys).length + (m + 1) := ⟨num - ys.length - 2, by rw [List.length_cons]; omega⟩
  rw [List.append_nil, List.headD_cons, List.headD_nil] at walk
  rw [findLast_add _ walk, findLast, if_neg]
  rintro ⟨different | same, -⟩
  · exact different rfl
  · exact later (same ▸ List.mem_cons_self ..)

/-- A number of pages that is too large is rejected, unless the first page of the set is the base. -/
theorem freePages_rejects {f base num : Nat} {tl xs ys : List Nat} (set : AllocSet s f tl)
    (split : f :: tl = xs ++ base :: ys) (long : ys.length + 1 < num) : s.Rejects base num ↔ xs ≠ [] := by
  have member : base ∈ f :: tl := split ▸ by simp
  have first := set.firstPage_eq member
  have enough : xs.length < s.fuel := by
    have length := congrArg List.length split
    have bound := set.length_le
    rw [List.length_cons, List.length_append, List.length_cons] at length
    rw [fuel]
    omega
  have head := @headLen_spec s f base s.fuel tl [] xs ys set.ring split set.reserved (sorted_nodup set.sorted) enough
  have entry : (xs ++ base :: ys).headD f = f := by rw [← split, List.headD_cons]
  rw [entry, List.length_nil, Nat.zero_add] at head
  have checks : s.freeChecks base num = s.findLast f base num (.page base) := by
    rw [freeChecks, first, head, Res.ok_bind]
  constructor
  · rintro ⟨stops, -⟩ rfl
    obtain ⟨rfl, rfl⟩ := List.cons.inj split
    obtain ⟨last, -, walk⟩ := set.findLast_first member num
    rw [checks, walk] at stops
    cases stops
  · intro later
    obtain ⟨x, rest, rfl⟩ := List.exists_cons_of_ne_nil later
    have stops := checks.trans (set.findLast_stops (by rw [List.append_nil]; exact split) long)
    exact ⟨stops, freePages_stops (by omega) stops⟩

/-- Two pages from the upper one of two. -/
theorem freePages_rejects_upper : ∃ s, AllocSet s 1 [2] ∧ s.Rejects 2 2 := by
  obtain ⟨s, -, -, set, -⟩ := exists_pair
  exact ⟨s, set, (freePages_rejects set (show [1, 2] = [1] ++ [2] from rfl) (by decide)).mpr (by simp)⟩

/-- Three pages from the lower one of two: the walk gets past the first page. -/
theorem not_freePages_rejects : ¬ ∀ (s : PageMem) (f base num : Nat) (tl xs ys : List Nat), AllocSet s f tl →
    f :: tl = xs ++ base :: ys → ys.length + 1 < num → s.Rejects base num := by
  intro always
  obtain ⟨s, -, -, set, -⟩ := exists_pair
  exact (freePages_rejects set (List.nil_append _).symm (by decide)).mp (always s 1 1 3 [2] [] [2] set rfl (by decide)) rfl

end PageMem

end Xv6
