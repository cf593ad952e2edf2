import Xv6.Lib.Ledger
import Xv6.PageSplit
import Mathlib.Order.Interval.Finset.Nat

namespace Xv6

/-- The operations of the page allocator. -/
inductive PageOp
  | alloc (num : Nat)
  | freeAll (p : Nat)
  | free (base num : Nat)

def PageMem.exec (s : PageMem) : PageOp → Res (Option Nat × PageMem)
  | .alloc num => s.allocPages num
  | .freeAll p => do
    let s ← s.freeAllPages p
    .ok (none, s)
  | .free base num => s.freePages (some base) num

/-- What a user may ask for: pages are freed by those who hold them. -/
def Allowed (led : Ledger Nat) : PageOp → Prop
  | .alloc num => 0 < num
  | .freeAll p => ∃ set ∈ led.sets, p ∈ set
  | .free base num => 0 < num ∧ ∃ set ∈ led.sets, ∃ xs rest, set = xs ++ base :: rest ∧ num ≤ rest.length + 1

/-- The answer to an operation, and the books after it. -/
inductive Served (led : Ledger Nat) : PageOp → Option Nat → Ledger Nat → Prop
  | refuse {num : Nat} (positive : 0 < num) (scarce : led.free.card < num) : Served led (.alloc num) none led
  | grant {num f : Nat} {tl : List Nat} (positive : 0 < num) (enough : num ≤ led.free.card)
      (first : led.lowest num = f :: tl) :
      Served led (.alloc num) (some f) (led.grant num positive enough)
  | freeAll {p : Nat} {set : List Nat} (member : set ∈ led.sets) (inside : p ∈ set) :
      Served led (.freeAll p) none (led.release set [] set [] member (by simp))
  | free {f base : Nat} {tl xs ms ys : List Nat} (member : f :: tl ∈ led.sets)
      (split : f :: tl = xs ++ (base :: ms) ++ ys) :
      Served led (.free base (ms.length + 1)) (some (ys.headD f))
        (led.release (f :: tl) xs (base :: ms) ys member split)

/-- Every allowed operation has an answer. -/
theorem served_of_allowed {led : Ledger Nat} {op : PageOp} (allowed : Allowed led op) :
    ∃ r led', Served led op r led' := by
  cases op with
  | alloc num =>
    by_cases scarce : led.free.card < num
    · exact ⟨none, led, .refuse allowed scarce⟩
    · have enough : num ≤ led.free.card := Nat.le_of_not_lt scarce
      have length : (led.lowest num).length = num := by simpa [Ledger.lowest] using enough
      have nonempty : 0 < (led.lowest num).length := by
        rw [length]
        exact allowed
      obtain ⟨f, tl, first⟩ := List.exists_cons_of_length_pos nonempty
      exact ⟨some f, _, .grant allowed enough first⟩
  | freeAll p =>
    obtain ⟨set, member, inside⟩ := allowed
    exact ⟨none, _, .freeAll member inside⟩
  | free base num =>
    obtain ⟨positive, set, member, xs, rest, split, enough⟩ := allowed
    obtain ⟨k, rfl⟩ := Nat.exists_eq_succ_of_ne_zero (Nat.ne_of_gt positive)
    obtain ⟨f, tl, rfl⟩ : ∃ f tl, set = f :: tl := by
      cases set with
      | nil => exact absurd split (by simp)
      | cons f tl => exact ⟨f, tl, rfl⟩
    have length : (rest.take k).length = k := by
      rw [List.length_take]
      omega
    have cut : f :: tl = xs ++ (base :: rest.take k) ++ rest.drop k := by simpa using split
    have answer := Served.free member cut
    rw [length] at answer
    exact ⟨_, _, answer⟩

namespace PageMem

/-- The page allocator agrees with the books: the free list is the sorted list
of the free pages, and each set is an allocated ring. -/
structure Books (s : PageMem) (led : Ledger Nat) : Prop where
  free : FreeList s led.free.sort
  sets : ∀ f tl, f :: tl ∈ led.sets → AllocSet s f tl

theorem Books.keep {s s' : PageMem} {led : Ledger Nat} {f : Nat} {tl : List Nat} (books : Books s led)
    (member : f :: tl ∈ led.sets) (geometry : SameGeometry s s')
    (agree : ∀ p ∈ f :: tl, s.Agree s' p) : AllocSet s' f tl :=
  (books.sets f tl member).frame geometry agree

theorem Books.grant {s : PageMem} {led : Ledger Nat} {num f : Nat} {tl : List Nat} (books : Books s led)
    (positive : 0 < num) (enough : num ≤ led.free.card) (first : led.lowest num = f :: tl) :
    ∃ s', s.allocPages num = .ok (some f, s') ∧ Books s' (led.grant num positive enough) ∧
      SameGeometry s s' ∧ ∀ p, ¬ led.Owns p → s.Agree s' p := by
  have length : tl.length + 1 = num := by
    have taken : (led.lowest num).length = num := by simpa [Ledger.lowest] using enough
    rwa [first] at taken
  have whole : led.free.sort = f :: tl ++ led.free.sort.drop num := by
    rw [← first]
    exact (List.take_append_drop num _).symm
  have free := books.free
  rw [whole] at free
  obtain ⟨s', run, free', set, -, geometry, -, agree⟩ := allocPages_spec free
  rw [length] at run
  rw [← whole] at agree
  refine ⟨s', run, ⟨?_, ?_⟩, geometry, ?_⟩
  · have rest : led.free.sort.drop num = (led.grant num positive enough).free.sort := by
      refine Ledger.eq_sort ((Ledger.sort_sorted led.free).sublist (List.drop_sublist ..)) ?_
      intro p
      have nodup := led.free.sort_nodup
      have disjoint : ∀ q ∈ led.free.sort.drop num, q ∉ led.lowest num := fun q late early =>
        List.disjoint_take_drop (nodup _) (Nat.le_refl num) early late
      have parts : p ∈ led.free ↔ p ∈ led.lowest num ∨ p ∈ led.free.sort.drop num := by
        rw [← Finset.mem_sort (· ≤ ·), Ledger.lowest, ← List.mem_append, List.take_append_drop]
      have apart := disjoint p
      simp only [Ledger.grant, Finset.mem_sdiff, List.mem_toFinset, parts]
      tauto
    exact rest ▸ free'
  · intro g rest member
    rcases List.mem_cons.mp member with new | old
    · rw [first] at new
      obtain ⟨rfl, rfl⟩ := List.cons.inj new
      exact set
    · refine books.keep old geometry (fun p inside => agree p ?_)
      rw [Finset.mem_sort]
      exact led.outside _ old p inside
  · intro p outside
    refine agree p ?_
    rw [Finset.mem_sort]
    exact fun inFree => outside (.inl inFree)

/-- The free list after pages of a set went back to it. -/
theorem FreeList.release {s : PageMem} {led : Ledger Nat} {l set xs mid ys : List Nat} (free : FreeList s l)
    (member : set ∈ led.sets) (split : set = xs ++ mid ++ ys) (perm : l.Perm (mid ++ led.free.sort)) :
    FreeList s (led.release set xs mid ys member split).free.sort := by
  have sorted : l = (led.release set xs mid ys member split).free.sort := by
    refine Ledger.eq_sort free.sorted ?_
    intro p
    rw [perm.mem_iff]
    simp [Ledger.release, or_comm]
  exact sorted ▸ free

theorem Books.freeAll {s : PageMem} {led : Ledger Nat} {p : Nat} {set : List Nat} (books : Books s led)
    (member : set ∈ led.sets) (inside : p ∈ set) (short : set.length < 2 ^ 32) :
    ∃ s', s.freeAllPages p = .ok s' ∧ Books s' (led.release set [] set [] member (by simp)) ∧
      SameGeometry s s' ∧ ∀ q, ¬ led.Owns q → s.Agree s' q := by
  obtain ⟨f, tl, rfl⟩ := List.exists_cons_of_ne_nil (List.ne_nil_of_mem inside)
  have counted : (f :: tl).length = (tl.length + 1) % 2 ^ 32 := by
    rw [List.length_cons] at short ⊢
    omega
  obtain ⟨s', l', run, free', perm, -, geometry, -, agree⟩ :=
    freeAllPages_spec books.free (books.sets f tl member) inside (List.append_nil _).symm counted
  refine ⟨s', run, ⟨free'.release member _ perm, ?_⟩, geometry, ?_⟩
  · intro g rest old
    have kept : g :: rest ∈ led.sets.erase (f :: tl) := by simpa [Ledger.release] using old
    refine books.keep (List.mem_of_mem_erase kept) geometry (fun q inOther => agree q ?_ ?_)
    · rw [Finset.mem_sort]
      exact led.outside _ (List.mem_of_mem_erase kept) q inOther
    · exact fun inSet => led.erase_apart member kept inSet inOther
  · intro q outside
    refine agree q ?_ (fun inSet => outside (.inr ⟨_, member, inSet⟩))
    rw [Finset.mem_sort]
    exact fun inFree => outside (.inl inFree)

theorem Books.release {s : PageMem} {led : Ledger Nat} {f base : Nat} {tl xs ms ys : List Nat}
    (books : Books s led) (member : f :: tl ∈ led.sets) (split : f :: tl = xs ++ (base :: ms) ++ ys)
    (short : (f :: tl).length < 2 ^ 32) (small : s.nrPages < 2 ^ 64) :
    ∃ s', s.freePages (some base) (ms.length + 1) = .ok (some (ys.headD f), s') ∧
      Books s' (led.release (f :: tl) xs (base :: ms) ys member split) ∧
      SameGeometry s s' ∧ ∀ q, ¬ led.Owns q → s.Agree s' q := by
  have set := books.sets f tl member
  obtain ⟨s', l', run, free', perm, -, geometry, parts, -, agree⟩ := freePagesFrom_spec books.free set split small
  have all : (base :: ms).take ((ms.length + 1) % 2 ^ 32) = base :: ms := by
    have length := congrArg List.length split
    simp only [List.length_append, List.length_cons] at length short
    refine List.take_of_length_le ?_
    rw [List.length_cons, Nat.mod_eq_of_lt (by omega)]
  rw [all] at perm
  refine ⟨s', run, ⟨free'.release member split perm, ?_⟩, geometry, ?_⟩
  · intro g rest inside
    rcases List.mem_append.mp inside with part | old
    · have which : xs = g :: rest ∨ ys = g :: rest := by
        have inParts := (List.mem_filter.mp part).1
        simp only [List.mem_cons, List.not_mem_nil, or_false] at inParts
        exact inParts.imp Eq.symm Eq.symm
      exact (parts g rest which).1
    · refine books.keep (List.mem_of_mem_erase old) geometry (fun q inOther => agree q ?_ ?_)
      · rw [Finset.mem_sort]
        exact led.outside _ (List.mem_of_mem_erase old) q inOther
      · exact fun inSet => led.erase_apart member old inSet inOther
  · intro q outside
    refine agree q ?_ (fun inSet => outside (.inr ⟨_, member, inSet⟩))
    rw [Finset.mem_sort]
    exact fun inFree => outside (.inl inFree)

/-- Every answer of the books is the answer of the code, and is carried out. -/
theorem Books.exec {s : PageMem} {led led' : Ledger Nat} {op : PageOp} {r : Option Nat} (books : Books s led)
    (short : ∀ set ∈ led.sets, set.length < 2 ^ 32) (small : s.nrPages < 2 ^ 64) (served : Served led op r led') :
    ∃ s', s.exec op = .ok (r, s') ∧ Books s' led' ∧ SameGeometry s s' ∧ ∀ q, ¬ led.Owns q → s.Agree s' q := by
  cases served with
  | @refuse num positive scarce =>
    have few : led.free.sort.length < num := by
      rw [Finset.length_sort]
      exact scarce
    exact ⟨s, allocPages_none books.free few, books, .refl s, fun q _ => .refl s q⟩
  | grant positive enough first => exact books.grant positive enough first
  | freeAll member inside =>
    obtain ⟨s', run, rest⟩ := books.freeAll member inside (short _ member)
    exact ⟨s', by simp [PageMem.exec, run], rest⟩
  | free member split => exact books.release member split (short _ member) small

theorem initFreePageList_ring {L : Links PageNode} (empty : L.IsRing .freeList []) (i n : Nat) :
    (initFreePageList L i n).IsRing .freeList ((List.range' i n).map .page) := by
  induction n with
  | zero => exact empty
  | succ n ih =>
    have fresh : PageNode.page (i + n) ∉ PageNode.freeList :: (List.range' i n).map .page := by
      simp
    rw [List.range'_1_concat, List.map_append]
    exact ih.addBefore_head fresh

/-- The books when the kernel starts: the pages behind the page structures are free. -/
def bootLedger (nrPages : Nat) : Ledger Nat where
  free := Finset.Ico (pageArrayPages nrPages) nrPages
  sets := []
  nonempty := by simp
  sorted := by simp
  apart := .nil
  outside := by simp

theorem bootLedger_sort (nrPages : Nat) :
    (bootLedger nrPages).free.sort = List.range' (pageArrayPages nrPages) (nrPages - pageArrayPages nrPages) := by
  refine (Ledger.eq_sort List.pairwise_lt_range' ?_).symm
  intro p
  rw [List.mem_range'_1, bootLedger, Finset.mem_Ico]
  omega

theorem initPageArray_books (base nrPages : Nat) (L : Links PageNode) (mem : ByteMem) :
    Books (initPageArray base nrPages L mem) (bootLedger nrPages) := by
  refine ⟨?_, by simp [bootLedger]⟩
  rw [bootLedger_sort]
  constructor
  · simp only [initPageArray]
    exact initFreePageList_ring (Links.init_ring (initLinks L nrPages) .freeList) _ _
  · exact List.pairwise_lt_range'
  · rw [List.length_range']
    rfl
  · intro p member
    have high := (List.mem_range'_1.mp member).1
    simp only [initPageArray, if_neg (Nat.not_lt.mpr high)]
  · intro p member
    have bounds := List.mem_range'_1.mp member
    show p < nrPages
    omega

end PageMem

/-- The states of the page allocator between its operations, and the books of
its users. `asked` restricts the operations of the run. -/
inductive PageRun (asked : PageOp → Prop) (base nrPages : Nat) (L : Links PageNode) (mem : ByteMem) :
    PageMem → Ledger Nat → Prop
  | start : PageRun asked base nrPages L mem (initPageArray base nrPages L mem) (PageMem.bootLedger nrPages)
  | step {s s' : PageMem} {led led' : Ledger Nat} {op : PageOp} {r : Option Nat}
      (run : PageRun asked base nrPages L mem s led) (ask : asked op) (served : Served led op r led')
      (done : s.exec op = .ok (r, s')) : PageRun asked base nrPages L mem s' led'

/-- The pages counter is an unsigned int: sets this large lose their length. -/
def CountedPages : PageOp → Prop
  | .alloc num => num < 2 ^ 32
  | _ => True

/-- What the allocator keeps over a run. -/
structure PageRun.Kept (nrPages : Nat) (s : PageMem) (led : Ledger Nat) : Prop where
  books : s.Books led
  owns : ∀ p, led.Owns p ↔ pageArrayPages nrPages ≤ p ∧ p < nrPages
  boot : ∀ p, p < pageArrayPages nrPages → (s.page p).reserved = true
  pages : s.nrPages = nrPages
  short : ∀ set ∈ led.sets, set.length < 2 ^ 32

theorem Served.owns {led led' : Ledger Nat} {op : PageOp} {r : Option Nat} (served : Served led op r led') (p : Nat) :
    led'.Owns p ↔ led.Owns p := by
  cases served with
  | refuse => rfl
  | grant positive enough => exact led.grant_owns positive enough p
  | freeAll member => exact led.release_owns member _ p
  | free member split => exact led.release_owns member split p

theorem Served.short {led led' : Ledger Nat} {op : PageOp} {r : Option Nat} (served : Served led op r led')
    (counted : CountedPages op) (short : ∀ set ∈ led.sets, set.length < 2 ^ 32) :
    ∀ set ∈ led'.sets, set.length < 2 ^ 32 := by
  have released : ∀ {set xs mid ys : List Nat} (member : set ∈ led.sets) (split : set = xs ++ mid ++ ys),
      ∀ other ∈ (led.release set xs mid ys member split).sets, other.length < 2 ^ 32 := by
    intro set xs mid ys member split other inside
    have whole := short set member
    rw [split] at whole
    simp only [List.length_append] at whole
    rcases List.mem_append.mp inside with part | old
    · have which : other = xs ∨ other = ys := by simpa using (List.mem_filter.mp part).1
      rcases which with rfl | rfl <;> omega
    · exact short other (List.mem_of_mem_erase old)
  cases served with
  | refuse => exact short
  | @grant num _ _ positive enough first =>
    intro set member
    have bound : num < 2 ^ 32 := counted
    rcases List.mem_cons.mp member with rfl | old
    · simp only [Ledger.lowest, List.length_take]
      omega
    · exact short set old
  | freeAll member => exact released member _
  | free member split => exact released member split

theorem PageRun.kept {base nrPages : Nat} {L : Links PageNode} {mem : ByteMem} (size : nrPages < 2 ^ 50)
    {s : PageMem} {led : Ledger Nat} (run : PageRun CountedPages base nrPages L mem s led) :
    Kept nrPages s led := by
  induction run with
  | start =>
    refine ⟨PageMem.initPageArray_books base nrPages L mem, ?_, ?_, rfl, by simp [PageMem.bootLedger]⟩
    · intro p
      simp [Ledger.Owns, PageMem.bootLedger]
    · intro p low
      simp only [initPageArray, if_pos low]
  | @step s s' led led' op r _ ask served done ih =>
    have small : s.nrPages < 2 ^ 64 := by
      rw [ih.pages]
      omega
    obtain ⟨s'', done', books, geometry, agree⟩ := ih.books.exec ih.short small served
    obtain rfl : s'' = s' := by
      rw [done] at done'
      exact (Prod.mk.inj (Except.ok.inj done')).2.symm
    refine ⟨books, fun p => (served.owns p).trans (ih.owns p), ?_, geometry.pages.trans ih.pages,
      served.short ask ih.short⟩
    intro p low
    rw [(agree p (fun owned => by have high := ((ih.owns p).mp owned).1; omega)).page]
    exact ih.boot p low

/-- The state of the allocator is the one its comments promise: the free list
holds the unreserved pages in order, the sets of its users are ascending rings
that know their length and their first page, each page is in one of them, and
no operation a user may ask for stops the kernel. -/
structure WellKept (nrPages : Nat) (s : PageMem) (led : Ledger Nat) : Prop where
  freeList : ∃ l : List Nat, s.link.IsRing .freeList (l.map .page) ∧ l.Pairwise (· < ·) ∧
    (∀ p, p ∈ l ↔ p < nrPages ∧ (s.page p).reserved = false) ∧ s.nrFreePages = l.length
  rings : ∀ set ∈ led.sets, ∃ (f : Nat) (tl : List Nat), set = f :: tl ∧ s.link.IsRing (.page f) (tl.map .page) ∧
    set.Pairwise (· < ·) ∧ (s.page f).type ≠ .tail ∧ (s.page f).pageCount = set.length ∧
    ∀ p ∈ tl, (s.page p).type = .tail ∧ (s.page p).extra = .firstPage f
  disjoint : led.sets.Pairwise List.Disjoint
  reserved : ∀ set ∈ led.sets, ∀ p ∈ set, p < nrPages ∧ (s.page p).reserved = true
  covered : ∀ p, pageArrayPages nrPages ≤ p → p < nrPages →
    Xor ((s.page p).reserved = false) (∃! set, set ∈ led.sets ∧ p ∈ set)
  safe : ∀ op, Allowed led op → ∃ r s' led', s.exec op = .ok (r, s') ∧ Served led op r led'

namespace PageRun.Kept

variable {nrPages : Nat} {s : PageMem} {led : Ledger Nat}

theorem set_reserved (kept : Kept nrPages s led) {set : List Nat} {p : Nat} (member : set ∈ led.sets)
    (inside : p ∈ set) : (s.page p).reserved = true := by
  obtain ⟨f, tl, rfl⟩ := List.exists_cons_of_ne_nil (List.ne_nil_of_mem inside)
  exact (kept.books.sets f tl member).reserved p inside

/-- The pages of the free list are those that are not reserved. -/
theorem mem_free (kept : Kept nrPages s led) (p : Nat) :
    p ∈ led.free ↔ p < nrPages ∧ (s.page p).reserved = false := by
  constructor
  · intro free
    have listed : p ∈ led.free.sort := (Finset.mem_sort _).mpr free
    exact ⟨((kept.owns p).mp (.inl free)).2, kept.books.free.unreserved p listed⟩
  · rintro ⟨bound, unreserved⟩
    have high : pageArrayPages nrPages ≤ p := by
      by_contra low
      have boot := kept.boot p (Nat.lt_of_not_le low)
      rw [unreserved] at boot
      cases boot
    rcases (kept.owns p).mpr ⟨high, bound⟩ with free | ⟨set, member, inside⟩
    · exact free
    · have reserved := kept.set_reserved member inside
      rw [unreserved] at reserved
      cases reserved

theorem covered (kept : Kept nrPages s led) (p : Nat) (high : pageArrayPages nrPages ≤ p)
    (bound : p < nrPages) : Xor ((s.page p).reserved = false) (∃! set, set ∈ led.sets ∧ p ∈ set) := by
  rcases (kept.owns p).mpr ⟨high, bound⟩ with free | ⟨set, member, inside⟩
  · refine .inl ⟨((kept.mem_free p).mp free).2, ?_⟩
    rintro ⟨set, ⟨member, inside⟩, -⟩
    exact led.outside set member p inside free
  · refine .inr ⟨⟨set, ⟨member, inside⟩, fun other ⟨inOther, here⟩ => ?_⟩, ?_⟩
    · exact led.same_set inOther member here inside
    · rw [kept.set_reserved member inside]
      simp

theorem toWellKept (kept : Kept nrPages s led) (size : nrPages < 2 ^ 50) : WellKept nrPages s led where
  freeList := by
    refine ⟨led.free.sort, kept.books.free.ring, kept.books.free.sorted, ?_, kept.books.free.count⟩
    intro p
    rw [Finset.mem_sort]
    exact kept.mem_free p
  rings := by
    intro set member
    obtain ⟨f, tl, rfl⟩ := List.exists_cons_of_ne_nil (fun empty => led.nonempty (empty ▸ member))
    have known := kept.books.sets f tl member
    have short := kept.short _ member
    refine ⟨f, tl, rfl, known.ring, known.sorted, known.head, ?_, known.tails⟩
    rw [known.count]
    exact Nat.mod_eq_of_lt short
  disjoint := led.apart
  reserved := fun set member p inside =>
    ⟨((kept.owns p).mp (.inr ⟨set, member, inside⟩)).2, kept.set_reserved member inside⟩
  covered := kept.covered
  safe := by
    intro op allowed
    have small : s.nrPages < 2 ^ 64 := by
      rw [kept.pages]
      omega
    obtain ⟨r, led', served⟩ := served_of_allowed allowed
    obtain ⟨s', done, -⟩ := kept.books.exec kept.short small served
    exact ⟨r, s', led', done, served⟩

end PageRun.Kept

/-- Over every run that asks for fewer than `2 ^ 32` pages at a time the
allocator is well kept, and its free list is determined by the pages that are
free, whatever the order in which they were freed. -/
theorem PageRun.wellKept {base nrPages : Nat} {L : Links PageNode} {mem : ByteMem} (size : nrPages < 2 ^ 50)
    {s : PageMem} {led : Ledger Nat} (run : PageRun CountedPages base nrPages L mem s led) :
    WellKept nrPages s led ∧
      ∀ (s₂ : PageMem) (led₂ : Ledger Nat) (l l₂ : List Nat), PageRun CountedPages base nrPages L mem s₂ led₂ →
        (∀ p, p < nrPages → (s₂.page p).reserved = (s.page p).reserved) →
        s.link.IsRing .freeList (l.map .page) → s₂.link.IsRing .freeList (l₂.map .page) → l = l₂ := by
  have kept := run.kept size
  refine ⟨kept.toWellKept size, ?_⟩
  intro s₂ led₂ l l₂ run₂ same ring ring₂
  have kept₂ := run₂.kept size
  have injective : Function.Injective PageNode.page := fun _ _ same => PageNode.page.inj same
  have first : l = led.free.sort := List.map_injective_iff.mpr injective (ring.unique kept.books.free.ring)
  have second : l₂ = led₂.free.sort := List.map_injective_iff.mpr injective (ring₂.unique kept₂.books.free.ring)
  have free : led.free = led₂.free := by
    ext p
    rw [kept.mem_free, kept₂.mem_free]
    constructor <;> rintro ⟨bound, unreserved⟩ <;> refine ⟨bound, ?_⟩
    · rw [same p bound, unreserved]
    · rw [← same p bound, unreserved]
  rw [first, second, free]

theorem PageRun.wellKept_four :
    ∃ s led, PageRun CountedPages 0 4 ⟨id, id⟩ (fun _ => 0) s led ∧ led.sets = [[1, 2]] ∧ WellKept 4 s led := by
  have pages : (PageMem.bootLedger 4).free.sort = [1, 2, 3] := by
    refine (Ledger.eq_sort (by decide) ?_).symm
    intro p
    have occupied : pageArrayPages 4 = 1 := by decide
    simp only [PageMem.bootLedger, occupied, Finset.mem_Ico, List.mem_cons, List.not_mem_nil, or_false]
    omega
  have lowest : (PageMem.bootLedger 4).lowest 2 = [1, 2] := by rw [Ledger.lowest, pages]; rfl
  have enough : 2 ≤ (PageMem.bootLedger 4).free.card := by
    rw [← Finset.length_sort (· ≤ ·), pages]
    decide
  obtain ⟨s, done, -⟩ := (PageMem.initPageArray_books 0 4 ⟨id, id⟩ (fun _ => 0)).grant (by decide) enough lowest
  have few : CountedPages (.alloc 2) := by
    show 2 < 2 ^ 32
    decide
  have run := PageRun.step .start few
    (.grant (by decide) enough lowest) done
  exact ⟨s, _, run, congrArg (fun set => [set]) lowest, (PageRun.wellKept (by decide) run).1⟩

/-- Without the bound the counter of a set of `2 ^ 32` pages is 0. -/
theorem PageRun.not_wellKept :
    ¬ ∀ (base nrPages : Nat) (L : Links PageNode) (mem : ByteMem) (s : PageMem) (led : Ledger Nat),
      nrPages < 2 ^ 50 → PageRun (fun _ => True) base nrPages L mem s led → WellKept nrPages s led := by
  intro claim
  have books := PageMem.initPageArray_books 0 (2 ^ 33) ⟨id, id⟩ (fun _ => 0)
  have enough : 2 ^ 32 ≤ (PageMem.bootLedger (2 ^ 33)).free.card := by
    rw [PageMem.bootLedger, Nat.card_Ico]
    decide
  have length : ((PageMem.bootLedger (2 ^ 33)).lowest (2 ^ 32)).length = 2 ^ 32 := by
    simpa only [Ledger.lowest, List.length_take, Finset.length_sort, min_eq_left_iff] using enough
  obtain ⟨f, tl, lowest⟩ := List.exists_cons_of_length_pos (by rw [length]; decide :
    0 < ((PageMem.bootLedger (2 ^ 33)).lowest (2 ^ 32)).length)
  obtain ⟨s, done, books', -⟩ := books.grant (by decide) enough lowest
  have run : PageRun (fun _ => True) _ _ _ _ s _ := .step .start trivial (.grant (by decide) enough lowest) done
  have kept := claim _ _ _ _ _ _ (by decide) run
  have member : f :: tl ∈ ((PageMem.bootLedger (2 ^ 33)).grant (2 ^ 32) (by decide) enough).sets := by
    rw [← lowest]
    exact List.mem_cons_self ..
  obtain ⟨g, rest, same, -, -, -, count, -⟩ := kept.rings _ member
  obtain ⟨rfl, rfl⟩ := List.cons.inj same
  rw [(books'.sets f tl member).count, ← List.length_cons (a := f), ← lowest, length] at count
  exact absurd count (by decide)

end Xv6
