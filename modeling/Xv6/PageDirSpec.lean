import Xv6.PageSplit
import Xv6.PageTable
import Mathlib.Data.Finset.Card
import Mathlib.Data.Finset.Range

namespace Xv6.PageMem

/-- The lists of the allocator are those of `s`: no page was taken or given back. -/
structure SameLists (s s' : PageMem) : Prop where
  link : s'.link = s.link
  free : s'.nrFreePages = s.nrFreePages
  reserved : ∀ p, (s'.page p).reserved = (s.page p).reserved
  geometry : SameGeometry s s'

theorem SameLists.freeList {s s' : PageMem} {l : List Nat} (same : SameLists s s') (free : FreeList s l) :
    FreeList s' l := by
  refine ⟨by rw [same.link]; exact free.ring, free.sorted, same.free.trans free.count, ?_, ?_⟩
  · intro p member
    rw [same.reserved]
    exact free.unreserved p member
  · intro p member
    rw [same.geometry.pages]
    exact free.bound p member

/-- A word of the directory in page `d`. -/
def slot (s : PageMem) (d i : Nat) : Nat := s.pdeGetEntry (s.pageToKvaddr d) i

/-- The indices of a directory. Irreducible, for a defeq check must not count them. -/
@[irreducible] def indices : Finset Nat := Finset.range 2048

theorem mem_indices {i : Nat} : i ∈ indices ↔ i < 2048 := by rw [indices, Finset.mem_range]

theorem card_indices : indices.card = 2048 := by rw [indices, Finset.card_range]

/-- The number of words of the directory that are in use. -/
def used (s : PageMem) (d : Nat) : Nat := (indices.filter (fun i => s.slot d i ≠ 0)).card

theorem Agree.slot {s s' : PageMem} {d i : Nat} (agree : s.Agree s' d) (geometry : SameGeometry s s')
    (bound : i < 2048) : s'.slot d i = s.slot d i := by
  rw [PageMem.slot, PageMem.slot, pdeGetEntry, pdeGetEntry, geometry.kvaddr]
  exact ByteMem.load_congr (fun x lower upper => agree.mem x (by omega) (by omega))

theorem used_congr {s s' : PageMem} {d : Nat} (same : ∀ i, i < 2048 → s'.slot d i = s.slot d i) :
    s'.used d = s.used d := by
  refine congrArg Finset.card (Finset.filter_congr (fun i member => ?_))
  rw [same i (mem_indices.mp member)]

theorem used_le (s : PageMem) (d : Nat) : s.used d ≤ 2048 := by
  rw [← card_indices]
  exact Finset.card_filter_le indices (fun i => s.slot d i ≠ 0)

/-- A directory in use: a set of one page whose structure counts its entries. -/
structure IsDir (s : PageMem) (d : Nat) : Prop where
  set : AllocSet s d []
  type : (s.page d).type = .pgdir
  entries : ∃ asid, (s.page d).extra = .pgdir (s.used d) asid

theorem IsDir.frame {s s' : PageMem} {d : Nat} (dir : IsDir s d) (geometry : SameGeometry s s')
    (agree : s.Agree s' d) : IsDir s' d := by
  refine ⟨dir.set.frame geometry (by simpa using agree), by rw [agree.page]; exact dir.type, ?_⟩
  rw [agree.page, used_congr (fun i bound => agree.slot geometry bound)]
  exact dir.entries

theorem IsDir.not_free {s : PageMem} {d : Nat} {l : List Nat} (dir : IsDir s d) (free : FreeList s l) : d ∉ l :=
  dir.set.disjoint_free free (by simp)

theorem IsDir.pgdirExtra {s : PageMem} {d : Nat} (dir : IsDir s d) : (s.pgdirExtra d).1 = s.used d := by
  obtain ⟨asid, extra⟩ := dir.entries
  rw [PageMem.pgdirExtra, extra]

theorem IsDir.check {s : PageMem} {d : Nat} (dir : IsDir s d) : s.pgdirCheck d = .ok () := by
  rw [pgdirCheck, if_pos dir.type]

theorem IsDir.pgdirEmpty {s : PageMem} {d : Nat} (dir : IsDir s d) : s.pgdirEmpty d = (s.used d == 0) := by
  rw [PageMem.pgdirEmpty, dir.pgdirExtra]

/-- A directory that counts no entry has none. -/
theorem used_eq_zero {s : PageMem} {d : Nat} : s.used d = 0 ↔ ∀ i, i < 2048 → s.slot d i = 0 := by
  rw [used, Finset.card_eq_zero, Finset.filter_eq_empty_iff]
  constructor
  · intro none i bound
    by_contra nonzero
    exact none (mem_indices.mpr bound) nonzero
  · intro zero i member nonzero
    exact nonzero (zero i (mem_indices.mp member))

theorem kvaddr_setEntry (s : PageMem) (dir i w p : Nat) :
    (s.setEntry dir i w).pageToKvaddr p = s.pageToKvaddr p :=
  SameGeometry.kvaddr ⟨rfl, rfl⟩ p

theorem mem_setEntry (s : PageMem) (dir i w : Nat) :
    (s.setEntry dir i w).mem = s.mem.store (dir + 8 * i) 8 w := rfl

theorem setEntry_outside {s : PageMem} {d i w x : Nat} (bound : i < 2048) (outside : ¬ s.InPage d x) :
    (s.setEntry (s.pageToKvaddr d) i w).mem x = s.mem x := by
  simp only [InPage] at outside
  rw [mem_setEntry, ByteMem.store_outside (by omega)]

theorem slot_setEntry {s : PageMem} {d i w j : Nat} (fits : w < 2 ^ 64) :
    (s.setEntry (s.pageToKvaddr d) i w).slot d j = if j = i then w else s.slot d j := by
  rw [slot, slot, pdeGetEntry, pdeGetEntry, kvaddr_setEntry, mem_setEntry]
  by_cases same : j = i
  · subst same
    rw [if_pos rfl, ByteMem.load_store (by norm_num; exact fits)]
  · rw [if_neg same, ByteMem.load_store_apart (by omega)]

/-- A state that differs from `s` in the directory `d` only: the word `i` is `w`,
and the structure counts `n` entries. -/
structure Wrote (s s' : PageMem) (d i w n : Nat) : Prop where
  lists : SameLists s s'
  slot : ∀ j, s'.slot d j = if j = i then w else s.slot d j
  page : ∃ asid, s'.page d = { s.page d with extra := .pgdir n asid }
  agree : ∀ q, q ≠ d → s.Agree s' q
  freeLink : s.link.Same s'.link .freeList

theorem wrote_entry {s : PageMem} {d i w n : Nat} (asid : Nat) (bound : i < 2048) (fits : w < 2 ^ 64) :
    Wrote s ((s.setPgdirExtra d n asid).setEntry (s.pageToKvaddr d) i w) d i w (n % 2 ^ 32) := by
  refine ⟨⟨rfl, rfl, ?_, ⟨rfl, rfl⟩⟩, ?_, ⟨asid, by simp [setEntry, setPgdirExtra, setPage]⟩, ?_, .refl _ _⟩
  · intro p
    by_cases same : p = d
    · subst same
      simp [setEntry, setPgdirExtra, setPage]
    · simp [setEntry, setPgdirExtra, setPage, same]
  · exact fun j => slot_setEntry (s := s.setPgdirExtra d n asid) fits
  · intro q other
    refine ⟨by simp [setEntry, setPgdirExtra, setPage, other], .refl _ _, ?_⟩
    intro x lower upper
    refine setEntry_outside (s := s.setPgdirExtra d n asid) bound ?_
    exact fun inside => other (InPage.unique ⟨lower, upper⟩ inside)

/-- Writing a word keeps a directory when its counter follows. -/
theorem Wrote.isDir {s s' : PageMem} {d i w n : Nat} (wrote : Wrote s s' d i w n) (dir : IsDir s d)
    (counted : n = s'.used d) : IsDir s' d := by
  obtain ⟨asid, page⟩ := wrote.page
  have set := dir.set
  refine ⟨⟨?_, set.sorted, ?_, ?_, ?_, ?_, by simp⟩, ?_, ⟨asid, ?_⟩⟩
  · rw [wrote.lists.link]
    exact set.ring
  · intro p member
    rw [wrote.lists.reserved]
    exact set.reserved p member
  · intro p member
    rw [wrote.lists.geometry.pages]
    exact set.bound p member
  · rw [page]
    exact set.head
  · rw [page]
    exact set.count
  · rw [page]
    exact dir.type
  · rw [page, counted]

theorem Wrote.used_insert {s s' : PageMem} {d i w n : Nat} (wrote : Wrote s s' d i w n) (bound : i < 2048)
    (free : s.slot d i = 0) (nonzero : w ≠ 0) : s'.used d = s.used d + 1 := by
  have filter : indices.filter (fun j => s'.slot d j ≠ 0) =
      insert i (indices.filter (fun j => s.slot d j ≠ 0)) := by
    ext j
    by_cases same : j = i
    · subst same
      simp [wrote.slot, mem_indices.mpr bound, nonzero]
    · simp [wrote.slot, same]
  rw [used, filter, Finset.card_insert_of_notMem (by simp [free]), used]

theorem Wrote.used_erase {s s' : PageMem} {d i n : Nat} (wrote : Wrote s s' d i 0 n) (bound : i < 2048)
    (taken : s.slot d i ≠ 0) : s'.used d + 1 = s.used d := by
  have filter : indices.filter (fun j => s'.slot d j ≠ 0) =
      (indices.filter (fun j => s.slot d j ≠ 0)).erase i := by
    ext j
    by_cases same : j = i
    · subst same
      simp [wrote.slot]
    · simp [wrote.slot, same]
  rw [used, filter, used]
  exact Finset.card_erase_add_one (by simp [mem_indices.mpr bound, taken])

theorem pgdirAddEntry_spec {s : PageMem} {d i p flags : Nat} (dir : IsDir s d) (bound : i < 2048)
    (unused : s.slot d i = 0) (nonzero : s.pgdirEntry p flags ≠ 0) (fits : s.pgdirEntry p flags < 2 ^ 64) :
    ∃ s' n, s.pgdirAddEntry d i p flags = .ok (s.pageToKvaddr p, s') ∧ IsDir s' d ∧
      Wrote s s' d i (s.pgdirEntry p flags) n := by
  have wrote := wrote_entry (s := s) (d := d) (n := s.used d + 1) (s.pgdirExtra d).2 bound fits
  refine ⟨_, _, ?_, wrote.isDir dir ?_, wrote⟩
  · have zero : s.pdeGetEntry (s.pageToKvaddr d) i = 0 := unused
    simp only [pgdirAddEntry, dir.check, Res.ok_bind, zero, ne_eq, not_true, if_false, dir.pgdirExtra]
    rfl
  · rw [wrote.used_insert bound unused nonzero]
    have le := s.used_le d
    omega

theorem pgdirRemoveEntry_spec {s : PageMem} {d i : Nat} (dir : IsDir s d) (bound : i < 2048)
    (taken : s.slot d i ≠ 0) :
    ∃ s' n, s.pgdirRemoveEntry d i = .ok (entryAddr (s.slot d i), s') ∧ IsDir s' d ∧ Wrote s s' d i 0 n := by
  have wrote := wrote_entry (s := s) (d := d) (n := s.used d + 2 ^ 32 - 1) (s.pgdirExtra d).2 bound
    (by decide : 0 < 2 ^ 64)
  refine ⟨_, _, ?_, wrote.isDir dir ?_, wrote⟩
  · simp only [pgdirRemoveEntry, dir.check, Res.ok_bind, dir.pgdirExtra]
    rfl
  · have count := wrote.used_erase bound taken
    have le := s.used_le d
    omega

/-- Physical addresses have 48 bits. -/
def PhysBound (s : PageMem) : Prop := s.highmemBasePfn + s.nrPages ≤ 2 ^ 34

theorem PhysBound.frame {s s' : PageMem} (phys : PhysBound s) (geometry : SameGeometry s s') : PhysBound s' := by
  rw [PhysBound, geometry.base, geometry.pages]
  exact phys

theorem PhysBound.kvaddr_lt {s : PageMem} (phys : PhysBound s) {p : Nat} (bound : p < s.nrPages) :
    s.pageToKvaddr p < 2 ^ 64 := by
  rw [PhysBound] at phys
  rw [pageToKvaddr_eq]
  omega

theorem PhysBound.nrPages_lt {s : PageMem} (phys : PhysBound s) : s.nrPages < 2 ^ 64 := by
  rw [PhysBound] at phys
  omega

theorem kvaddr_pos (s : PageMem) (p : Nat) : s.pageToKvaddr p ≠ 0 := by
  rw [pageToKvaddr_eq]
  omega

theorem kvaddr_injective {s : PageMem} {p q : Nat} (same : s.pageToKvaddr p = s.pageToKvaddr q) : p = q := by
  rw [pageToKvaddr_eq, pageToKvaddr_eq] at same
  omega

theorem kvaddrToPage_kvaddr (s : PageMem) (p : Nat) : s.kvaddrToPage (s.pageToKvaddr p) = .ok p := by
  have start := s.kvaddrToPage_eq (p := p) (by decide : 0 < 16384)
  rwa [Nat.add_zero] at start

/-- A directory entry is no physical address, and stands for its own page. -/
theorem entryAddr_kvaddr (s : PageMem) (p : Nat) : entryAddr (s.pageToKvaddr p) = s.pageToKvaddr p := by
  have even : s.pageToKvaddr p &&& ptePhys = 0 := by
    rw [ptePhys, Nat.and_one_is_mod, pageToKvaddr_eq]
    omega
  rw [entryAddr, if_pos even]

theorem pgdirEntry_zero (s : PageMem) (p : Nat) : s.pgdirEntry p 0 = s.pageToKvaddr p := by
  rw [pgdirEntry, Nat.zero_and, if_pos rfl]

/-- A fresh directory is a free page less, all of its words 0. -/
theorem pgdirNew_spec {s : PageMem} {x : Nat} {rest : List Nat} (free : FreeList s (x :: rest)) (asid : Nat) :
    ∃ s', s.pgdirNew asid = .ok (some x, s') ∧ FreeList s' rest ∧ IsDir s' x ∧
      (∀ i, i < 2048 → s'.slot x i = 0) ∧ SameGeometry s s' ∧ ∀ p, p ∉ x :: rest → s.Agree s' p := by
  obtain ⟨s₁, run, free₁, set, -, geometry, mem, agree⟩ := allocPage_spec free
  have zero : ∀ i, i < 2048 → (s₁.pgdirInit x asid).slot x i = 0 := by
    intro i bound
    have address : (s₁.pgdirInit x asid).pageToKvaddr x = s₁.pageToKvaddr x := SameGeometry.kvaddr ⟨rfl, rfl⟩ x
    have memory : (s₁.pgdirInit x asid).mem = s₁.mem.fill (s₁.pageToKvaddr x) pgsize 0 := by
      simp only [pgdirInit, setType, setPgdirExtra, setPage]
    rw [slot, pdeGetEntry, address, memory]
    exact ByteMem.load_fill_zero (by omega) (by simp only [pgsize]; omega)
  have page : (s₁.pgdirInit x asid).page x = { s₁.page x with type := .pgdir, extra := .pgdir 0 asid } := by
    simp [pgdirInit, setType, setPgdirExtra, setPage]
  have other : ∀ p, p ≠ x → (s₁.pgdirInit x asid).page p = s₁.page p := by
    intro p different
    simp [pgdirInit, setType, setPgdirExtra, setPage, different]
  have lists : SameLists s₁ (s₁.pgdirInit x asid) := by
    refine ⟨rfl, rfl, ?_, ⟨rfl, rfl⟩⟩
    intro p
    by_cases same : p = x
    · rw [same, page]
    · rw [other p same]
  refine ⟨s₁.pgdirInit x asid, ?_, lists.freeList free₁, ⟨⟨set.ring, set.sorted, ?_, set.bound, ?_, ?_, by simp⟩, ?_, ?_⟩,
    zero, geometry.trans lists.geometry, ?_⟩
  · simp only [pgdirNew, run, Res.ok_bind]
  · intro p member
    rw [lists.reserved]
    exact set.reserved p member
  · rw [page]
    simp
  · rw [page]
    exact set.count
  · rw [page]
  · rw [page, used_eq_zero.mpr zero]
    exact ⟨asid, rfl⟩
  · intro p absent
    have different : p ≠ x := fun same => absent (by simp [same])
    refine (agree p absent).trans geometry ⟨other p different, .refl _ _, ?_⟩
    intro y lower upper
    refine ByteMem.fill_outside ?_
    rw [pageToKvaddr_eq] at lower upper ⊢
    simp only [pgsize]
    omega

theorem pgdirNew_none {s : PageMem} (free : FreeList s []) (asid : Nat) : s.pgdirNew asid = .ok (none, s) := by
  have none : s.allocPage = .ok (none, s) := allocPages_none free (by decide)
  simp only [pgdirNew, none, Res.ok_bind]

/-- `pgfree` of a set of one page. -/
theorem pgfree_spec {s : PageMem} {d : Nat} {l : List Nat} (free : FreeList s l) (set : AllocSet s d [])
    (small : s.nrPages < 2 ^ 64) :
    ∃ s' l', s.pgfree (some d) = .ok s' ∧ FreeList s' l' ∧ l'.Perm (d :: l) ∧ SameGeometry s s' ∧
      Shredded s s' [d] ∧ ∀ p, p ∉ l → p ≠ d → s.Agree s' p := by
  obtain ⟨s', l', run, free', perm, shredded, geometry, -, -, agree⟩ :=
    freePagesFrom_spec free set (by simp : [d] = [] ++ (d :: []) ++ []) small
  refine ⟨s', l', ?_, free', perm, geometry, shredded, fun p outside other => agree p outside (by simpa using other)⟩
  have step : s.freePages (some d) 1 = .ok (some ([].headD d), s') := run
  simp only [pgfree, step, Res.ok_bind]

theorem pgdirAddPgdir_none {s : PageMem} {d i : Nat} (dir : IsDir s d) (free : FreeList s []) :
    s.pgdirAddPgdir d i = .ok (0, s) := by
  simp only [pgdirAddPgdir, dir.check, Res.ok_bind, pgdirNew_none free]

/-- A new directory goes into a word that is not in use. -/
theorem pgdirAddPgdir_spec {s : PageMem} {d i x : Nat} {rest : List Nat} (dir : IsDir s d) (bound : i < 2048)
    (unused : s.slot d i = 0) (free : FreeList s (x :: rest)) (phys : PhysBound s) :
    ∃ s', s.pgdirAddPgdir d i = .ok (s.pageToKvaddr x, s') ∧ FreeList s' rest ∧ IsDir s' d ∧ IsDir s' x ∧
      (∀ j, j < 2048 → s'.slot d j = if j = i then s.pageToKvaddr x else s.slot d j) ∧
      (∀ j, j < 2048 → s'.slot x j = 0) ∧ SameGeometry s s' ∧
      ∀ p, p ∉ x :: rest → p ≠ d → s.Agree s' p := by
  obtain ⟨s₁, new, free₁, newDir, zero, geometry₁, agree₁⟩ := pgdirNew_spec free (s.pgdirExtra d).2
  have dOut : d ∉ x :: rest := dir.not_free free
  have dx : x ≠ d := fun same => dOut (by simp [same])
  have dir₁ := dir.frame geometry₁ (agree₁ d dOut)
  have same₁ : ∀ j, j < 2048 → s₁.slot d j = s.slot d j := fun j small => (agree₁ d dOut).slot geometry₁ small
  have unused₁ : s₁.slot d i = 0 := (same₁ i bound).trans unused
  have small : s₁.pageToKvaddr x < 2 ^ 64 := by
    rw [geometry₁.kvaddr]
    exact phys.kvaddr_lt (free.bound x (by simp))
  have nonzero : s₁.pgdirEntry x 0 ≠ 0 := by
    rw [pgdirEntry_zero]
    exact kvaddr_pos s₁ x
  have fits : s₁.pgdirEntry x 0 < 2 ^ 64 := by
    rw [pgdirEntry_zero]
    exact small
  obtain ⟨s₂, n, add, dir₂, wrote⟩ := pgdirAddEntry_spec dir₁ bound unused₁ nonzero fits
  have geometry := geometry₁.trans wrote.lists.geometry
  refine ⟨s₂, ?_, wrote.lists.freeList free₁, dir₂, newDir.frame wrote.lists.geometry (wrote.agree x dx), ?_, ?_,
    geometry, ?_⟩
  · simp only [pgdirAddPgdir, dir.check, Res.ok_bind, new, add, geometry₁.kvaddr]
  · intro j small
    rw [wrote.slot, pgdirEntry_zero, geometry₁.kvaddr, same₁ j small]
  · intro j small
    rw [(wrote.agree x dx).slot wrote.lists.geometry small, zero j small]
  · intro p outFree other
    exact (agree₁ p outFree).trans geometry₁ (wrote.agree p other)

/-- A word is cleared, and the directory it led to is freed when it is empty. -/
theorem pgdirRemovePgdir_spec {s : PageMem} {d i c : Nat} {l : List Nat} (dir : IsDir s d) (bound : i < 2048)
    (child : IsDir s c) (different : c ≠ d) (word : s.slot d i = s.pageToKvaddr c) (free : FreeList s l)
    (small : s.nrPages < 2 ^ 64) :
    ∃ s' l', s.pgdirRemovePgdir d i = .ok s' ∧ FreeList s' l' ∧
      l'.Perm (if s.used c = 0 then c :: l else l) ∧ IsDir s' d ∧
      (∀ j, j < 2048 → s'.slot d j = if j = i then 0 else s.slot d j) ∧ SameGeometry s s' ∧
      ∀ p, p ∉ l → p ≠ d → (p = c → s.used c ≠ 0) → s.Agree s' p := by
  have taken : s.slot d i ≠ 0 := by
    rw [word]
    exact kvaddr_pos s c
  obtain ⟨s₁, n, remove, dir₁, wrote⟩ := pgdirRemoveEntry_spec dir bound taken
  rw [word, entryAddr_kvaddr] at remove
  have geometry₁ := wrote.lists.geometry
  have free₁ := wrote.lists.freeList free
  have child₁ := child.frame geometry₁ (wrote.agree c different)
  have used₁ : s₁.used c = s.used c := used_congr (fun j small => (wrote.agree c different).slot geometry₁ small)
  have back : s₁.kvaddrToPage (s.pageToKvaddr c) = .ok c := by
    rw [← geometry₁.kvaddr]
    exact kvaddrToPage_kvaddr s₁ c
  by_cases empty : s.used c = 0
  · have small₁ : s₁.nrPages < 2 ^ 64 := by
      rw [geometry₁.pages]
      exact small
    obtain ⟨s₂, l', release, free₂, perm, geometry₂, -, agree₂⟩ := pgfree_spec free₁ child₁.set small₁
    have dOut : d ∉ l := dir.not_free free
    have dAgree := agree₂ d dOut different.symm
    refine ⟨s₂, l', ?_, free₂, by rw [if_pos empty]; exact perm, dir₁.frame geometry₂ dAgree, ?_,
      geometry₁.trans geometry₂, ?_⟩
    · have isEmpty : s₁.pgdirEmpty c = true := by rw [child₁.pgdirEmpty, used₁, empty]; rfl
      simp only [pgdirRemovePgdir, dir.check, Res.ok_bind, remove, back, isEmpty, if_true, pgdirDelete,
        child₁.check, release]
    · intro j small
      rw [dAgree.slot geometry₂ small, wrote.slot]
    · intro p outFree other notChild
      have pc : p ≠ c := fun same => notChild same empty
      exact (wrote.agree p other).trans geometry₁ (agree₂ p outFree pc)
  · refine ⟨s₁, l, ?_, free₁, by rw [if_neg empty], dir₁, fun j _ => wrote.slot j, geometry₁,
      fun p _ other _ => wrote.agree p other⟩
    have notEmpty : s₁.pgdirEmpty c = false := by
      rw [child₁.pgdirEmpty, used₁]
      simp [empty]
    simp only [pgdirRemovePgdir, dir.check, Res.ok_bind, remove, back, notEmpty, Bool.false_eq_true, if_false]

end Xv6.PageMem
