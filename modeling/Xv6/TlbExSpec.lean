import Xv6.TlbEx
import Xv6.TlbRuns

namespace Xv6

namespace TlbEx

section Blocks

variable {mem : ByteMem} {asidTaskSet random : Nat} (n v : Nat) (c : Cpu)

/-- From the entry of the handler to the first branch: the root of the table is loaded. -/
theorem exec_root (k0 k1 : Nat) :
    exec mem asidTaskSet random (n + 7) (entered c v k0 k1) =
      exec mem asidTaskSet random n
        ⟨7, 8, v, mem.load (((c.entryHi &&& enthiAsidMask) <<< 3 % 2 ^ 64 + asidTaskSet) % 2 ^ 64) 8, v, c⟩ :=
  rfl

/-- At each of the three branches a missing directory leads to the generic handler. -/
theorem exec_no_pgd (k0 : Nat) :
    exec mem asidTaskSet random (n + 5) ⟨7, 8, k0, 0, v, c⟩ =
      some (.generic, ⟨exceptGeneric, exceptGeneric + 1, k0 >>> pgdOffset, 0, v, c⟩) :=
  rfl

theorem exec_no_pmd (k0 : Nat) :
    exec mem asidTaskSet random (n + 5) ⟨14, 15, k0, 0, v, c⟩ =
      some (.generic, ⟨exceptGeneric, exceptGeneric + 1, k0 >>> pmdOffset, 0, v, c⟩) :=
  rfl

theorem exec_no_pte (k0 : Nat) :
    exec mem asidTaskSet random (n + 5) ⟨21, 22, k0, 0, v, c⟩ =
      some (.generic, ⟨exceptGeneric, exceptGeneric + 1, k0 >>> pteOffset, 0, v, c⟩) :=
  rfl

theorem exec_pgd {pgd : Nat} (present : pgd ≠ 0) :
    exec mem asidTaskSet random (n + 7) ⟨7, 8, v, pgd, v, c⟩ =
      exec mem asidTaskSet random n
        ⟨14, 15, v, mem.load ((pgd + (v >>> pgdOffset &&& pdeMask) <<< 3 % 2 ^ 64) % 2 ^ 64) 8, v, c⟩ := by
  have branch : (if pgd = 0 then label1 else 9) = 9 := if_neg present
  calc exec mem asidTaskSet random (n + 7) ⟨7, 8, v, pgd, v, c⟩
      = exec mem asidTaskSet random (n + 5)
          ⟨if pgd = 0 then label1 else 9, (if pgd = 0 then label1 else 9) + 1, v >>> pgdOffset, pgd, v, c⟩ := rfl
    _ = exec mem asidTaskSet random (n + 5) ⟨9, 10, v >>> pgdOffset, pgd, v, c⟩ := by rw [branch]
    _ = _ := rfl

theorem exec_pmd {pmd : Nat} (present : pmd ≠ 0) :
    exec mem asidTaskSet random (n + 7) ⟨14, 15, v, pmd, v, c⟩ =
      exec mem asidTaskSet random n
        ⟨21, 22, v, mem.load ((pmd + (v >>> pmdOffset &&& pdeMask) <<< 3 % 2 ^ 64) % 2 ^ 64) 8, v, c⟩ := by
  have branch : (if pmd = 0 then label1 else 16) = 16 := if_neg present
  calc exec mem asidTaskSet random (n + 7) ⟨14, 15, v, pmd, v, c⟩
      = exec mem asidTaskSet random (n + 5)
          ⟨if pmd = 0 then label1 else 16, (if pmd = 0 then label1 else 16) + 1, v >>> pmdOffset, pmd, v, c⟩ := rfl
    _ = exec mem asidTaskSet random (n + 5) ⟨16, 17, v >>> pmdOffset, pmd, v, c⟩ := by rw [branch]
    _ = _ := rfl

/-- The even word is loaded, and the address of the odd one is at hand. -/
theorem exec_pte {pte : Nat} (present : pte ≠ 0) :
    exec mem asidTaskSet random (n + 7) ⟨21, 22, v, pte, v, c⟩ =
      let even := (pte + (v >>> pteOffset &&& (pdeMask - 1)) <<< 3 % 2 ^ 64) % 2 ^ 64
      exec mem asidTaskSet random n ⟨28, 29, (even + 8) % 2 ^ 64, mem.load even 8, v, c⟩ := by
  have branch : (if pte = 0 then label1 else 23) = 23 := if_neg present
  calc exec mem asidTaskSet random (n + 7) ⟨21, 22, v, pte, v, c⟩
      = exec mem asidTaskSet random (n + 5)
          ⟨if pte = 0 then label1 else 23, (if pte = 0 then label1 else 23) + 1, v >>> pteOffset, pte, v, c⟩ := rfl
    _ = exec mem asidTaskSet random (n + 5) ⟨23, 24, v >>> pteOffset, pte, v, c⟩ := by rw [branch]
    _ = _ := rfl

/-- Label `2`: the P bit is cleared, the words are rotated and go to the TLB. -/
theorem exec_clear (k0 k1 : Nat) :
    exec mem asidTaskSet random (n + 4) ⟨34, 35, k0, k1, v, c⟩ =
      exec mem asidTaskSet random n ⟨38, 39, (k0 ||| ptePhys) ^^^ ptePhys, (k1 ||| ptePhys) ^^^ ptePhys, v, c⟩ :=
  rfl

theorem exec_rotate (k0 k1 : Nat) :
    exec mem asidTaskSet random (n + 2) ⟨38, 39, k0, k1, v, c⟩ =
      exec mem asidTaskSet random n ⟨40, 41, rotateRight k0 pteSoftShift, rotateRight k1 pteSoftShift, v, c⟩ :=
  rfl

theorem exec_write (k0 k1 : Nat) :
    exec mem asidTaskSet random (n + 4) ⟨40, 41, k0, k1, v, c⟩ =
      some (.eret, ⟨43, 44, k0, k1, v, { c with entryLo0 := k1, entryLo1 := k0 }.tlbwr random⟩) :=
  rfl

theorem exec_found (k0 k1 : Nat) :
    exec mem asidTaskSet random (n + 10) ⟨34, 35, k0, k1, v, c⟩ =
      some (.eret, ⟨43, 44, entryLo k0, entryLo k1, v,
        { c with entryLo0 := entryLo k1, entryLo1 := entryLo k0 }.tlbwr random⟩) := by
  rw [exec_clear (n + 6), exec_rotate (n + 4), exec_write n]
  simp only [entryLo]

/-- Both branches on the words: the odd one is loaded in the first delay slot. -/
theorem exec_even (odd : Nat) {even : Nat} (present : even ≠ 0) :
    exec mem asidTaskSet random (n + 2) ⟨28, 29, odd, even, v, c⟩ =
      exec mem asidTaskSet random n ⟨34, 35, mem.load odd 8, even, v, c⟩ := by
  have branch : (if even ≠ 0 then label2 else 30) = 34 := if_pos present
  calc exec mem asidTaskSet random (n + 2) ⟨28, 29, odd, even, v, c⟩
      = exec mem asidTaskSet random n
          ⟨if even ≠ 0 then label2 else 30, (if even ≠ 0 then label2 else 30) + 1, mem.load odd 8, even, v, c⟩ := rfl
    _ = _ := by rw [branch]

theorem exec_no_even (odd : Nat) :
    exec mem asidTaskSet random (n + 2) ⟨28, 29, odd, 0, v, c⟩ =
      exec mem asidTaskSet random n ⟨30, 31, mem.load odd 8, 0, v, c⟩ :=
  rfl

theorem exec_odd {odd : Nat} (present : odd ≠ 0) :
    exec mem asidTaskSet random (n + 2) ⟨30, 31, odd, 0, v, c⟩ =
      exec mem asidTaskSet random n ⟨34, 35, odd, 0, v, c⟩ := by
  have branch : (if odd ≠ 0 then label2 else 32) = 34 := if_pos present
  calc exec mem asidTaskSet random (n + 2) ⟨30, 31, odd, 0, v, c⟩
      = exec mem asidTaskSet random n
          ⟨if odd ≠ 0 then label2 else 32, (if odd ≠ 0 then label2 else 32) + 1, odd, 0, v, c⟩ := rfl
    _ = _ := by rw [branch]

theorem exec_no_odd :
    exec mem asidTaskSet random (n + 5) ⟨30, 31, 0, 0, v, c⟩ =
      some (.generic, ⟨exceptGeneric, exceptGeneric + 1, 0, 0, v, c⟩) :=
  rfl

end Blocks

/-- The handler is left in this way, with this processor; BADVADDR is kept. -/
def Leaves (mem : ByteMem) (asidTaskSet random : Nat) (s : State) (exit : Exit) (c : Cpu) : Prop :=
  ∃ n t, exec mem asidTaskSet random n s = some (exit, t) ∧ t.cpu = c ∧ t.badVaddr = s.badVaddr

section Walk

variable {mem : ByteMem} {asidTaskSet random : Nat}

theorem Leaves.back {k : Nat} {s t : State} {exit : Exit} {c : Cpu}
    (steps : ∀ n, exec mem asidTaskSet random (n + k) s = exec mem asidTaskSet random n t)
    (same : t.badVaddr = s.badVaddr) (leaves : Leaves mem asidTaskSet random t exit c) :
    Leaves mem asidTaskSet random s exit c := by
  obtain ⟨n, u, run, cpu, kept⟩ := leaves
  exact ⟨n + k, u, (steps n).trans run, cpu, kept.trans same⟩

theorem leaves_found (k0 k1 v : Nat) (c : Cpu) :
    Leaves mem asidTaskSet random ⟨34, 35, k0, k1, v, c⟩ .eret
      ({ c with entryLo0 := entryLo k1, entryLo1 := entryLo k0 }.tlbwr random) :=
  ⟨10, _, exec_found 0 v c k0 k1, rfl, rfl⟩

theorem leaves_pair (odd even v : Nat) (c : Cpu) (some : ¬ (even = 0 ∧ mem.load odd 8 = 0)) :
    Leaves mem asidTaskSet random ⟨28, 29, odd, even, v, c⟩ .eret
      ({ c with entryLo0 := entryLo even, entryLo1 := entryLo (mem.load odd 8) }.tlbwr random) := by
  by_cases first : even = 0
  · subst first
    have second : mem.load odd 8 ≠ 0 := fun none => some ⟨rfl, none⟩
    refine .back (fun n => exec_no_even n v c odd) rfl ?_
    exact .back (fun n => exec_odd n v c second) rfl (leaves_found _ _ v c)
  · exact .back (fun n => exec_even n v c odd first) rfl (leaves_found _ _ v c)

theorem leaves_no_pair (odd v : Nat) (c : Cpu) (none : mem.load odd 8 = 0) :
    Leaves mem asidTaskSet random ⟨28, 29, odd, 0, v, c⟩ .generic c := by
  refine .back (fun n => exec_no_even n v c odd) rfl ?_
  rw [none]
  exact ⟨5, _, exec_no_odd 0 v c, rfl, rfl⟩

end Walk

end TlbEx

/-- Calls of `pgtable_insert` and `pgtable_remove` on the table whose root
`pgdir_new` made in `s₀`, whatever they return. -/
inductive WalkRun (s₀ : PageMem) (root : Nat) : PageMem → Prop
  | start {s : PageMem} {asid : Nat} (new : s₀.pgdirNew asid = .ok (some root, s)) : WalkRun s₀ root s
  | insert {s s' : PageMem} {v page perm : Nat} {replace : Bool} {retcode : Int} {old : Option Nat}
      (run : WalkRun s₀ root s) (address : v < 2 ^ 64) (inside : page < s.nrPages)
      (done : s.pgtableInsert (s.pageToKvaddr root) v page perm replace = .ok (retcode, old, s')) :
      WalkRun s₀ root s'
  | remove {s s' : PageMem} {c c' : Cpu} {v : Nat} {old : Option Nat} (run : WalkRun s₀ root s)
      (done : s.pgtableRemove c (s.pageToKvaddr root) v = .ok (old, s', c')) : WalkRun s₀ root s'

namespace PageMem

/-- The memory holds a table with this root. -/
structure Rooted (root : Nat) (s : PageMem) (r : Dirs) (l : List Nat) : Prop where
  tree : Tree s r
  rooted : r.dir [] = some root
  full : r.Full
  free : FreeList s l
  phys : PhysBound s

namespace Rooted

variable {root : Nat} {s : PageMem} {r : Dirs} {l : List Nat}

/-- The walk to a leaf that is there changes nothing, and ends at its word. -/
theorem create_found (kept : Rooted root s r l) {v : Nat} {w : Nat × Nat} (leaf : r.leaf (path v) = some w) :
    ∃ d e, r.dir [pmx v, pgx v] = some e ∧ s.pdeGetEntry (s.pageToKvaddr e) (ptx v) = s.leafWord w ∧
      s.pgtableCreate (s.pageToKvaddr root) v =
        .ok (0, ⟨s.pageToKvaddr root, s.pageToKvaddr d, s.pageToKvaddr e, pgx v, pmx v, ptx v⟩, s) := by
  obtain ⟨e, inner⟩ : ∃ e, r.dir [pmx v, pgx v] = some e := by
    cases found : r.dir [pmx v, pgx v] with
    | none => exact absurd (.inr (by rw [path] at leaf; simp [leaf])) (Radix.not_taken found (ptx v))
    | some e => exact ⟨e, rfl⟩
  obtain ⟨d, outer⟩ : ∃ d, r.dir [pgx v] = some d := by
    cases found : r.dir [pgx v] with
    | none => exact absurd (.inl (by simp [inner])) (Radix.not_taken found (pmx v))
    | some d => exact ⟨d, rfl⟩
  have first := kept.tree.dirEntry kept.rooted (pgx_lt v) (by decide)
  have second := kept.tree.dirEntry outer (pmx_lt v) (by simp)
  have word := kept.tree.leafEntry inner (ptx_lt v) rfl
  rw [outer, Option.elim_some] at first
  rw [inner, Option.elim_some] at second
  rw [path] at leaf
  rw [leaf, Option.elim_some] at word
  refine ⟨d, e, inner, word, ?_⟩
  simp only [pgtableCreate, pdeObtain, first, second, ne_eq, kvaddr_pos, not_false_eq_true, if_true, Res.ok_bind, if_false]

theorem mapsOther_word (s : PageMem) (w : Nat × Nat) (page : Nat) :
    s.mapsOther (s.leafWord w) page = .ok (w.1 != page) :=
  s.mapsOther_spec (some w) page

/-- A word that is there is not written over. -/
theorem pdeAddEntry_taken {d i : Nat} (dir : IsDir s d) (taken : s.pdeGetEntry (s.pageToKvaddr d) i ≠ 0)
    (page flags : Nat) : s.pdeAddEntry (s.pageToKvaddr d) i page flags = .error .panic := by
  simp only [pdeAddEntry, kvaddrToPage_kvaddr, Res.ok_bind, pgdirAddEntry, pgdirCheck, dir.type, if_true, ne_eq, taken,
    not_false_eq_true]

/-- The page that is mapped already is not inserted a second time: the add panics. -/
theorem insert_same (kept : Rooted root s r l) {v page : Nat} {w : Nat × Nat} (perm : Nat) (replace : Bool)
    (address : v < 2 ^ 64) (zero : pgaddrRounddown v ≠ 0) (leaf : r.leaf (path v) = some w) (same : w.1 = page) :
    s.pgtableInsert (s.pageToKvaddr root) v page perm replace = .error .panic := by
  have rounded := path_rounddown address
  rw [← rounded] at leaf
  obtain ⟨d, e, inner, word, create⟩ := kept.create_found leaf
  have taken := pdeAddEntry_taken (kept.tree.dirs _ e inner) (word ▸ leafWord_pos s w) page (pteFlags perm)
  have isSame : (w.1 != page) = false := by simpa using same
  simp only [pgtableInsert, zero, if_false, create, Res.ok_bind, ne_eq, not_true, word, mapsOther_word, isSame,
    Bool.false_eq_true, taken]
  rfl

/-- Another page is refused when nothing may be replaced. -/
theorem insert_refused (kept : Rooted root s r l) {v page : Nat} {w : Nat × Nat} (perm : Nat) (address : v < 2 ^ 64)
    (zero : pgaddrRounddown v ≠ 0) (leaf : r.leaf (path v) = some w) (other : w.1 ≠ page) :
    s.pgtableInsert (s.pageToKvaddr root) v page perm false = .ok (-eexist, none, s) := by
  have rounded := path_rounddown address
  rw [← rounded] at leaf
  obtain ⟨d, e, inner, word, create⟩ := kept.create_found leaf
  have isOther : (w.1 != page) = true := by simpa using other
  simp only [pgtableInsert, zero, if_false, create, Res.ok_bind, ne_eq, not_true, word, mapsOther_word, isOther, if_true]

/-- A page that is mapped already is not mapped again: the kernel panics, or the
call returns without a change. -/
theorem insert_again (kept : Rooted root s r l) {v page perm : Nat} {replace : Bool} {retcode : Int}
    {old : Option Nat} {s' : PageMem} {w : Nat × Nat} (address : v < 2 ^ 64) (zero : pgaddrRounddown v ≠ 0)
    (leaf : r.leaf (path v) = some w) (again : ¬ (w.1 ≠ page ∧ replace = true))
    (done : s.pgtableInsert (s.pageToKvaddr root) v page perm replace = .ok (retcode, old, s')) : s' = s := by
  by_cases same : w.1 = page
  · rw [kept.insert_same perm replace address zero leaf same] at done
    cases done
  · have refused : replace = false := by simpa [same] using again
    rw [refused, kept.insert_refused perm address zero leaf same] at done
    cases done
    rfl

theorem insert (kept : Rooted root s r l) {v page perm : Nat} {replace : Bool} {retcode : Int} {old : Option Nat}
    {s' : PageMem} (address : v < 2 ^ 64) (inside : page < s.nrPages)
    (done : s.pgtableInsert (s.pageToKvaddr root) v page perm replace = .ok (retcode, old, s')) :
    ∃ r' l', Rooted root s' r' l' := by
  by_cases zero : pgaddrRounddown v = 0
  · simp only [pgtableInsert, zero, if_true] at done
    cases done
    exact ⟨r, l, kept⟩
  have same := path_rounddown address
  obtain ⟨inner, middle, upper⟩ := path_split same
  by_cases enough : missing r v ≤ l.length
  · by_cases fresh : ∀ w, r.leaf (path v) = some w → w.1 ≠ page ∧ replace = true
    · obtain ⟨s₁, r', run, moves, full, -⟩ := pgtableInsert_spec perm kept.tree kept.rooted kept.free kept.phys
        kept.full address zero inside enough fresh
      rw [done] at run
      cases run
      exact ⟨r', _, moves.tree, moves.root.trans kept.rooted, full, moves.free, kept.phys.frame moves.geometry⟩
    · obtain ⟨w, leaf, again⟩ : ∃ w, r.leaf (path v) = some w ∧ ¬ (w.1 ≠ page ∧ replace = true) := by
        by_contra none
        exact fresh fun w leaf => by
          by_contra again
          exact none ⟨w, leaf, again⟩
      exact ⟨r, l, kept.insert_again address zero leaf again done ▸ kept⟩
  · have scarce : l.length < missing r (pgaddrRounddown v) := by
      rw [missing_path same]
      exact Nat.lt_of_not_le enough
    cases above : r.dir [pgx v] with
    | none =>
      obtain ⟨pdesc, s₁, create, moves⟩ := pgtableCreate_undone kept.tree kept.rooted kept.free kept.phys
        scarce (by rw [upper]; exact above)
      rw [pgtableInsert_nomem _ _ _ zero create] at done
      cases done
      exact ⟨r, l, moves.tree, kept.rooted, kept.full, moves.free, kept.phys.frame moves.geometry⟩
    | some d =>
      obtain ⟨rfl, pdesc, s₁, create, tree, free, geometry, -⟩ := pgtableCreate_lost kept.tree kept.rooted kept.free
        kept.phys.nrPages_lt kept.full scarce (by rw [upper]; exact above)
      rw [pgtableInsert_nomem _ _ _ zero create] at done
      cases done
      refine ⟨_, _, tree, ?_, kept.full.cut_root _, free, kept.phys.frame geometry⟩
      simpa [Radix.cut] using kept.rooted

theorem remove (kept : Rooted root s r l) (c : Cpu) {v : Nat} {old : Option Nat} {s' : PageMem} {c' : Cpu}
    (done : s.pgtableRemove c (s.pageToKvaddr root) v = .ok (old, s', c')) : ∃ r' l', Rooted root s' r' l' := by
  obtain ⟨s₁, r', l', run, moves, full, -⟩ :=
    pgtableClear_spec (v := v) kept.tree kept.rooted kept.free kept.phys.nrPages_lt kept.full
  rw [pgtableRemove, run] at done
  cases done
  exact ⟨r', l', moves.tree, moves.root.trans kept.rooted, full, moves.free, kept.phys.frame moves.geometry⟩

end Rooted

/-- The number a directory index is turned into is the address of the word. -/
theorem word_address {s : PageMem} (phys : PhysBound s) {d i : Nat} (inside : d < s.nrPages) (bound : i < 2048) :
    (s.pageToKvaddr d + i <<< 3 % 2 ^ 64) % 2 ^ 64 = s.pageToKvaddr d + 8 * i := by
  rw [PhysBound] at phys
  rw [pageToKvaddr_eq, Nat.shiftLeft_eq]
  omega

/-- The even and the odd page of the pair an address is in. -/
def evenPage (v : Nat) : Nat := Cpu.vpn2Of v <<< (pgshift + 1)

def oddPage (v : Nat) : Nat := evenPage v + pgsize

theorem path_even (v : Nat) : path (evenPage v) = [v >>> pteOffset &&& (pdeMask - 1), pmx v, pgx v] := by
  have same : Cpu.vpn2Of (evenPage v) = Cpu.vpn2Of v := by
    rw [evenPage, Cpu.vpn2Of_eq, Cpu.vpn2Of_eq, Nat.shiftLeft_eq, pgshift]
    omega
  have even : Cpu.oddPage (evenPage v) = false := by
    rw [evenPage, Cpu.oddPage_eq, Cpu.vpn2Of_eq, Nat.shiftLeft_eq, pgshift, decide_eq_false_iff_not]
    omega
  rw [pair_path same, even]
  rfl

theorem path_odd (v : Nat) : path (oddPage v) = [(v >>> pteOffset &&& (pdeMask - 1)) + 1, pmx v, pgx v] := by
  have same : Cpu.vpn2Of (oddPage v) = Cpu.vpn2Of v := by
    rw [oddPage, evenPage, Cpu.vpn2Of_eq, Cpu.vpn2Of_eq, Nat.shiftLeft_eq, pgshift, pgsize]
    omega
  have odd : Cpu.oddPage (oddPage v) = true := by
    rw [oddPage, evenPage, Cpu.oddPage_eq, Cpu.vpn2Of_eq, Nat.shiftLeft_eq, pgshift, pgsize, decide_eq_true_eq]
    omega
  rw [pair_path same, odd]
  rfl

end PageMem

namespace TlbEx

open PageMem

/-- `xtlb_refill` under the directory at `pgd` does what `pgtable_get` says: it
leaves for the generic handler when there is no directory or it has neither page
of the pair, and else writes both words of the pair. -/
def Agrees (s : PageMem) (asidTaskSet : Nat) (pgd : Nat) (v random k0 k1 : Nat) (c : Cpu) : Prop :=
  let even := s.tableEntry pgd (evenPage v)
  let odd := s.tableEntry pgd (oddPage v)
  (pgd = 0 ∨ (even = 0 ∧ odd = 0) → Leaves s.mem asidTaskSet random (entered c v k0 k1) .generic c) ∧
    (¬ (pgd = 0 ∨ (even = 0 ∧ odd = 0)) → Leaves s.mem asidTaskSet random (entered c v k0 k1) .eret
      ({ c with entryLo0 := entryLo even, entryLo1 := entryLo odd }.tlbwr random))

section Refill

variable {s : PageMem} {asidTaskSet random k0 k1 v : Nat} {c : Cpu} {exit : Exit} {c' : Cpu}

/-- The handler starts with the entry of its ASID. -/
theorem leaves_entered (leaves : Leaves s.mem asidTaskSet random
      ⟨7, 8, v, onlineHpt s.mem asidTaskSet c.asid, v, c⟩ exit c') :
    Leaves s.mem asidTaskSet random (entered c v k0 k1) exit c' := by
  have index : ((c.entryHi &&& enthiAsidMask) <<< 3 % 2 ^ 64 + asidTaskSet) % 2 ^ 64 =
      (c.asid.val * 8 + asidTaskSet) % 2 ^ 64 := by
    have small := c.asid.isLt
    rw [Nat.shiftLeft_eq]
    show ((c.asid.val * 2 ^ 3) % 2 ^ 64 + asidTaskSet) % 2 ^ 64 = _
    omega
  refine .back (fun n => exec_root n v c k0 k1) rfl ?_
  rw [index]
  exact leaves

theorem agrees_none (v random k0 k1 : Nat) (none : onlineHpt s.mem asidTaskSet c.asid = 0) :
    Agrees s asidTaskSet 0 v random k0 k1 c := by
  refine ⟨fun _ => leaves_entered ?_, fun present => absurd (.inl rfl) present⟩
  rw [none]
  exact ⟨5, _, exec_no_pgd 0 v c v, rfl, rfl⟩

theorem agrees_root {r : Dirs} {root : Nat} {l : List Nat} (kept : Rooted root s r l) (v random k0 k1 : Nat)
    (registered : onlineHpt s.mem asidTaskSet c.asid = s.pageToKvaddr root) :
    Agrees s asidTaskSet (s.pageToKvaddr root) v random k0 k1 c := by
  have inside : ∀ {π d}, r.dir π = some d → d < s.nrPages := fun found =>
    (kept.tree.dirs _ _ found).set.bound _ (by simp)
  have evenBound : v >>> pteOffset &&& (pdeMask - 1) < 2047 := by
    rw [and_even]
    omega
  have first := kept.tree.dirEntry kept.rooted (pgx_lt v) (by decide)
  have even := tableEntry_path kept.tree kept.rooted (path_even v)
  have odd := tableEntry_path kept.tree kept.rooted (path_odd v)
  have address := word_address kept.phys (inside kept.rooted) (pgx_lt v)
  simp only [pdeGetEntry] at first even odd
  have start : ∀ {exit c'}, Leaves s.mem asidTaskSet random
      ⟨14, 15, v, (r.dir [pgx v]).elim 0 s.pageToKvaddr, v, c⟩ exit c' →
      Leaves s.mem asidTaskSet random (entered c v k0 k1) exit c' := by
    intro exit c' leaves
    refine leaves_entered ?_
    rw [registered]
    refine .back (fun n => exec_pgd n v c (kvaddr_pos s _)) rfl ?_
    rw [shift_pgx, address, first]
    exact leaves
  have missing : r.dir [pmx v, pgx v] = none → s.tableEntry (s.pageToKvaddr root) (evenPage v) = 0 ∧
      s.tableEntry (s.pageToKvaddr root) (oddPage v) = 0 := by
    intro none
    rw [even, odd, none]
    exact ⟨rfl, rfl⟩
  cases outer : r.dir [pgx v] with
  | none =>
    have none : r.dir [pmx v, pgx v] = none := by
      by_contra present
      exact Radix.not_taken outer (pmx v) (.inl present)
    refine ⟨fun _ => start ?_, fun present => absurd (.inr (missing none)) present⟩
    rw [outer]
    exact ⟨5, _, exec_no_pmd 0 v c v, rfl, rfl⟩
  | some d =>
    have second := kept.tree.dirEntry outer (pmx_lt v) (by simp)
    have address₂ := word_address kept.phys (inside outer) (pmx_lt v)
    simp only [pdeGetEntry] at second
    have walk : ∀ {exit c'}, Leaves s.mem asidTaskSet random
        ⟨21, 22, v, (r.dir [pmx v, pgx v]).elim 0 s.pageToKvaddr, v, c⟩ exit c' →
        Leaves s.mem asidTaskSet random (entered c v k0 k1) exit c' := by
      intro exit c' leaves
      refine start ?_
      rw [outer]
      refine .back (fun n => exec_pmd n v c (kvaddr_pos s _)) rfl ?_
      rw [Option.elim_some, shift_pmx, address₂, second]
      exact leaves
    cases inner : r.dir [pmx v, pgx v] with
    | none =>
      refine ⟨fun _ => walk ?_, fun present => absurd (.inr (missing inner)) present⟩
      rw [inner]
      exact ⟨5, _, exec_no_pte 0 v c v, rfl, rfl⟩
    | some e =>
      have address₃ := word_address kept.phys (inside inner)
        (by omega : v >>> pteOffset &&& (pdeMask - 1) < 2048)
      have next : (s.pageToKvaddr e + 8 * (v >>> pteOffset &&& (pdeMask - 1)) + 8) % 2 ^ 64 =
          s.pageToKvaddr e + 8 * ((v >>> pteOffset &&& (pdeMask - 1)) + 1) := by
        have phys := kept.phys
        have bound := inside inner
        rw [PhysBound] at phys
        rw [pageToKvaddr_eq]
        omega
      rw [inner, Option.elim_some] at even odd
      have pair : ∀ {exit c'}, Leaves s.mem asidTaskSet random
          ⟨28, 29, s.pageToKvaddr e + 8 * ((v >>> pteOffset &&& (pdeMask - 1)) + 1),
            s.tableEntry (s.pageToKvaddr root) (evenPage v), v, c⟩ exit c' →
          Leaves s.mem asidTaskSet random (entered c v k0 k1) exit c' := by
        intro exit c' leaves
        refine walk ?_
        rw [inner]
        refine .back (fun n => exec_pte n v c (kvaddr_pos s _)) rfl ?_
        rw [Option.elim_some, address₃, next, ← even]
        exact leaves
      refine ⟨fun empty => ?_, fun some => ?_⟩
      · rcases empty with zero | ⟨evenZero, oddZero⟩
        · exact absurd zero (kvaddr_pos s root)
        · refine pair ?_
          rw [evenZero]
          exact leaves_no_pair _ v c (odd.symm.trans oddZero)
      · have written : Leaves s.mem asidTaskSet random _ _ _ := leaves_pair
          (s.pageToKvaddr e + 8 * ((v >>> pteOffset &&& (pdeMask - 1)) + 1))
          (s.tableEntry (s.pageToKvaddr root) (evenPage v)) v c
          (fun both => some (.inr ⟨both.1, odd.trans both.2⟩))
        rw [← odd] at written
        exact pair written

end Refill

end TlbEx

theorem WalkRun.rooted {s₀ : PageMem} {root : Nat} {l₀ : List Nat} (free : s₀.FreeList l₀) (phys : s₀.PhysBound)
    {s : PageMem} (run : WalkRun s₀ root s) : ∃ r l, PageMem.Rooted root s r l := by
  induction run with
  | start new =>
    obtain ⟨l₁, r, -, kept⟩ := PageMem.TableKept.start free phys new
    exact ⟨r, l₁, kept.tree, kept.rooted, kept.full, kept.free, kept.phys⟩
  | insert _ address inside done ih =>
    obtain ⟨r, l, kept⟩ := ih
    exact kept.insert address inside done
  | @remove _ _ c _ _ _ _ done ih =>
    obtain ⟨r, l, kept⟩ := ih
    exact kept.remove c done

/-- For every entry of `online_hpt` that is NULL or the directory of a table, and
every address, the refill handler does what `pgtable_get` says. -/
theorem WalkRun.refillAgrees {s₀ : PageMem} {root : Nat} {l₀ : List Nat} (free : s₀.FreeList l₀)
    (phys : s₀.PhysBound) {s : PageMem} (run : WalkRun s₀ root s) {asidTaskSet : Nat} {c : Cpu}
    (entry : TlbEx.onlineHpt s.mem asidTaskSet c.asid = 0 ∨
      TlbEx.onlineHpt s.mem asidTaskSet c.asid = s.pageToKvaddr root) (v random k0 k1 : Nat) :
    TlbEx.Agrees s asidTaskSet (TlbEx.onlineHpt s.mem asidTaskSet c.asid) v random k0 k1 c := by
  rcases entry with none | registered
  · have agrees := TlbEx.agrees_none v random k0 k1 none
    rwa [none]
  · obtain ⟨r, l, kept⟩ := run.rooted free phys
    have agrees := TlbEx.agrees_root kept v random k0 k1 registered
    rwa [registered]

/-- The memory of eight pages that has the table of page 1 in the first slot of `asid_task_set`, at the start of page 0. -/
def slotMem : ByteMem := ByteMem.store (fun _ => 0) 0x9800000000000000 8 0x9800000000004000

/-- What is not free and not a directory stays, page 0 for one. -/
theorem PageMem.Moves.page_zero {s s' : PageMem} {r r' : Dirs} {l l' : List Nat} (moves : Moves s s' r r' l l')
    (free : 0 ∉ l) (own : ¬ r.Owns 0) : s.Agree s' 0 ∧ 0 ∉ l' ∧ ¬ r'.Owns 0 := by
  have nobody : ¬ (0 ∈ l ∨ r.Owns 0) := not_or.mpr ⟨free, own⟩
  rw [← moves.owned, not_or] at nobody
  exact ⟨moves.agree 0 free own, nobody⟩

/-- A table that is registered for ASID 0, with a page at `0x8000` and one at `0xc000`. -/
theorem WalkRun.pair : ∃ s₀ s r l, s₀.FreeList [1, 2, 3, 4, 5, 6, 7] ∧ s₀.PhysBound ∧ WalkRun s₀ 1 s ∧ PageMem.Rooted 1 s r l ∧
    r.leaf (path 0x8000) = some (6, 0x88) ∧ r.leaf (path 0xc000) = some (7, 0x188) ∧
    TlbEx.onlineHpt s.mem 0x9800000000000000 0 = s.pageToKvaddr 1 := by
  have pages : (PageMem.bootLedger 8).free.sort = [1, 2, 3, 4, 5, 6, 7] := (PageMem.bootLedger_sort 8).trans (by decide)
  have free := (PageMem.initPageArray_books 0 8 ⟨id, id⟩ slotMem).free
  rw [pages] at free
  have phys : (initPageArray 0 8 ⟨id, id⟩ slotMem).PhysBound := by
    rw [PageMem.PhysBound]
    decide
  obtain ⟨s, new, free', dir, zero, geometry, agree⟩ := PageMem.pgdirNew_spec free 0xff
  have rooted : (Radix.single 1 : PageMem.Dirs).dir [] = some 1 := by simp [Radix.single]
  have two : PageMem.missing (Radix.single 1 : PageMem.Dirs) 0x8000 = 2 := by simp [PageMem.missing, Radix.single]
  have six : 6 < s.nrPages := by
    rw [geometry.pages]
    decide
  obtain ⟨s₁, r₁, done₁, moves₁, full₁, leaf₁, -⟩ := @PageMem.pgtableInsert_spec s _ 1 0x8000 6 _ false 0x88 (.single dir zero) rooted
    free' (phys.frame geometry) (Radix.single_full 1) (by decide) (by decide) six (by rw [two]; decide) (by simp [Radix.single])
  have vacant : r₁.leaf (path 0xc000) = none := by
    rw [leaf₁, Function.update_of_ne (by simp [path, ptx_eq, pmx_eq, pgx_eq])]
    rfl
  have seven : 7 < s₁.nrPages := by
    rw [moves₁.geometry.pages, geometry.pages]
    decide
  obtain ⟨s₂, r₂, done₂, moves₂, full₂, leaf₂, -⟩ := @PageMem.pgtableInsert_spec s₁ _ 1 0xc000 7 _ false 0x188 moves₁.tree
    (moves₁.root.trans rooted) moves₁.free ((phys.frame geometry).frame moves₁.geometry) full₁ (by decide) (by decide) seven
    (by rw [two]; exact le_trans (PageMem.missing_le ..) (by decide)) (by simp [vacant])
  -- page 0 keeps its slot
  have notOwned : ¬ (Radix.single 1 : PageMem.Dirs).Owns 0 := by
    rintro ⟨π, found⟩
    simp only [Radix.single] at found
    split at found
    · cases found
    · cases found
  obtain ⟨agree₁, notFree₁, notOwned₁⟩ := moves₁.page_zero (by decide) notOwned
  obtain ⟨agree₂, -⟩ := moves₂.page_zero notFree₁ notOwned₁
  have base : (initPageArray 0 8 ⟨id, id⟩ slotMem).highmemBasePfn = 0 := rfl
  have whole := geometry.trans (moves₁.geometry.trans moves₂.geometry)
  have root : s₂.pageToKvaddr 1 = 0x9800000000004000 := by
    rw [whole.kvaddr, PageMem.pageToKvaddr_eq, base]
  have same : s₂.mem.load 0x9800000000000000 8 = slotMem.load 0x9800000000000000 8 := by
    refine ByteMem.load_congr fun x lower upper => ?_
    have start := (agree 0 (by decide)).trans geometry (agree₁.trans moves₁.geometry agree₂)
    refine start.mem x ?_ ?_
    · rw [PageMem.pageToKvaddr_eq, base]
      omega
    · rw [PageMem.pageToKvaddr_eq, base]
      omega
  have first : slotMem.load 0x9800000000000000 8 = 0x9800000000004000 := ByteMem.load_store (by decide)
  refine ⟨_, s₂, r₂, _, free, phys, ((WalkRun.start new).insert (by decide) six done₁).insert (by decide) seven done₂,
    ⟨moves₂.tree, moves₂.root.trans (moves₁.root.trans rooted), full₂, moves₂.free,
      ((phys.frame geometry).frame moves₁.geometry).frame moves₂.geometry⟩, ?_, ?_, ?_⟩
  · rw [leaf₂, Function.update_of_ne (by simp [path, ptx_eq, pmx_eq, pgx_eq]), leaf₁, Function.update_self]
  · rw [leaf₂, Function.update_self]
  · rw [TlbEx.onlineHpt, root, Nat.zero_mul, Nat.zero_add, Nat.mod_eq_of_lt (by decide), same, first]

/-- The handler finds both pages of the pair, and writes their words. -/
theorem WalkRun.refillAgrees_pair : ∃ (s₀ s : PageMem) (c : Cpu), WalkRun s₀ 1 s ∧
    s.tableEntry (s.pageToKvaddr 1) 0x8000 = s.leafWord (6, 0x88) ∧ s.tableEntry (s.pageToKvaddr 1) 0xc000 = s.leafWord (7, 0x188) ∧
    TlbEx.Agrees s 0x9800000000000000 (TlbEx.onlineHpt s.mem 0x9800000000000000 c.asid) 0x8abc 7 0 0 c ∧
    TlbEx.Leaves s.mem 0x9800000000000000 7 (TlbEx.entered c 0x8abc 0 0) .eret
      ({ c with entryLo0 := entryLo (s.leafWord (6, 0x88)), entryLo1 := entryLo (s.leafWord (7, 0x188)) }.tlbwr 7) := by
  obtain ⟨s₀, s, r, l, free, phys, run, kept, evenLeaf, oddLeaf, entry⟩ := WalkRun.pair
  let c : Cpu := ⟨64, fun _ => ⟨0, 0, false, 0, 0⟩, 0, 0, 0, 0, id, 0⟩
  have asid : c.asid = 0 := Fin.ext (Cpu.asid_eq c)
  have registered : TlbEx.onlineHpt s.mem 0x9800000000000000 c.asid = s.pageToKvaddr 1 := by
    rw [asid]
    exact entry
  have even : s.tableEntry (s.pageToKvaddr 1) 0x8000 = s.leafWord (6, 0x88) := by
    rw [PageMem.tableEntry_spec kept.tree kept.rooted, evenLeaf, Option.elim_some]
  have odd : s.tableEntry (s.pageToKvaddr 1) 0xc000 = s.leafWord (7, 0x188) := by
    rw [PageMem.tableEntry_spec kept.tree kept.rooted, oddLeaf, Option.elim_some]
  have agrees := run.refillAgrees free phys (c := c) (.inr registered) 0x8abc 7 0 0
  have leaves := agrees.2
  rw [registered, show PageMem.evenPage 0x8abc = 0x8000 by decide, show PageMem.oddPage 0x8abc = 0xc000 by decide, even, odd] at leaves
  exact ⟨s₀, s, c, run, even, odd, agrees, leaves fun absent => absent.elim (PageMem.kvaddr_pos s 1) fun both =>
    PageMem.leafWord_pos s _ both.1⟩

end Xv6
