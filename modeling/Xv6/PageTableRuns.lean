import Xv6.PageRuns
import Xv6.PageTableSpec

namespace Xv6

/-- The operations on one page table. -/
inductive TableOp
  | insert (vaddr page perm : Nat) (replace : Bool)
  | remove (vaddr : Nat)

def TableOp.vaddr : TableOp → Nat
  | .insert vaddr _ _ _ => vaddr
  | .remove vaddr => vaddr

/-- The return code, the page handed out, and the state after. -/
def PageMem.tableExec (s : PageMem) (c : Cpu) (root : Nat) : TableOp → Res (Int × Option Nat × PageMem × Cpu)
  | .insert vaddr page perm replace => do
    let (retcode, replaced, s) ← s.pgtableInsert (s.pageToKvaddr root) vaddr page perm replace
    .ok (retcode, replaced, s, c)
  | .remove vaddr => do
    let (p, s, c) ← s.pgtableRemove c (s.pageToKvaddr root) vaddr
    .ok (0, p, s, c)

/-- What the users of the table remember: the page of each page number. -/
abbrev PageMap := Nat → Option Nat

def PageMap.after (m : PageMap) : TableOp → PageMap
  | .insert vaddr page _ _ => Function.update m (vaddr / 16384) (some page)
  | .remove vaddr => Function.update m (vaddr / 16384) none

/-- The operations of a run: pages are inserted at aligned addresses, where there
is none or to replace another one. -/
def TableAllowed (s : PageMem) (m : PageMap) : TableOp → Prop
  | .insert vaddr page _ replace => vaddr % 16384 = 0 ∧ 16384 ≤ vaddr ∧ vaddr < 2 ^ 47 ∧ page < s.nrPages ∧
      ∀ old, m (vaddr / 16384) = some old → old ≠ page ∧ replace = true
  | .remove vaddr => 16384 ≤ vaddr ∧ vaddr < 2 ^ 47

/-- Runs on the table whose root `pgdir_new` made in the state `s₀`, in which no
allocation fails. -/
inductive TableRun (s₀ : PageMem) (root : Nat) : PageMem → Cpu → PageMap → Prop
  | start {s : PageMem} {asid : Nat} (c : Cpu) (new : s₀.pgdirNew asid = .ok (some root, s)) :
      TableRun s₀ root s c (fun _ => none)
  | step {s s' : PageMem} {c c' : Cpu} {m : PageMap} {op : TableOp} {retcode : Int} {p : Option Nat}
      (run : TableRun s₀ root s c m) (allowed : TableAllowed s m op)
      (done : s.tableExec c root op = .ok (retcode, p, s', c')) (memory : retcode ≠ -enomem) :
      TableRun s₀ root s' c' (m.after op)

/-- A directory of the table, as the words of the directories above it say. -/
inductive Reaches (s : PageMem) (root : Nat) : Nat → Nat → Prop
  | root : Reaches s root 0 root
  | child {n d i c : Nat} (above : Reaches s root n d) (inner : n < 2) (bound : i < 2048)
      (word : s.slot d i = s.pageToKvaddr c) : Reaches s root (n + 1) c

namespace PageMem

/-- What a run on a page table keeps: the directories form a full tree, whose
leaves are the map, and which shares the pages `l₁` with the free list. -/
structure TableKept (l₁ : List Nat) (root : Nat) (s : PageMem) (m : PageMap) (r : Dirs) (l : List Nat) : Prop where
  tree : Tree s r
  rooted : r.dir [] = some root
  full : r.Full
  free : FreeList s l
  phys : PhysBound s
  owned : ∀ p, p ∈ l ∨ r.Owns p ↔ p ∈ l₁ ∨ p = root
  mapped : ∀ v, v < 2 ^ 47 → (r.leaf (path v)).map Prod.fst = m (v / 16384)

/-- Every leaf belongs to an address of the table. -/
theorem leaf_path {r : Dirs} {π : List Nat} (present : r.leaf π ≠ none) : ∃ v, v < 2 ^ 47 ∧ π = path v := by
  obtain ⟨w, found⟩ := Option.ne_none_iff_exists'.mp present
  obtain ⟨t, ρ, rfl, tBound, length, dir⟩ := r.hung π w found
  obtain ⟨e, inner⟩ := Option.ne_none_iff_exists'.mp dir
  match ρ, length with
  | [m, g], _ =>
    obtain ⟨mBound, above⟩ := r.closed m [g] e inner
    obtain ⟨d, middle⟩ := Option.ne_none_iff_exists'.mp above
    have gBound := (r.closed g [] d middle).1
    refine ⟨((g * 2048 + m) * 2048 + t) * 16384, by omega, ?_⟩
    simp only [path, ptx_eq, pmx_eq, pgx_eq, List.cons.injEq, and_true]
    omega

/-- The directories that are reached are those of the tree. -/
theorem Tree.reaches_iff {s : PageMem} {r : Dirs} {root n d : Nat} (tree : Tree s r) (rooted : r.dir [] = some root) :
    Reaches s root n d ↔ ∃ π, π.length = n ∧ r.dir π = some d := by
  constructor
  · intro reach
    induction reach with
    | root => exact ⟨[], rfl, rooted⟩
    | @child n d i c _ inner bound word ih =>
      obtain ⟨π, length, found⟩ := ih
      have entry := tree.dirEntry found bound (by omega)
      rw [show s.pdeGetEntry (s.pageToKvaddr d) i = s.pageToKvaddr c from word] at entry
      refine ⟨i :: π, by rw [List.length_cons, length], ?_⟩
      cases below : r.dir (i :: π) with
      | none =>
        rw [below, Option.elim_none] at entry
        exact absurd entry (kvaddr_pos s c)
      | some e =>
        rw [below, Option.elim_some] at entry
        rw [kvaddr_injective entry]
  · rintro ⟨π, rfl, found⟩
    induction π generalizing d with
    | nil =>
      obtain rfl : root = d := Option.some.inj (rooted.symm.trans found)
      exact .root
    | cons i π ih =>
      obtain ⟨bound, present⟩ := r.closed i π d found
      obtain ⟨e, above⟩ := Option.ne_none_iff_exists'.mp present
      have shallow := r.short _ _ found
      rw [List.length_cons] at shallow
      have word := tree.dirEntry above bound (by omega)
      rw [found, Option.elim_some] at word
      exact .child (ih above) (by omega) bound word

/-- Without a mapping the table is its root, and its other directories are free. -/
theorem TableKept.bare {l₁ l : List Nat} {root : Nat} {s : PageMem} {m : PageMap} {r : Dirs}
    (kept : TableKept l₁ root s m r l) (sorted : l₁.Pairwise (· < ·)) (rootOut : root ∉ l₁) (none : ∀ k, m k = none) :
    s.used root = 0 ∧ l = l₁ := by
  have bare : ∀ π, r.leaf π = Option.none := by
    intro π
    by_contra present
    obtain ⟨v, small, rfl⟩ := leaf_path present
    have mapped := kept.mapped v small
    rw [none, Option.map_eq_none_iff] at mapped
    exact present mapped
  have only := kept.full.only_root bare
  refine ⟨(kept.tree.used_zero kept.rooted).mpr ?_, sorted_ext kept.free.sorted sorted ?_⟩
  · rintro j (dir | leaf)
    · exact dir (only j [])
    · exact leaf (bare _)
  · have owns : ∀ p, r.Owns p ↔ p = root := by
      intro p
      constructor
      · rintro ⟨π, found⟩
        cases π with
        | nil => exact Option.some.inj (found.symm.trans kept.rooted)
        | cons i π =>
          rw [only] at found
          cases found
      · rintro rfl
        exact ⟨[], kept.rooted⟩
    have rootNotFree : root ∉ l := kept.tree.not_free ⟨[], kept.rooted⟩ kept.free
    intro p
    have owned := kept.owned p
    rw [owns] at owned
    by_cases same : p = root
    · rw [same]
      exact ⟨fun member => absurd member rootNotFree, fun member => absurd member rootOut⟩
    · simpa [same] using owned

theorem TableKept.update {l₁ l l' : List Nat} {root v : Nat} {s s' : PageMem} {m : PageMap} {r r' : Dirs}
    {w : Option (Nat × Nat)} (kept : TableKept l₁ root s m r l) (moves : Moves s s' r r' l l') (full : r'.Full)
    (leaf : r'.leaf = Function.update r.leaf (path v) w) (small : v < 2 ^ 47) :
    TableKept l₁ root s' (Function.update m (v / 16384) (w.map Prod.fst)) r' l' where
  tree := moves.tree
  rooted := moves.root.trans kept.rooted
  full := full
  free := moves.free
  phys := kept.phys.frame moves.geometry
  owned p := (moves.owned p).trans (kept.owned p)
  mapped := by
    intro u bound
    rw [leaf]
    by_cases same : u / 16384 = v / 16384
    · rw [(path_inj bound small).mpr same, Function.update_self, same, Function.update_self]
    · rw [Function.update_of_ne (fun here => same ((path_inj bound small).mp here)), Function.update_of_ne same]
      exact kept.mapped u bound

/-- An insertion maps its page, or finds no memory for a directory. -/
theorem TableKept.insert {l₁ l : List Nat} {root v page perm : Nat} {s : PageMem} {m : PageMap} {r : Dirs}
    {replace : Bool} (kept : TableKept l₁ root s m r l) (allowed : TableAllowed s m (.insert v page perm replace)) :
    (missing r v ≤ l.length ∧ ∃ s' r' l', s.pgtableInsert (s.pageToKvaddr root) v page perm replace =
        .ok (0, m (v / 16384), s') ∧ SameGeometry s s' ∧
        TableKept l₁ root s' (Function.update m (v / 16384) (some page)) r' l') ∨
      (l.length < missing r v ∧ ∃ s', s.pgtableInsert (s.pageToKvaddr root) v page perm replace =
        .ok (-enomem, none, s')) := by
  obtain ⟨aligned, low, high, inside, fresh⟩ := allowed
  have small : v < 2 ^ 64 := by omega
  have down : pgaddrRounddown v = v := by
    rw [pgaddrRounddown_eq small]
    omega
  have nonzero : pgaddrRounddown v ≠ 0 := by
    rw [down]
    omega
  have mapped := kept.mapped v high
  by_cases enough : missing r v ≤ l.length
  · have fresh' : ∀ w, r.leaf (path v) = some w → w.1 ≠ page ∧ replace = true := by
      intro w leaf
      refine fresh w.1 ?_
      rw [← mapped, leaf, Option.map_some]
    obtain ⟨s', r', run, moves, full, leaf, -⟩ := pgtableInsert_spec perm kept.tree kept.rooted kept.free kept.phys
      kept.full small nonzero inside enough fresh'
    rw [mapped] at run
    exact .inl ⟨enough, s', r', _, run, moves.geometry, kept.update moves full leaf high⟩
  · have scarce : l.length < missing r v := Nat.lt_of_not_le enough
    exact .inr ⟨scarce, pgtableInsert_scarce page perm replace kept.tree kept.rooted kept.free kept.phys kept.full small nonzero scarce⟩

theorem TableKept.remove {l₁ l : List Nat} {root v : Nat} {s : PageMem} {m : PageMap} {r : Dirs}
    (kept : TableKept l₁ root s m r l) (c : Cpu) (high : v < 2 ^ 47) :
    ∃ s' r' l', s.pgtableRemove c (s.pageToKvaddr root) v = .ok (m (v / 16384), s', c.tlbRemove v) ∧
      SameGeometry s s' ∧ TableKept l₁ root s' (Function.update m (v / 16384) none) r' l' := by
  obtain ⟨s', r', l', run, moves, full, leaf, -⟩ :=
    pgtableClear_spec kept.tree kept.rooted kept.free kept.phys.nrPages_lt kept.full
  rw [kept.mapped v high] at run
  refine ⟨s', r', l', ?_, moves.geometry, kept.update moves full leaf high⟩
  simp only [pgtableRemove, run, Res.ok_bind]

theorem missing_le (r : Dirs) (v : Nat) : missing r v ≤ 2 := by
  rw [missing]
  split <;> split <;> omega

/-- One operation: it does not stop the kernel, it fails only for want of memory,
and else it hands out the page that was mapped and maps its own. -/
theorem TableKept.exec {l₁ l : List Nat} {root : Nat} {s : PageMem} {m : PageMap} {r : Dirs} {op : TableOp}
    (kept : TableKept l₁ root s m r l) (c : Cpu) (allowed : TableAllowed s m op) :
    ∃ retcode p s' c', s.tableExec c root op = .ok (retcode, p, s', c') ∧ (2 ≤ l.length → retcode = 0) ∧
      (retcode ≠ -enomem → retcode = 0 ∧ p = m (op.vaddr / 16384) ∧ SameGeometry s s' ∧
        ∃ r' l', TableKept l₁ root s' (m.after op) r' l') := by
  cases op with
  | insert v page perm replace =>
    rcases kept.insert allowed with ⟨-, s', r', l', run, geometry, kept'⟩ | ⟨scarce, s', run⟩
    · exact ⟨0, m (v / 16384), s', c, by simp only [PageMem.tableExec, run, Res.ok_bind], fun _ => rfl,
        fun _ => ⟨rfl, rfl, geometry, r', l', kept'⟩⟩
    · refine ⟨-enomem, none, s', c, by simp only [PageMem.tableExec, run, Res.ok_bind], ?_, fun same => absurd rfl same⟩
      intro enough
      have most := missing_le r v
      omega
  | remove v =>
    obtain ⟨s', r', l', run, geometry, kept'⟩ := kept.remove c allowed.2
    exact ⟨0, _, s', c.tlbRemove v, by simp only [PageMem.tableExec, run, Res.ok_bind, TableOp.vaddr], fun _ => rfl,
      fun _ => ⟨rfl, rfl, geometry, r', l', kept'⟩⟩

/-- An empty directory is a table of its own. -/
theorem Tree.single {s : PageMem} {root : Nat} (dir : IsDir s root) (zero : ∀ i, i < 2048 → s.slot root i = 0) :
    Tree s (Radix.single root) := by
  have only : ∀ π d, (Radix.single root : Dirs).dir π = some d → π = [] ∧ d = root := by
    intro π d found
    simp only [Radix.single] at found
    split at found
    · exact ⟨by assumption, (Option.some.inj found).symm⟩
    · cases found
  refine ⟨?_, ?_, by simp [Radix.single]⟩
  · intro π d found
    rw [(only π d found).2]
    exact dir
  · intro π d i found bound
    obtain ⟨rfl, rfl⟩ := only π d found
    rw [zero i bound]
    simp [Radix.word, Radix.single]

theorem TableKept.start {s₀ s : PageMem} {root asid : Nat} {l₀ : List Nat} (free : FreeList s₀ l₀)
    (phys : PhysBound s₀) (new : s₀.pgdirNew asid = .ok (some root, s)) :
    ∃ l₁ r, l₀ = root :: l₁ ∧ TableKept l₁ root s (fun _ => none) r l₁ := by
  cases l₀ with
  | nil =>
    rw [pgdirNew_none free] at new
    cases new
  | cons x l₁ =>
    obtain ⟨s', run, free', dir, zero, geometry, -⟩ := pgdirNew_spec free asid
    rw [new] at run
    obtain ⟨rootEq, rfl⟩ := Prod.mk.inj (Except.ok.inj run)
    obtain rfl : root = x := Option.some.inj rootEq
    refine ⟨l₁, Radix.single root, rfl, ⟨.single dir zero, by simp [Radix.single], Radix.single_full root, free',
      phys.frame geometry, ?_, fun _ _ => rfl⟩⟩
    · intro p
      have owns : (Radix.single root : Dirs).Owns p ↔ p = root := by
        constructor
        · rintro ⟨π, found⟩
          simp only [Radix.single] at found
          split at found
          · exact (Option.some.inj found).symm
          · cases found
        · rintro rfl
          exact ⟨[], by simp [Radix.single]⟩
      rw [owns]

end PageMem

/-- The table in memory is the map `m`: lookups read it, each directory counts its
entries, no directory below the root is empty, and when the map is empty all of
them are free again. `l` is the free list behind the root. -/
structure TableIs (l : List Nat) (root : Nat) (s : PageMem) (c : Cpu) (m : PageMap) : Prop where
  lookup : ∀ v, v < 2 ^ 47 →
    s.archMmGetPfn (s.pageToKvaddr root) v = (m (v / 16384)).elim 0 s.pageToPfn
  counted : ∀ n d, Reaches s root n d → (s.page d).type = .pgdir ∧ (s.pgdirExtra d).1 = s.used d
  nonempty : ∀ n d, Reaches s root n d → 0 < n → s.used d ≠ 0
  bare : (∀ k, m k = none) → (s.pgdirExtra root).1 = 0 ∧ s.FreeList l
  exec : ∀ op, TableAllowed s m op → ∃ retcode p s' c', s.tableExec c root op = .ok (retcode, p, s', c') ∧
    (2 ≤ s.nrFreePages → retcode = 0) ∧
    (retcode ≠ -enomem → retcode = 0 ∧ p = m (op.vaddr / 16384) ∧
      ∀ w, w < 2 ^ 47 → w / 16384 ≠ op.vaddr / 16384 →
        s'.archMmGetPfn (s'.pageToKvaddr root) w = s.archMmGetPfn (s.pageToKvaddr root) w)

namespace PageMem

variable {l₁ l : List Nat} {root : Nat} {s : PageMem} {m : PageMap} {r : Dirs}

theorem TableKept.lookup (kept : TableKept l₁ root s m r l) {v : Nat} (small : v < 2 ^ 47) :
    s.archMmGetPfn (s.pageToKvaddr root) v = (m (v / 16384)).elim 0 s.pageToPfn := by
  rw [archMmGetPfn_spec kept.tree kept.rooted, ← kept.mapped v small]
  cases r.leaf (path v) <;> rfl

theorem TableKept.tableIs (kept : TableKept l₁ root s m r l) (sorted : l₁.Pairwise (· < ·))
    (rootOut : root ∉ l₁) (c : Cpu) : TableIs l₁ root s c m where
  lookup _ small := kept.lookup small
  counted := by
    intro n d reach
    obtain ⟨π, -, found⟩ := (kept.tree.reaches_iff kept.rooted).mp reach
    exact ⟨(kept.tree.dirs π d found).type, (kept.tree.dirs π d found).pgdirExtra⟩
  nonempty := by
    intro n d reach inner zero
    obtain ⟨π, length, found⟩ := (kept.tree.reaches_iff kept.rooted).mp reach
    obtain ⟨i, ρ, rfl⟩ := List.exists_cons_of_length_pos (length ▸ inner : 0 < π.length)
    obtain ⟨j, below⟩ := kept.full i ρ (by simp [found])
    exact (kept.tree.used_zero found).mp zero j below
  bare := by
    intro none
    obtain ⟨zero, same⟩ := kept.bare sorted rootOut none
    exact ⟨by rw [(kept.tree.dirs [] root kept.rooted).pgdirExtra, zero], same ▸ kept.free⟩
  exec := by
    intro op allowed
    obtain ⟨retcode, p, s', c', run, memory, rest⟩ := kept.exec c allowed
    refine ⟨retcode, p, s', c', run, fun enough => memory (by rw [← kept.free.count]; exact enough), ?_⟩
    intro done
    obtain ⟨zero, handed, geometry, r', l', kept'⟩ := rest done
    refine ⟨zero, handed, ?_⟩
    intro w small other
    have pfn : s'.pageToPfn = s.pageToPfn := by
      funext p
      rw [pageToPfn, pageToPfn, geometry.base]
    rw [kept'.lookup small, kept.lookup small, pfn]
    have kept : m.after op (w / 16384) = m (w / 16384) := by
      cases op <;> exact Function.update_of_ne other _ _
    rw [kept]

end PageMem

theorem TableRun.kept {s₀ : PageMem} {root : Nat} {l₀ : List Nat} (free : s₀.FreeList l₀) (phys : s₀.PhysBound)
    {s : PageMem} {c : Cpu} {m : PageMap} (run : TableRun s₀ root s c m) :
    ∃ l₁ r l, l₀ = root :: l₁ ∧ PageMem.TableKept l₁ root s m r l := by
  induction run with
  | start c new =>
    obtain ⟨l₁, r, same, kept⟩ := PageMem.TableKept.start free phys new
    exact ⟨l₁, r, l₁, same, kept⟩
  | step _ allowed done memory ih =>
    obtain ⟨l₁, r, l, same, kept⟩ := ih
    obtain ⟨retcode, p, s', c', run, -, rest⟩ := kept.exec _ allowed
    rw [done] at run
    cases run
    obtain ⟨-, -, -, r', l', kept'⟩ := rest memory
    exact ⟨l₁, r', l', same, kept'⟩

/-- In every run the page table is the map of what was inserted and not removed. -/
theorem TableRun.isMap {s₀ : PageMem} {root : Nat} {l₀ : List Nat} (free : s₀.FreeList l₀) (phys : s₀.PhysBound)
    {s : PageMem} {c : Cpu} {m : PageMap} (run : TableRun s₀ root s c m) : TableIs l₀.tail root s c m := by
  obtain ⟨l₁, r, l, rfl, kept⟩ := run.kept free phys
  have sorted := List.pairwise_cons.mp free.sorted
  exact kept.tableIs sorted.2 (fun member => Nat.lt_irrefl root (sorted.1 root member)) c

namespace TableRun

/-- The machine with eight pages and a new table, and then an operation on it. -/
def boot : Option Nat × PageMem :=
  ((initPageArray 0 8 ⟨id, id⟩ (fun _ => 0)).pgdirNew 0xff).value (none, initPageArray 0 8 ⟨id, id⟩ (fun _ => 0))

def idleCpu : Cpu := ⟨64, fun _ => ⟨0, 0, false, 0, 0⟩, 0, 1, 0, 0, id, 0⟩

def did (s : PageMem) (c : Cpu) (op : TableOp) : Int × Option Nat × PageMem × Cpu := (s.tableExec c 1 op).value (0, none, s, c)

theorem did_run {s₀ s : PageMem} {c : Cpu} {m : PageMap} {op : TableOp} {x : Int × Option Nat × PageMem × Cpu}
    (run : TableRun s₀ 1 s c m) (result : x = did s c op) (allowed : TableAllowed s m op)
    (returns : (s.tableExec c 1 op).isOk = true ∧ x.1 = 0) : TableRun s₀ 1 x.2.2.1 x.2.2.2 (m.after op) := by
  have done : s.tableExec c 1 op = .ok x := by
    rw [result, did]
    exact Res.eq_value (0, none, s, c) returns.1
  obtain ⟨retcode, p, s', c'⟩ := x
  exact run.step allowed done (by rw [show retcode = 0 from returns.2]; decide)

/-- Two pages are mapped through two directories, and the first one is unmapped again. -/
def mapped₁ : Int × Option Nat × PageMem × Cpu := did boot.2 idleCpu (.insert 0x4000 5 0 false)
def mapped₂ : Int × Option Nat × PageMem × Cpu := did mapped₁.2.2.1 mapped₁.2.2.2 (.insert (2 ^ 25) 6 0 false)
def unmapped₃ : Int × Option Nat × PageMem × Cpu := did mapped₂.2.2.1 mapped₂.2.2.2 (.remove 0x4000)

def lastMap : PageMap :=
  ((PageMap.after (fun _ => none) (.insert 0x4000 5 0 false)).after (.insert (2 ^ 25) 6 0 false)).after (.remove 0x4000)

theorem isMap_unmapped : lastMap 1 = none ∧ lastMap 2048 = some 6 ∧
    TableRun (initPageArray 0 8 ⟨id, id⟩ (fun _ => 0)) 1 unmapped₃.2.2.1 unmapped₃.2.2.2 lastMap ∧
    TableIs [2, 3, 4, 5, 6, 7] 1 unmapped₃.2.2.1 unmapped₃.2.2.2 lastMap := by
  have pages : (PageMem.bootLedger 8).free.sort = [1, 2, 3, 4, 5, 6, 7] := (PageMem.bootLedger_sort 8).trans (by decide)
  have free := (PageMem.initPageArray_books 0 8 ⟨id, id⟩ (fun _ => 0)).free
  rw [pages] at free
  have phys : (initPageArray 0 8 ⟨id, id⟩ (fun _ => 0)).PhysBound := by
    rw [PageMem.PhysBound]
    decide
  have new : (initPageArray 0 8 ⟨id, id⟩ (fun _ => 0)).pgdirNew 0xff = .ok (some 1, boot.2) := by
    have root : boot.1 = some 1 := by decide +kernel
    rw [← root]
    exact Res.eq_value (none, initPageArray 0 8 ⟨id, id⟩ (fun _ => 0)) (by decide +kernel)
  have run₀ : TableRun _ 1 boot.2 idleCpu fun _ => none := .start idleCpu new
  have run₁ := run₀.did_run (x := mapped₁) rfl ⟨by decide, by decide, by decide, by decide +kernel, by simp⟩ (by decide +kernel)
  have unmapped : ∀ old, (PageMap.after (fun _ => none) (.insert 0x4000 5 0 false)) (2 ^ 25 / 16384) ≠ some old := fun old mapped => by
    cases mapped
  have run₂ := run₁.did_run (x := mapped₂) rfl
    ⟨by decide, by decide, by decide, by decide +kernel, fun old mapped => absurd mapped (unmapped old)⟩ (by decide +kernel)
  have run₃ : TableRun _ 1 unmapped₃.2.2.1 unmapped₃.2.2.2 lastMap := run₂.did_run rfl ⟨by decide, by decide⟩ (by decide +kernel)
  exact ⟨by decide, by decide, run₃, run₃.isMap free phys⟩

end TableRun

end Xv6
