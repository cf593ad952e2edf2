import Xv6.PageTableRuns

namespace Xv6.PageMem

/-- Lookups, directories, their counters and the free pages are as before. -/
structure Untouched (s s' : PageMem) (root : Nat) : Prop where
  lookup : ∀ w, s'.archMmGetPfn (s'.pageToKvaddr root) w = s.archMmGetPfn (s.pageToKvaddr root) w
  reaches : ∀ n d, Reaches s' root n d ↔ Reaches s root n d
  counted : ∀ n d, Reaches s root n d → (s'.page d).type = .pgdir ∧ (s'.pgdirExtra d).1 = (s.pgdirExtra d).1
  free : ∀ l, FreeList s l → FreeList s' l

variable {s s' : PageMem} {r : Dirs} {root d v : Nat} {l : List Nat}

/-- The same tree beside the same free pages. -/
theorem Untouched.of_moves (tree : Tree s r) (rooted : r.dir [] = some root) (free : FreeList s l)
    (moves : Moves s s' r r l l) : Untouched s s' root := by
  refine ⟨fun w => ?_, fun n d => ?_, fun n d reach => ?_, fun l₁ free₁ => ?_⟩
  · rw [archMmGetPfn_spec moves.tree rooted, archMmGetPfn_spec tree rooted]
    simp only [pageToPfn, moves.geometry.base]
  · rw [moves.tree.reaches_iff rooted, tree.reaches_iff rooted]
  · obtain ⟨π, -, found⟩ := (tree.reaches_iff rooted).mp reach
    have before := tree.dirs π d found
    have after := moves.tree.dirs π d found
    refine ⟨after.type, ?_⟩
    rw [after.pgdirExtra, before.pgdirExtra]
    refine used_congr (fun i bound => ?_)
    rw [moves.tree.words π d i found bound, tree.words π d i found bound, kvaddr_frame moves.geometry,
      leafWord_frame moves.geometry]
  · rw [free₁.unique free]
    exact moves.free

/-- How `pgtable_insert` fails: on page 0, in `pgtable_get`, or on an entry that is there. -/
theorem pgtableInsert_failed {pgd page perm : Nat} {replace : Bool} {retcode : Int} {p : Option Nat}
    (done : s.pgtableInsert pgd v page perm replace = .ok (retcode, p, s')) (failed : retcode ≠ 0) :
    (pgaddrRounddown v = 0 ∧ s' = s) ∨ (pgaddrRounddown v ≠ 0 ∧ ∃ pdesc code,
      s.pgtableCreate pgd (pgaddrRounddown v) = .ok (code, pdesc, s') ∧
        (code ≠ 0 ∨ s'.mapsOther (s'.pdeGetEntry pdesc.pte pdesc.ptx) page = .ok true)) := by
  simp only [pgtableInsert] at done
  split at done
  · rename_i zero
    cases done
    exact .inl ⟨zero, rfl⟩
  · rename_i nonzero
    obtain ⟨⟨code, pdesc, s₁⟩, create, rest⟩ := Res.bind_eq_ok.mp done
    refine .inr ⟨nonzero, pdesc, code, ?_⟩
    dsimp only at rest
    split at rest
    · rename_i bad
      cases rest
      exact ⟨create, .inl bad⟩
    · obtain ⟨other, maps, rest⟩ := Res.bind_eq_ok.mp rest
      split at rest
      · rename_i isOther
        split at rest
        · cases rest
          exact ⟨create, .inr (isOther ▸ maps)⟩
        · obtain ⟨⟨old, s₂⟩, -, rest⟩ := Res.bind_eq_ok.mp rest
          obtain ⟨q, -, rest⟩ := Res.bind_eq_ok.mp rest
          obtain ⟨⟨w, s₃⟩, -, rest⟩ := Res.bind_eq_ok.mp rest
          cases rest
          exact absurd rfl failed
      · obtain ⟨⟨w, s₃⟩, -, rest⟩ := Res.bind_eq_ok.mp rest
        cases rest
        exact absurd rfl failed

/-- With both directories there `pgtable_get` changes nothing. -/
theorem pgtableCreate_present (tree : Tree s r) (rooted : r.dir [] = some root) (lower : r.dir [pmx v, pgx v] ≠ none) :
    ∃ pdesc, s.pgtableCreate (s.pageToKvaddr root) v = .ok (0, pdesc, s) := by
  obtain ⟨e, inner⟩ := Option.ne_none_iff_exists'.mp lower
  obtain ⟨d, upper⟩ := Option.ne_none_iff_exists'.mp (r.closed _ _ _ inner).2
  have pgdWord := tree.dirEntry rooted (pgx_lt v) (by decide)
  have pmdWord := tree.dirEntry upper (pmx_lt v) (by simp)
  rw [upper, Option.elim_some] at pgdWord
  rw [inner, Option.elim_some] at pmdWord
  refine ⟨⟨s.pageToKvaddr root, s.pageToKvaddr d, s.pageToKvaddr e, pgx v, pmx v, ptx v⟩, ?_⟩
  simp only [pgtableCreate, pdeObtain, pgdWord, pmdWord, ne_eq, kvaddr_pos, not_false_eq_true, if_true, if_false, Res.ok_bind]

/-- Where nothing is lost: a walk that fails puts everything back. -/
theorem pgtableInsert_untouched {page perm : Nat} {replace : Bool} {retcode : Int} {p : Option Nat} (tree : Tree s r)
    (rooted : r.dir [] = some root) (free : FreeList s l) (phys : PhysBound s) (small : v < 2 ^ 64)
    (kept : l ≠ [] ∨ r.dir [pgx v] = none ∨ r.dir [pmx v, pgx v] ≠ none ∨ pgaddrRounddown v = 0)
    (done : s.pgtableInsert (s.pageToKvaddr root) v page perm replace = .ok (retcode, p, s')) (failed : retcode ≠ 0) :
    Untouched s s' root := by
  obtain ⟨inner, middle, upper⟩ := path_split (path_rounddown small)
  have refl : Untouched s s root := .of_moves tree rooted free (.refl tree free)
  obtain ⟨-, rfl⟩ | ⟨nonzero, pdesc, code, create, why⟩ := pgtableInsert_failed done failed
  · exact refl
  · by_cases lower : r.dir [pmx v, pgx v] = none
    · by_cases enough : missing r (pgaddrRounddown v) ≤ l.length
      · -- the walk succeeds, and the word of a new directory is 0
        exfalso
        obtain ⟨s₁, r₁, d, e, create₁, moves, found, leaf, -, -⟩ := pgtableCreate_spec tree rooted free phys enough
        rw [create] at create₁
        obtain ⟨rfl, rfl, rfl⟩ : code = 0 ∧ _ ∧ _ := by simpa using Except.ok.inj create₁
        rw [inner, middle, upper] at why
        rw [middle, upper] at found
        have word := moves.tree.leafEntry found (ptx_lt v) rfl
        have vacant : r₁.leaf (ptx v :: [pmx v, pgx v]) = none := by
          rw [leaf]
          by_contra present
          exact Radix.not_taken lower (ptx v) (.inr present)
        rw [vacant, Option.elim_none, moves.geometry.kvaddr] at word
        rw [word] at why
        simp [mapsOther] at why
      · have scarce : l.length < missing r (pgaddrRounddown v) := by omega
        cases above : r.dir [pgx (pgaddrRounddown v)] with
        | none =>
          obtain ⟨pdesc₁, s₁, create₁, moves⟩ := pgtableCreate_undone tree rooted free phys scarce above
          rw [create] at create₁
          obtain ⟨-, -, rfl⟩ : code = -enomem ∧ pdesc = pdesc₁ ∧ s' = s₁ := by simpa using Except.ok.inj create₁
          exact .of_moves tree rooted free moves
        | some d =>
          obtain ⟨rfl, -⟩ := missing_lower scarce above
          rw [upper] at above
          simp [above, lower, nonzero] at kept
    · obtain ⟨pdesc₁, create₁⟩ := pgtableCreate_present (v := pgaddrRounddown v) tree rooted (by rwa [middle, upper])
      rw [create] at create₁
      obtain ⟨-, -, rfl⟩ : code = 0 ∧ pdesc = pdesc₁ ∧ s' = s := by simpa using Except.ok.inj create₁
      exact refl

/-- Where the upper directory is there, the lower one is not, and there is no page
for it: the root loses the entry of the upper one. -/
theorem pgtableInsert_touched (page perm : Nat) (replace : Bool) (tree : Tree s r) (rooted : r.dir [] = some root)
    (free : FreeList s []) (phys : PhysBound s) (small : v < 2 ^ 64) (nonzero : pgaddrRounddown v ≠ 0)
    (upper : r.dir [pgx v] = some d) (lower : r.dir [pmx v, pgx v] = none) :
    ∃ s', s.pgtableInsert (s.pageToKvaddr root) v page perm replace = .ok (-enomem, none, s') ∧
      ¬ Untouched s s' root := by
  obtain ⟨-, middle, outer⟩ := path_split (path_rounddown small)
  rw [← outer] at upper
  rw [← outer, ← middle] at lower
  obtain ⟨pdesc, s', l', create, tree', -, -, -, -⟩ :=
    pgtableCreate_unlinked tree rooted free phys.nrPages_lt upper lower
  refine ⟨s', pgtableInsert_nomem page perm replace nonzero create, fun same => ?_⟩
  have rooted' : (r.cut (pgx (pgaddrRounddown v)) []).dir [] = some root := by simpa [Radix.cut] using rooted
  have before : Reaches s root 1 d := (tree.reaches_iff rooted).mpr ⟨_, rfl, upper⟩
  obtain ⟨π, -, found⟩ := (tree'.reaches_iff rooted').mp ((same.reaches 1 d).mpr before)
  simp only [Radix.cut] at found
  split at found
  · cases found
  · rename_i outside
    exact outside (r.distinct _ _ d upper found ▸ List.suffix_refl _)

/-- A failing `pgtable_insert` leaves everything as it was unless there is no free
page while the upper directory is there and the lower one is not. -/
theorem pgtableInsert_untouched_iff (page perm : Nat) (replace : Bool) (tree : Tree s r) (rooted : r.dir [] = some root)
    (free : FreeList s l) (phys : PhysBound s) (small : v < 2 ^ 64) :
    (∀ retcode p s', s.pgtableInsert (s.pageToKvaddr root) v page perm replace = .ok (retcode, p, s') → retcode ≠ 0 →
      Untouched s s' root) ↔
    ¬ (pgaddrRounddown v ≠ 0 ∧ s.nrFreePages = 0 ∧ (s.pgtableFind (s.pageToKvaddr root) v).2.pmd ≠ 0 ∧
      (s.pgtableFind (s.pageToKvaddr root) v).2.pte = 0) := by
  have upperIff : (s.pgtableFind (s.pageToKvaddr root) v).2.pmd ≠ 0 ↔ r.dir [pgx v] ≠ none := by
    rw [pgtableFind_spec tree rooted]
    cases r.dir [pgx v] <;> simp [kvaddr_pos]
  have lowerIff : (s.pgtableFind (s.pageToKvaddr root) v).2.pte = 0 ↔ r.dir [pmx v, pgx v] = none := by
    rw [pgtableFind_spec tree rooted]
    cases r.dir [pmx v, pgx v] <;> simp [kvaddr_pos]
  rw [upperIff, lowerIff, free.count, List.length_eq_zero_iff]
  constructor
  · rintro all ⟨nonzero, rfl, present, lower⟩
    obtain ⟨d, upper⟩ := Option.ne_none_iff_exists'.mp present
    obtain ⟨s', run, touched⟩ := pgtableInsert_touched page perm replace tree rooted free phys small nonzero upper lower
    exact touched (all _ _ _ run (by decide))
  · intro fine retcode p s' done failed
    refine pgtableInsert_untouched tree rooted free phys small ?_ done failed
    by_contra lost
    simp only [not_or, not_not, ne_eq] at lost
    exact fine ⟨lost.2.2.2, lost.1, lost.2.1, lost.2.2.1⟩

/-- A page mapped at `0x4000` on a machine of `n` pages; those from 4 on are free. -/
theorem mappedTable {n : Nat} (enough : 4 ≤ n) (small : n ≤ 5) :
    ∃ s r, Tree s r ∧ r.dir [] = some 1 ∧ FreeList s (List.range' 4 (n - 4)) ∧ PhysBound s ∧
      r.leaf (path 0x4000) = some (3, 0) ∧ r.dir [pgx 0x4000] ≠ none ∧
      ∀ ρ, ρ ≠ [] → ρ ≠ [pgx 0x4000] → ρ ≠ [pmx 0x4000, pgx 0x4000] → r.dir ρ = none := by
  have pages : (bootLedger n).free.sort = 1 :: 2 :: 3 :: List.range' 4 (n - 4) := by
    rw [bootLedger_sort]
    obtain rfl | rfl : n = 4 ∨ n = 5 := by omega
    · decide
    · decide
  have free := (initPageArray_books 0 n ⟨id, id⟩ (fun _ => 0)).free
  rw [pages] at free
  have phys : (initPageArray 0 n ⟨id, id⟩ (fun _ => 0)).PhysBound := by
    show 0 + n ≤ 2 ^ 34
    omega
  obtain ⟨s, -, free', dir, zero, geometry, -⟩ := pgdirNew_spec free 0xff
  have rooted : (Radix.single 1 : Dirs).dir [] = some 1 := by simp [Radix.single]
  have inside : 3 < s.nrPages := by
    rw [geometry.pages]
    show 3 < n
    omega
  have two : missing (Radix.single 1 : Dirs) 0x4000 = 2 := by simp [missing, Radix.single]
  obtain ⟨s₁, r₁, -, moves, -, leaf, dirs⟩ := @pgtableInsert_spec s _ 1 0x4000 3 _ false 0 (.single dir zero) rooted free'
    (phys.frame geometry) (Radix.single_full 1) (by decide) (by decide) inside (by rw [two]; exact Nat.le_add_left ..)
    (by simp [Radix.single])
  have free₁ := moves.free
  rw [two, List.drop_succ_cons, List.drop_succ_cons, List.drop_zero] at free₁
  have mapped : r₁.leaf (path 0x4000) = some (3, 0) := by rw [leaf, Function.update_self]
  obtain ⟨i, ρ, same, -, -, inner⟩ := r₁.hung (path 0x4000) (3, 0) mapped
  obtain ⟨-, rfl⟩ := List.cons.inj same
  obtain ⟨e, lower⟩ := Option.ne_none_iff_exists'.mp inner
  refine ⟨s₁, r₁, moves.tree, moves.root.trans rooted, free₁, (phys.frame geometry).frame moves.geometry, mapped,
    (r₁.closed _ _ _ lower).2, fun ρ below upper lower => ?_⟩
  rw [dirs ρ upper lower]
  simp [Radix.single, below]

/-- With one free page the upper directory is made, and given back when there is none for the lower one. -/
theorem pgtableInsert_untouched_undone : ∃ s s' : PageMem, s.tableEntry (s.pageToKvaddr 1) 0x4000 ≠ 0 ∧ s.nrFreePages = 1 ∧
    s.pgtableInsert (s.pageToKvaddr 1) (2 ^ 36) 3 0 false = .ok (-enomem, none, s') ∧ Untouched s s' 1 := by
  obtain ⟨s, r, tree, rooted, free, phys, leaf, -, none⟩ := mappedTable (n := 5) (by decide) (by decide)
  have round : pgaddrRounddown (2 ^ 36) = 2 ^ 36 := by decide
  have upper : r.dir [pgx (2 ^ 36)] = Option.none := none _ (by simp) (by simp [pgx_eq]) (by simp)
  have lower : r.dir [pmx (2 ^ 36), pgx (2 ^ 36)] = Option.none := none _ (by simp) (by simp) (by simp [pgx_eq])
  have scarce : (List.range' 4 (5 - 4)).length < missing r (2 ^ 36) := by
    rw [missing, if_pos upper, if_pos lower]
    decide
  obtain ⟨pdesc, s', create, -⟩ := pgtableCreate_undone tree rooted free phys scarce upper
  have run : s.pgtableInsert (s.pageToKvaddr 1) (2 ^ 36) 3 0 false = .ok (-enomem, Option.none, s') :=
    pgtableInsert_nomem 3 0 false (by decide) (by rw [round]; exact create)
  have untouched := (pgtableInsert_untouched_iff 3 0 false tree rooted free phys (by decide : 2 ^ 36 < 2 ^ 64)).mpr (by
    rintro ⟨-, nothing, -⟩
    rw [free.count] at nothing
    cases nothing)
  exact ⟨s, s', (tableEntry_ne_zero tree rooted).mpr ⟨_, leaf⟩, free.count, run, untouched _ _ s' run (by decide)⟩

/-- The directories of one page take the last memory, and the insertion of a page
under the same upper directory unlinks them. -/
theorem not_pgtableInsert_untouched : ¬ ∀ (s : PageMem) (r : Dirs) (root v page perm : Nat) (replace : Bool) (l : List Nat),
    Tree s r → r.dir [] = some root → FreeList s l → PhysBound s → v < 2 ^ 64 →
    ∀ retcode p s', s.pgtableInsert (s.pageToKvaddr root) v page perm replace = .ok (retcode, p, s') → retcode ≠ 0 →
      Untouched s s' root := by
  intro always
  obtain ⟨s, r, tree, rooted, free, phys, -, some, none⟩ := mappedTable (n := 4) le_rfl (by decide)
  obtain ⟨d, upper⟩ := Option.ne_none_iff_exists'.mp some
  have absent : r.dir [pmx (2 ^ 25), pgx (2 ^ 25)] = Option.none :=
    none _ (by simp) (by simp) (by simp [pmx_eq, pgx_eq])
  have samePgx : pgx 0x4000 = pgx (2 ^ 25) := by simp [pgx_eq]
  obtain ⟨s', run, touched⟩ := pgtableInsert_touched 3 0 false tree rooted free phys
    (by decide : 2 ^ 25 < 2 ^ 64) (by decide) (samePgx ▸ upper) absent
  exact touched (always _ _ _ _ _ _ _ _ tree rooted free phys (by decide) _ _ _ run (by decide))

end Xv6.PageMem
