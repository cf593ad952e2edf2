import Xv6.PageTree

namespace Xv6

theorem and_mask_shiftRight (v k : Nat) : (v &&& pdeMask <<< k) >>> k = v / 2 ^ k % 2048 := by
  rw [← Nat.shiftRight_eq_div_pow, ← Nat.and_two_pow_sub_one_eq_mod _ 11]
  apply Nat.eq_of_testBit_eq
  intro i
  simp [Nat.testBit_shiftRight, Nat.testBit_and, Nat.testBit_shiftLeft, pdeMask, pdeBits]

theorem ptx_eq (v : Nat) : ptx v = v / 2 ^ 14 % 2048 := and_mask_shiftRight v 14
theorem pmx_eq (v : Nat) : pmx v = v / 2 ^ 25 % 2048 := and_mask_shiftRight v 25
theorem pgx_eq (v : Nat) : pgx v = v / 2 ^ 36 % 2048 := and_mask_shiftRight v 36

theorem pgx_lt (v : Nat) : pgx v < 2048 := by
  rw [pgx_eq]
  exact Nat.mod_lt _ (by decide)

theorem pmx_lt (v : Nat) : pmx v < 2048 := by
  rw [pmx_eq]
  exact Nat.mod_lt _ (by decide)

theorem ptx_lt (v : Nat) : ptx v < 2048 := by
  rw [ptx_eq]
  exact Nat.mod_lt _ (by decide)

/-- The path of an address, innermost index first. -/
def path (v : Nat) : List Nat := [ptx v, pmx v, pgx v]

/-- Below the 47 bits of the table addresses share a path when they share a page. -/
theorem path_inj {v w : Nat} (left : v < 2 ^ 47) (right : w < 2 ^ 47) :
    path v = path w ↔ v / 16384 = w / 16384 := by
  simp only [path, ptx_eq, pmx_eq, pgx_eq, List.cons.injEq, and_true]
  omega

theorem path_page {v w : Nat} (same : v / 16384 = w / 16384) : path v = path w := by
  simp only [path, ptx_eq, pmx_eq, pgx_eq]
  have middle : v / 2 ^ 25 = w / 2 ^ 25 := by omega
  have high : v / 2 ^ 36 = w / 2 ^ 36 := by omega
  rw [middle, high, show v / 2 ^ 14 = w / 2 ^ 14 from same]

theorem path_rounddown {v : Nat} (small : v < 2 ^ 64) : path (pgaddrRounddown v) = path v := by
  refine path_page ?_
  rw [pgaddrRounddown_eq small]
  omega

namespace PageMem

/-- A change of a tree that takes its directories from the free pages and gives
them back there. -/
structure Moves (s s' : PageMem) (r r' : Dirs) (l l' : List Nat) : Prop where
  tree : Tree s' r'
  free : FreeList s' l'
  geometry : SameGeometry s s'
  owned : ∀ p, p ∈ l' ∨ r'.Owns p ↔ p ∈ l ∨ r.Owns p
  agree : ∀ p, p ∉ l → ¬ r.Owns p → s.Agree s' p
  root : r'.dir [] = r.dir []

theorem Moves.refl {s : PageMem} {r : Dirs} {l : List Nat} (tree : Tree s r) (free : FreeList s l) :
    Moves s s r r l l :=
  ⟨tree, free, .refl s, fun _ => Iff.rfl, fun p _ _ => .refl s p, rfl⟩

theorem Moves.trans {s s' s'' : PageMem} {r r' r'' : Dirs} {l l' l'' : List Nat} (first : Moves s s' r r' l l')
    (second : Moves s' s'' r' r'' l' l'') : Moves s s'' r r'' l l'' := by
  refine ⟨second.tree, second.free, first.geometry.trans second.geometry,
    fun p => (second.owned p).trans (first.owned p), ?_, second.root.trans first.root⟩
  intro p outFree outTree
  have out : ¬ (p ∈ l' ∨ r'.Owns p) := fun inside => ((first.owned p).mp inside).elim outFree outTree
  exact (first.agree p outFree outTree).trans first.geometry
    (second.agree p (fun inFree => out (.inl inFree)) (fun inTree => out (.inr inTree)))

theorem Tree.dirEntry {s : PageMem} {r : Dirs} (tree : Tree s r) {π : List Nat} {d i : Nat} (found : r.dir π = some d)
    (bound : i < 2048) (shallow : π.length < 2) :
    s.pdeGetEntry (s.pageToKvaddr d) i = (r.dir (i :: π)).elim 0 s.pageToKvaddr :=
  (tree.words π d i found bound).trans (Radix.word_dir (by rw [List.length_cons]; omega))

theorem Tree.leafEntry {s : PageMem} {r : Dirs} (tree : Tree s r) {π : List Nat} {d i : Nat} (found : r.dir π = some d)
    (bound : i < 2048) (deep : π.length = 2) :
    s.pdeGetEntry (s.pageToKvaddr d) i = (r.leaf (i :: π)).elim 0 s.leafWord :=
  (tree.words π d i found bound).trans (Radix.word_leaf (by rw [List.length_cons]; omega))

/-- The walk without `create`, up to the last directory there is. -/
theorem pgtableFind_spec {s : PageMem} {r : Dirs} {root : Nat} (tree : Tree s r) (rooted : r.dir [] = some root)
    (v : Nat) :
    s.pgtableFind (s.pageToKvaddr root) v =
      (if r.dir [pmx v, pgx v] = none then -enoent else 0,
        ⟨s.pageToKvaddr root, (r.dir [pgx v]).elim 0 s.pageToKvaddr, (r.dir [pmx v, pgx v]).elim 0 s.pageToKvaddr,
          pgx v, pmx v, ptx v⟩) := by
  have upper := tree.dirEntry rooted (pgx_lt v) (by decide)
  cases middle : r.dir [pgx v] with
  | none =>
    have below : r.dir [pmx v, pgx v] = none := by
      by_contra present
      exact Radix.not_taken middle (pmx v) (.inl present)
    rw [middle, Option.elim_none] at upper
    simp [pgtableFind, upper, below]
  | some d =>
    rw [middle, Option.elim_some] at upper
    have lower := tree.dirEntry middle (pmx_lt v) (by simp)
    cases inner : r.dir [pmx v, pgx v] with
    | none =>
      rw [inner, Option.elim_none] at lower
      simp [pgtableFind, upper, lower, kvaddr_pos]
    | some e =>
      rw [inner, Option.elim_some] at lower
      simp [pgtableFind, upper, lower, kvaddr_pos]

/-- The word the page table has for an address, 0 when it has none. -/
def tableEntry (s : PageMem) (pgd vaddr : Nat) : Nat :=
  let pdesc := (s.pgtableFind pgd vaddr).2
  if pdesc.pte ≠ 0 then s.pdeGetEntry pdesc.pte pdesc.ptx else 0

theorem tableEntry_spec {s : PageMem} {r : Dirs} {root : Nat} (tree : Tree s r) (rooted : r.dir [] = some root)
    (v : Nat) : s.tableEntry (s.pageToKvaddr root) v = (r.leaf (path v)).elim 0 s.leafWord := by
  simp only [tableEntry, pgtableFind_spec tree rooted]
  cases inner : r.dir [pmx v, pgx v] with
  | none =>
    have absent : r.leaf (path v) = none := by
      by_contra present
      exact Radix.not_taken inner (ptx v) (.inr present)
    simp [absent]
  | some d =>
    simp only [Option.elim_some, ne_eq, kvaddr_pos, not_false_eq_true, if_true]
    exact tree.leafEntry inner (ptx_lt v) rfl

/-- The word is not 0 exactly for a page that is mapped. -/
theorem tableEntry_ne_zero {s : PageMem} {r : Dirs} {root : Nat} (tree : Tree s r) (rooted : r.dir [] = some root)
    {v : Nat} : s.tableEntry (s.pageToKvaddr root) v ≠ 0 ↔ ∃ w, r.leaf (path v) = some w := by
  rw [tableEntry_spec tree rooted]
  cases r.leaf (path v) with
  | none => simp
  | some w => simpa using leafWord_pos s w

theorem archMmGetPfn_eq (s : PageMem) (pgd v : Nat) : s.archMmGetPfn pgd v = s.tableEntry pgd v >>> pgshift := by
  simp only [archMmGetPfn, tableEntry]
  split
  · rfl
  · rw [Nat.zero_shiftRight]

/-- `arch_mm_get_pfn` reads the leaf of the address. -/
theorem archMmGetPfn_spec {s : PageMem} {r : Dirs} {root : Nat} (tree : Tree s r) (rooted : r.dir [] = some root)
    (v : Nat) : s.archMmGetPfn (s.pageToKvaddr root) v = (r.leaf (path v)).elim 0 (fun w => s.pageToPfn w.1) := by
  rw [archMmGetPfn_eq, tableEntry_spec tree rooted]
  cases r.leaf (path v) with
  | none => simp
  | some w => exact leafWord_pfn s w

/-- A directory at hand, or a new one from the lowest free page. -/
theorem pdeObtain_spec {s : PageMem} {r : Dirs} {π l : List Nat} {e i : Nat} (tree : Tree s r)
    (found : r.dir π = some e) (bound : i < 2048) (shallow : π.length < 2) (free : FreeList s l)
    (phys : PhysBound s) (enough : (if r.dir (i :: π) = none then 1 else 0) ≤ l.length) :
    ∃ (s' : PageMem) (r' : Dirs) (c : Nat), s.pdeObtain (s.pageToKvaddr e) i = .ok (s.pageToKvaddr c, s') ∧
      Moves s s' r r' l (l.drop (if r.dir (i :: π) = none then 1 else 0)) ∧ r'.dir (i :: π) = some c ∧
      r'.leaf = r.leaf ∧ (∀ ρ, ρ ≠ i :: π → r'.dir ρ = r.dir ρ) ∧ (r.FullBut π → r'.FullBut (i :: π)) := by
  have word := tree.dirEntry found bound shallow
  cases child : r.dir (i :: π) with
  | some c =>
    rw [child, Option.elim_some] at word
    refine ⟨s, r, c, ?_, by simpa using Moves.refl tree free, child, rfl, fun _ _ => rfl, ?_⟩
    · simp only [pdeObtain, word, ne_eq, kvaddr_pos, not_false_eq_true, if_true]
    · exact fun full => Radix.Full.but (full.full (fun _ => ⟨i, .inl (by simp [child])⟩)) _
  | none =>
    rw [child, Option.elim_none] at word
    have one : (if (none : Option Nat) = none then 1 else 0) = 1 := if_pos rfl
    rw [child, one] at enough
    rw [one]
    obtain ⟨x, rest, rfl⟩ := List.exists_cons_of_length_pos enough
    have parent : r.dir π ≠ none := by simp [found]
    have fresh : ∀ ρ, r.dir ρ ≠ some x := fun ρ known => tree.not_free ⟨ρ, known⟩ free (by simp)
    obtain ⟨s', run, tree', free', geometry, agree⟩ := tree.addDir found bound shallow child free phys parent fresh
    refine ⟨s', r.addDir i π x bound parent shallow fresh, x, ?_, ⟨tree', free', geometry, ?_, agree, ?_⟩, ?_, rfl,
      ?_, fun full => full.addDir bound parent shallow fresh⟩
    · simp only [pdeObtain, word, ne_eq, not_true, if_false, pdeAddPgdir, kvaddrToPage_kvaddr, Res.ok_bind, run]
    · intro p
      have owns := Radix.addDir_owns bound parent shallow fresh child p
      simp only [List.drop_succ_cons, List.drop_zero, List.mem_cons]
      rw [owns]
      exact or_left_comm.trans or_assoc.symm
    · simp [Radix.addDir]
    · simp [Radix.addDir]
    · intro ρ other
      simp only [Radix.addDir, Function.update_of_ne other]

theorem pdeObtain_none {s : PageMem} {r : Dirs} {π : List Nat} {e i : Nat} (tree : Tree s r)
    (found : r.dir π = some e) (bound : i < 2048) (shallow : π.length < 2) (free : FreeList s [])
    (missing : r.dir (i :: π) = none) : s.pdeObtain (s.pageToKvaddr e) i = .ok (0, s) := by
  have word := tree.dirEntry found bound shallow
  rw [missing, Option.elim_none] at word
  simp only [pdeObtain, word, ne_eq, not_true, if_false, pdeAddPgdir, kvaddrToPage_kvaddr, Res.ok_bind,
    pgdirAddPgdir_none (tree.dirs π e found) free]

/-- The directories `pgtable_get` has to make for an address. -/
def missing (r : Dirs) (v : Nat) : Nat :=
  (if r.dir [pgx v] = none then 1 else 0) + (if r.dir [pmx v, pgx v] = none then 1 else 0)

/-- With memory for the directories that are missing the walk with `create` succeeds. -/
theorem pgtableCreate_spec {s : PageMem} {r : Dirs} {root v : Nat} {l : List Nat} (tree : Tree s r)
    (rooted : r.dir [] = some root) (free : FreeList s l) (phys : PhysBound s) (enough : missing r v ≤ l.length) :
    ∃ (s' : PageMem) (r' : Dirs) (d e : Nat), s.pgtableCreate (s.pageToKvaddr root) v =
        .ok (0, ⟨s.pageToKvaddr root, s.pageToKvaddr d, s.pageToKvaddr e, pgx v, pmx v, ptx v⟩, s') ∧
      Moves s s' r r' l (l.drop (missing r v)) ∧ r'.dir [pmx v, pgx v] = some e ∧ r'.leaf = r.leaf ∧
      (r.Full → r'.FullBut [pmx v, pgx v]) ∧ ∀ ρ, ρ ≠ [pgx v] → ρ ≠ [pmx v, pgx v] → r'.dir ρ = r.dir ρ := by
  rw [missing] at enough
  obtain ⟨s₁, r₁, d, upper, moves₁, found₁, leaf₁, same₁, full₁⟩ :=
    pdeObtain_spec tree rooted (pgx_lt v) (by decide) free phys (by omega)
  have inner : r₁.dir [pmx v, pgx v] = r.dir [pmx v, pgx v] := same₁ _ (by simp)
  have enough₁ : (if r₁.dir [pmx v, pgx v] = none then 1 else 0) ≤
      (l.drop (if r.dir [pgx v] = none then 1 else 0)).length := by
    rw [inner, List.length_drop]
    omega
  obtain ⟨s₂, r₂, e, lower, moves₂, found₂, leaf₂, same₂, full₂⟩ :=
    pdeObtain_spec moves₁.tree found₁ (pmx_lt v) (by simp) moves₁.free (phys.frame moves₁.geometry) enough₁
  rw [inner, List.drop_drop] at moves₂
  refine ⟨s₂, r₂, d, e, ?_, moves₁.trans moves₂, found₂, leaf₂.trans leaf₁,
    fun full => full₂ (full₁ (full.but [])), ?_⟩
  · rw [moves₁.geometry.kvaddr, moves₁.geometry.kvaddr] at lower
    simp only [pgtableCreate, upper, Res.ok_bind, kvaddr_pos, if_false, lower]
  · intro ρ notUpper notLower
    rw [same₂ ρ notLower, same₁ ρ notUpper]

/-- Without memory for the upper directory the tree is left as it was; the upper
directory that was made goes back when there is none for the lower one. -/
theorem pgtableCreate_undone {s : PageMem} {r : Dirs} {root v : Nat} {l : List Nat} (tree : Tree s r)
    (rooted : r.dir [] = some root) (free : FreeList s l) (phys : PhysBound s)
    (scarce : l.length < missing r v) (upper : r.dir [pgx v] = none) :
    ∃ pdesc s', s.pgtableCreate (s.pageToKvaddr root) v = .ok (-enomem, pdesc, s') ∧ Moves s s' r r l l := by
  have lower : r.dir [pmx v, pgx v] = none := by
    by_contra present
    exact Radix.not_taken upper (pmx v) (.inl present)
  have word := tree.dirEntry rooted (pgx_lt v) (by decide)
  rw [upper, Option.elim_none] at word
  rw [missing, if_pos upper, if_pos lower] at scarce
  rcases l with _ | ⟨x, rest⟩
  · refine ⟨⟨s.pageToKvaddr root, 0, 0, pgx v, pmx v, ptx v⟩, s, ?_, Moves.refl tree free⟩
    have none := pdeObtain_none tree rooted (pgx_lt v) (by decide) free upper
    simp only [pgtableCreate, none, Res.ok_bind, if_true, pgtableNomem, ne_eq, not_true, false_and, if_false,
      word, and_false, pure_bind]
  · obtain rfl : rest = [] := List.eq_nil_of_length_eq_zero (by rw [List.length_cons] at scarce; omega)
    obtain ⟨s₁, r₁, d, run₁, moves₁, found₁, leaf₁, same₁, -⟩ :=
      pdeObtain_spec tree rooted (pgx_lt v) (by decide) free phys (by rw [upper]; simp)
    rw [upper, if_pos rfl, List.drop_succ_cons, List.drop_zero] at moves₁
    have inner : r₁.dir [pmx v, pgx v] = none := (same₁ _ (by simp)).trans lower
    have none₁ := pdeObtain_none moves₁.tree found₁ (pmx_lt v) (by simp) moves₁.free inner
    have empty : ∀ j, ¬ r₁.Taken (j :: [pgx v]) := by
      rintro j (dir | leaf)
      · rw [same₁ _ (by simp)] at dir
        exact Radix.not_taken upper j (.inl dir)
      · exact leaf (Radix.leaf_shallow (by simp))
    have rooted₁ : r₁.dir [] = some root := moves₁.root.trans rooted
    obtain ⟨s₂, l₂, run₂, tree₂, free₂, perm, geometry₂, agree₂⟩ :=
      moves₁.tree.cut rooted₁ found₁ moves₁.free (by rw [moves₁.geometry.pages]; exact phys.nrPages_lt)
    rw [if_pos ((moves₁.tree.used_zero found₁).mpr empty)] at perm
    have back : r₁.cut (pgx v) [] = r := by
      apply Radix.ext
      · rw [Radix.cut_dir_empty empty]
        funext ρ
        by_cases here : ρ = [pgx v]
        · rw [here, Function.update_self, upper]
        · rw [Function.update_of_ne here, same₁ ρ here]
      · rw [Radix.cut_leaf_empty (by simp [found₁]) empty, leaf₁]
    rw [back] at tree₂
    have dx : d = x := by
      have known := (moves₁.owned d).mp (.inr ⟨_, found₁⟩)
      rcases known with new | ⟨ρ, old⟩
      · simpa using new
      · have same := r₁.distinct _ _ d found₁ ((same₁ ρ (by
          rintro rfl
          rw [upper] at old
          cases old)).trans old)
        rw [← same, upper] at old
        cases old
    have list₂ : l₂ = [x] := by
      rw [dx] at perm
      exact List.perm_singleton.mp perm
    rw [list₂] at free₂
    refine ⟨⟨s.pageToKvaddr root, s.pageToKvaddr d, 0, pgx v, pmx v, ptx v⟩, s₂, ?_, tree₂, free₂,
      moves₁.geometry.trans geometry₂, fun _ => Iff.rfl, ?_, rfl⟩
    · have pmdWord := moves₁.tree.dirEntry found₁ (pmx_lt v) (by simp)
      have pgdWord := moves₁.tree.dirEntry rooted₁ (pgx_lt v) (by decide)
      rw [inner, Option.elim_none] at pmdWord
      rw [found₁, Option.elim_some] at pgdWord
      simp only [moves₁.geometry.kvaddr] at none₁ pmdWord pgdWord
      have load : s₁.kvaddrToPage (s.pageToKvaddr root) = .ok root := by
        rw [← moves₁.geometry.kvaddr]
        exact kvaddrToPage_kvaddr s₁ root
      simp only [pgtableCreate, run₁, none₁, Res.ok_bind, kvaddr_pos, if_false, if_true, pgtableNomem, ne_eq,
        not_true, not_false_eq_true, pmdWord, pgdWord, and_false, and_self, pdeRemovePgdir, load, run₂, pure_bind]
    · intro p outFree outTree
      have px : p ≠ x := fun same => outFree (by simp [same])
      refine (moves₁.agree p outFree outTree).trans moves₁.geometry (agree₂ p (by simp) ?_ ?_)
      · rintro rfl
        exact outTree ⟨[], rooted⟩
      · exact fun same => absurd (same.trans dx) px

/-- Without memory for the lower directory an upper one that was there before is
unlinked, and freed when it was empty. -/
theorem pgtableCreate_unlinked {s : PageMem} {r : Dirs} {root d v : Nat} (tree : Tree s r)
    (rooted : r.dir [] = some root) (free : FreeList s []) (small : s.nrPages < 2 ^ 64)
    (upper : r.dir [pgx v] = some d) (lower : r.dir [pmx v, pgx v] = none) :
    ∃ pdesc s' l', s.pgtableCreate (s.pageToKvaddr root) v = .ok (-enomem, pdesc, s') ∧
      Tree s' (r.cut (pgx v) []) ∧ FreeList s' l' ∧ l'.Perm (if s.used d = 0 then [d] else []) ∧ SameGeometry s s' ∧
      ∀ p, p ≠ root → (p = d → s.used d ≠ 0) → s.Agree s' p := by
  have pgdWord := tree.dirEntry rooted (pgx_lt v) (by decide)
  have pmdWord := tree.dirEntry upper (pmx_lt v) (by simp)
  rw [upper, Option.elim_some] at pgdWord
  rw [lower, Option.elim_none] at pmdWord
  have stop := pdeObtain_none tree upper (pmx_lt v) (by simp) free lower
  obtain ⟨s', l', run, tree', free', perm, geometry, agree⟩ := tree.cut rooted upper free small
  refine ⟨⟨s.pageToKvaddr root, s.pageToKvaddr d, 0, pgx v, pmx v, ptx v⟩, s', l', ?_, tree', free', perm, geometry,
    fun p other => agree p (by simp) other⟩
  have first : s.pdeObtain (s.pageToKvaddr root) (pgx v) = .ok (s.pageToKvaddr d, s) := by
    simp only [pdeObtain, pgdWord, ne_eq, kvaddr_pos, not_false_eq_true, if_true]
  simp only [pgtableCreate, first, stop, Res.ok_bind, kvaddr_pos, if_false, if_true, pgtableNomem, ne_eq, not_true,
    not_false_eq_true, pmdWord, pgdWord, and_false, and_self, pdeRemovePgdir, kvaddrToPage_kvaddr, run, pure_bind]

theorem missing_lower {r : Dirs} {v d : Nat} {l : List Nat} (scarce : l.length < missing r v) (upper : r.dir [pgx v] = some d) :
    l = [] ∧ r.dir [pmx v, pgx v] = none := by
  rw [missing, if_neg (by simp [upper]), Nat.zero_add] at scarce
  have lower : r.dir [pmx v, pgx v] = none := by
    by_contra present
    rw [if_neg present] at scarce
    omega
  rw [if_pos lower] at scarce
  exact ⟨List.eq_nil_of_length_eq_zero (by omega), lower⟩

/-- In a full table the upper directory is not empty, and everything below it is lost. -/
theorem pgtableCreate_lost {s : PageMem} {r : Dirs} {root d v : Nat} {l : List Nat} (tree : Tree s r)
    (rooted : r.dir [] = some root) (free : FreeList s l) (small : s.nrPages < 2 ^ 64) (full : r.Full)
    (scarce : l.length < missing r v) (upper : r.dir [pgx v] = some d) :
    l = [] ∧ ∃ pdesc s', s.pgtableCreate (s.pageToKvaddr root) v = .ok (-enomem, pdesc, s') ∧
      Tree s' (r.cut (pgx v) []) ∧ FreeList s' [] ∧ SameGeometry s s' ∧ ∀ p, p ≠ root → s.Agree s' p := by
  obtain ⟨rfl, lower⟩ := missing_lower scarce upper
  have used : s.used d ≠ 0 := by
    obtain ⟨j, below⟩ := full (pgx v) [] (by simp [upper])
    exact fun zero => (tree.used_zero upper).mp zero j below
  obtain ⟨pdesc, s', l', create, tree', free', perm, geometry, agree⟩ :=
    pgtableCreate_unlinked tree rooted free small upper lower
  rw [if_neg used] at perm
  obtain rfl : l' = [] := List.perm_nil.mp perm
  exact ⟨rfl, pdesc, s', create, tree', free', geometry, fun p other => agree p other (fun _ => used)⟩

/-- An empty directory is cut off and freed. -/
theorem Tree.prune {s : PageMem} {r : Dirs} {π l : List Nat} {e c i : Nat} (tree : Tree s r)
    (found : r.dir π = some e) (child : r.dir (i :: π) = some c) (free : FreeList s l) (small : s.nrPages < 2 ^ 64)
    (empty : ∀ j, ¬ r.Taken (j :: i :: π)) :
    ∃ s' l', s.pdeRemovePgdir (s.pageToKvaddr e) i = .ok s' ∧ Moves s s' r (r.cut i π) l l' := by
  obtain ⟨s', l', run, tree', free', perm, geometry, agree⟩ := tree.cut found child free small
  rw [if_pos ((tree.used_zero child).mpr empty)] at perm
  refine ⟨s', l', ?_, tree', free', geometry, ?_, ?_, ?_⟩
  · simp only [pdeRemovePgdir, kvaddrToPage_kvaddr, Res.ok_bind, run]
  · intro p
    rw [perm.mem_iff, List.mem_cons, Radix.cut_owns child empty]
    have owned : p = c → r.Owns p := fun same => ⟨i :: π, same ▸ child⟩
    tauto
  · intro p outFree outTree
    refine agree p outFree ?_ ?_
    · rintro rfl
      exact outTree ⟨π, found⟩
    · rintro rfl
      exact absurd ⟨i :: π, child⟩ outTree
  · simp [Radix.cut]

/-- The word of the leaf is cleared. -/
theorem Tree.clearLeaf {s : PageMem} {r : Dirs} {π l : List Nat} {e i : Nat} {w : Nat × Nat} (tree : Tree s r)
    (found : r.dir π = some e) (bound : i < 2048) (deep : π.length = 2) (parent : r.dir π ≠ none)
    (free : FreeList s l) (leaf : r.leaf (i :: π) = some w) :
    ∃ s', s.pdeRemoveEntry (s.pageToKvaddr e) i = .ok (s.pageToKvaddr w.1, s') ∧
      Moves s s' r (r.setLeaf i π none bound deep parent) l l := by
  have word := tree.leafEntry found bound deep
  rw [leaf, Option.elim_some] at word
  have slot : s.slot e i = s.leafWord w := word
  have taken : s.slot e i ≠ 0 := by
    rw [slot]
    exact leafWord_pos s w
  obtain ⟨s', n, run, dir', wrote⟩ := pgdirRemoveEntry_spec (tree.dirs π e found) bound taken
  rw [slot, entryAddr_leafWord] at run
  refine ⟨s', ?_, tree.writeLeaf found bound deep parent dir' wrote (by simp), wrote.lists.freeList free,
    wrote.lists.geometry, fun _ => Iff.rfl, ?_, rfl⟩
  · simp only [pdeRemoveEntry, kvaddrToPage_kvaddr, Res.ok_bind, run]
  · intro p _ outTree
    refine wrote.agree p ?_
    rintro rfl
    exact outTree ⟨π, found⟩

/-- A word that is not in use becomes a leaf. -/
theorem Tree.fillLeaf {s : PageMem} {r : Dirs} {π l : List Nat} {e i : Nat} (tree : Tree s r)
    (found : r.dir π = some e) (bound : i < 2048) (deep : π.length = 2) (parent : r.dir π ≠ none)
    (free : FreeList s l) (phys : PhysBound s) (vacant : r.leaf (i :: π) = none) (page perm : Nat)
    (inside : page < s.nrPages) :
    ∃ s', s.pdeAddEntry (s.pageToKvaddr e) i page (pteFlags perm) = .ok (s.pageToKvaddr page, s') ∧
      Moves s s' r (r.setLeaf i π (some (page, perm)) bound deep parent) l l := by
  have word := tree.leafEntry found bound deep
  rw [vacant, Option.elim_none] at word
  obtain ⟨s', n, run, dir', wrote⟩ := pgdirAddEntry_spec (tree.dirs π e found) bound word
    (leafWord_pos s (page, perm)) (leafWord_lt phys inside)
  refine ⟨s', ?_, tree.writeLeaf found bound deep parent dir' wrote (by rintro v ⟨⟩; exact inside),
    wrote.lists.freeList free, wrote.lists.geometry, fun _ => Iff.rfl, ?_, rfl⟩
  · simp only [pdeAddEntry, kvaddrToPage_kvaddr, Res.ok_bind, run]
  · intro p _ outTree
    refine wrote.agree p ?_
    rintro rfl
    exact outTree ⟨π, found⟩

theorem pdePrune_none (s : PageMem) (parent i : Nat) : s.pdePrune 0 parent i = .ok s := by
  simp only [pdePrune, ne_eq, not_true, if_false]

/-- The directory that may be empty is removed when it is; then its parent may be empty. -/
theorem pdePrune_spec {s : PageMem} {r : Dirs} {π l : List Nat} {e c i : Nat} (tree : Tree s r)
    (found : r.dir π = some e) (child : r.dir (i :: π) = some c) (free : FreeList s l) (small : s.nrPages < 2 ^ 64)
    (full : r.FullBut (i :: π)) :
    ∃ s' r' l', s.pdePrune (s.pageToKvaddr c) (s.pageToKvaddr e) i = .ok s' ∧ Moves s s' r r' l l' ∧
      r'.FullBut π ∧ r'.leaf = r.leaf ∧ (∀ ρ, ρ ≠ i :: π → r'.dir ρ = r.dir ρ) ∧
      ∀ ρ d, r'.dir ρ = some d → r.dir ρ = some d := by
  have empties := tree.used_zero child
  have reads : s.pdeEmpty (s.pageToKvaddr c) = .ok (s.used c == 0) := by
    simp only [pdeEmpty, kvaddrToPage_kvaddr, Res.ok_bind, (tree.dirs _ c child).pgdirEmpty]
  by_cases empty : s.used c = 0
  · have none := empties.mp empty
    obtain ⟨s', l', run, moves⟩ := tree.prune found child free small none
    refine ⟨s', _, l', ?_, moves, full.cut (by simp [child]) none, Radix.cut_leaf_empty (by simp [child]) none, ?_, ?_⟩
    · simp only [pdePrune, ne_eq, kvaddr_pos, not_false_eq_true, if_true, reads, Res.ok_bind, empty, beq_self_eq_true,
        run]
    · intro ρ other
      rw [Radix.cut_dir_empty none, Function.update_of_ne other]
    · intro ρ d there
      simp only [Radix.cut] at there
      split at there
      · cases there
      · exact there
  · refine ⟨s, r, l, ?_, .refl tree free, ?_, rfl, fun _ _ => rfl, fun _ _ there => there⟩
    · simp only [pdePrune, ne_eq, kvaddr_pos, not_false_eq_true, if_true, reads, Res.ok_bind, beq_iff_eq, empty,
        if_false]
    · refine (full.full (fun _ => ?_)).but π
      by_contra bare
      exact empty (empties.mpr (fun j taken => bare ⟨j, taken⟩))

/-- A directory of a full tree is not pruned. -/
theorem pdePrune_full {s : PageMem} {r : Dirs} {π : List Nat} {c i : Nat} (tree : Tree s r)
    (child : r.dir (i :: π) = some c) (full : r.Full) (parent : Nat) :
    s.pdePrune (s.pageToKvaddr c) parent i = .ok s := by
  obtain ⟨j, below⟩ := full i π (by simp [child])
  have used : s.used c ≠ 0 := fun zero => (tree.used_zero child).mp zero j below
  have reads : s.pdeEmpty (s.pageToKvaddr c) = .ok (s.used c == 0) := by
    simp only [pdeEmpty, kvaddrToPage_kvaddr, Res.ok_bind, (tree.dirs _ c child).pgdirEmpty]
  simp only [pdePrune, ne_eq, kvaddr_pos, not_false_eq_true, if_true, reads, Res.ok_bind, beq_iff_eq, used, if_false]

/-- `pgtable_remove` takes the leaf of the address, and the directories that it
leaves empty. -/
theorem pgtableClear_spec {s : PageMem} {r : Dirs} {root v : Nat} {l : List Nat} (tree : Tree s r)
    (rooted : r.dir [] = some root) (free : FreeList s l) (small : s.nrPages < 2 ^ 64) (full : r.Full) :
    ∃ s' r' l', s.pgtableClear (s.pageToKvaddr root) v = .ok ((r.leaf (path v)).map Prod.fst, s') ∧
      Moves s s' r r' l l' ∧ r'.Full ∧ r'.leaf = Function.update r.leaf (path v) none ∧
      ∀ ρ d, r'.dir ρ = some d → r.dir ρ = some d := by
  cases leaf : r.leaf (path v) with
  | none =>
    refine ⟨s, r, l, ?_, .refl tree free, full, by rw [← leaf, Function.update_eq_self], fun _ _ there => there⟩
    cases middle : r.dir [pgx v] with
    | none =>
      have inner : r.dir [pmx v, pgx v] = none := by
        by_contra present
        exact Radix.not_taken middle (pmx v) (.inl present)
      simp only [pgtableClear, pgtableFind_spec tree rooted, middle, inner, Option.elim_none, pteTake, ne_eq, not_true,
        false_and, if_false, Res.ok_bind, pdePrune_none, Option.map_none]
    | some d =>
      have upper := pdePrune_full tree middle full (s.pageToKvaddr root)
      cases inner : r.dir [pmx v, pgx v] with
      | none =>
        simp only [pgtableClear, pgtableFind_spec tree rooted, middle, inner, Option.elim_none, Option.elim_some, pteTake,
          ne_eq, not_true, false_and, if_false, Res.ok_bind, pdePrune_none, upper, Option.map_none]
      | some e =>
        have lower := pdePrune_full tree inner full (s.pageToKvaddr d)
        have word := tree.leafEntry inner (ptx_lt v) rfl
        rw [show r.leaf (ptx v :: [pmx v, pgx v]) = none from leaf, Option.elim_none] at word
        simp only [pgtableClear, pgtableFind_spec tree rooted, middle, inner, Option.elim_some, pteTake, ne_eq, word,
          not_true, and_false, if_false, Res.ok_bind, lower, upper, Option.map_none]
  | some w =>
    obtain ⟨i, ρ, same, -, -, present⟩ := r.hung _ w leaf
    obtain ⟨-, rfl⟩ := List.cons.inj same
    obtain ⟨e, inner⟩ := Option.ne_none_iff_exists'.mp present
    obtain ⟨d, middle⟩ := Option.ne_none_iff_exists'.mp (r.closed (pmx v) [pgx v] e inner).2
    obtain ⟨s₁, take, moves₁⟩ := tree.clearLeaf inner (ptx_lt v) rfl present free leaf
    have full₁ := (full.but [pmx v, pgx v]).setLeaf_none (ptx_lt v) rfl present
    have small₁ : s₁.nrPages < 2 ^ 64 := by
      rw [moves₁.geometry.pages]
      exact small
    obtain ⟨s₂, r₂, l₂, lower, moves₂, full₂, leaf₂, same₂, old₂⟩ :=
      pdePrune_spec moves₁.tree middle inner moves₁.free small₁ full₁
    have small₂ : s₂.nrPages < 2 ^ 64 := by
      rw [moves₂.geometry.pages]
      exact small₁
    have middle₂ : r₂.dir [pgx v] = some d := (same₂ _ (by simp)).trans middle
    obtain ⟨s₃, r₃, l₃, upper, moves₃, full₃, leaf₃, -, old₃⟩ :=
      pdePrune_spec moves₂.tree (moves₂.root.trans rooted) middle₂ moves₂.free small₂ full₂
    have word := tree.leafEntry inner (ptx_lt v) rfl
    rw [show r.leaf (ptx v :: [pmx v, pgx v]) = some w from leaf, Option.elim_some] at word
    have back : s₁.kvaddrToPage (s.pageToKvaddr w.1) = .ok w.1 := by
      rw [← moves₁.geometry.kvaddr]
      exact kvaddrToPage_kvaddr s₁ w.1
    have geometry₂ := moves₁.geometry.trans moves₂.geometry
    refine ⟨s₃, r₃, l₃, ?_, (moves₁.trans moves₂).trans moves₃, full₃.full (by simp), ?_,
      fun ρ d there => old₂ ρ d (old₃ ρ d there)⟩
    · rw [moves₁.geometry.kvaddr, moves₁.geometry.kvaddr] at lower
      rw [geometry₂.kvaddr, geometry₂.kvaddr] at upper
      simp only [pgtableClear, pgtableFind_spec tree rooted, middle, inner, Option.elim_some, pteTake, ne_eq, kvaddr_pos,
        not_false_eq_true, word, leafWord_pos, and_self, if_true, take, back, Res.ok_bind, lower, upper,
        Option.map_some]
    · rw [leaf₃, leaf₂]
      rfl

theorem path_split {v w : Nat} (same : path v = path w) : ptx v = ptx w ∧ pmx v = pmx w ∧ pgx v = pgx w := by
  simpa [path] using same

theorem missing_path {r : Dirs} {v w : Nat} (same : path v = path w) : missing r v = missing r w := by
  obtain ⟨-, middle, upper⟩ := path_split same
  rw [missing, missing, middle, upper]

/-- An entry maps another page exactly when its leaf says so. -/
theorem mapsOther_spec (s : PageMem) (leaf : Option (Nat × Nat)) (page : Nat) :
    s.mapsOther (leaf.elim 0 s.leafWord) page = .ok (leaf.elim false (fun w => w.1 != page)) := by
  cases leaf with
  | none => simp [mapsOther]
  | some w =>
    have known : s.pfnToPage (s.leafWord w >>> pgshift) = .ok w.1 := by
      rw [leafWord_pfn, pageToPfn, pfnToPage, if_neg (by omega), Nat.add_sub_cancel]
    simp only [Option.elim_some, mapsOther, ne_eq, leafWord_pos, not_false_eq_true, if_true, known, Res.ok_bind]

/-- `pgtable_insert` with memory for its directories maps the page, and hands
out the one that was mapped before. -/
theorem pgtableInsert_spec {s : PageMem} {r : Dirs} {root v page : Nat} {l : List Nat} {replace : Bool}
    (perm : Nat) (tree : Tree s r) (rooted : r.dir [] = some root) (free : FreeList s l) (phys : PhysBound s) (full : r.Full)
    (small : v < 2 ^ 64) (nonzero : pgaddrRounddown v ≠ 0) (inside : page < s.nrPages)
    (enough : missing r v ≤ l.length)
    (fresh : ∀ w, r.leaf (path v) = some w → w.1 ≠ page ∧ replace = true) :
    ∃ s' r', s.pgtableInsert (s.pageToKvaddr root) v page perm replace =
        .ok (0, (r.leaf (path v)).map Prod.fst, s') ∧
      Moves s s' r r' l (l.drop (missing r v)) ∧ r'.Full ∧
      r'.leaf = Function.update r.leaf (path v) (some (page, perm)) ∧
      ∀ ρ, ρ ≠ [pgx v] → ρ ≠ [pmx v, pgx v] → r'.dir ρ = r.dir ρ := by
  have same := path_rounddown small
  obtain ⟨inner, middle, upper⟩ := path_split same
  have count := missing_path (r := r) same
  obtain ⟨s₁, r₁, d, e, create, moves₁, found₁, leaf₁, full₁, dirs₁⟩ :=
    pgtableCreate_spec tree rooted free phys (by rw [count]; exact enough)
  replace full₁ := full₁ full
  rw [count] at moves₁
  rw [inner, middle, upper] at create
  rw [middle, upper] at found₁ full₁ dirs₁
  have present : r₁.dir [pmx v, pgx v] ≠ none := by simp [found₁]
  have phys₁ := phys.frame moves₁.geometry
  have inside₁ : page < s₁.nrPages := by
    rw [moves₁.geometry.pages]
    exact inside
  have word := moves₁.tree.leafEntry found₁ (ptx_lt v) rfl
  rw [show r₁.leaf (ptx v :: [pmx v, pgx v]) = r.leaf (path v) by rw [leaf₁]; rfl, moves₁.geometry.kvaddr] at word
  have other := s₁.mapsOther_spec (r.leaf (path v)) page
  rw [← word] at other
  cases leaf : r.leaf (path v) with
  | none =>
    obtain ⟨s₂, add, moves₂⟩ := moves₁.tree.fillLeaf found₁ (ptx_lt v) rfl present moves₁.free phys₁
      (show r₁.leaf (ptx v :: [pmx v, pgx v]) = none by rw [leaf₁]; exact leaf) page perm inside₁
    refine ⟨s₂, _, ?_, moves₁.trans moves₂, full₁.setLeaf_some (ptx_lt v) rfl present, ?_, dirs₁⟩
    · rw [leaf, Option.elim_none] at other
      rw [moves₁.geometry.kvaddr] at add
      simp only [pgtableInsert, nonzero, if_false, create, Res.ok_bind, ne_eq, not_true, other, Bool.false_eq_true,
        add, Option.map_none]
    · simp only [Radix.setLeaf, leaf₁]
      rfl
  | some w =>
    obtain ⟨differs, rfl⟩ := fresh w leaf
    have leafHere : r₁.leaf (ptx v :: [pmx v, pgx v]) = some w := by
      rw [leaf₁]
      exact leaf
    obtain ⟨s₂, take, moves₂⟩ := moves₁.tree.clearLeaf found₁ (ptx_lt v) rfl present moves₁.free leafHere
    have vacant : (r₁.setLeaf (ptx v) [pmx v, pgx v] none (ptx_lt v) rfl present).leaf (ptx v :: [pmx v, pgx v]) =
        none := by
      simp [Radix.setLeaf]
    have inside₂ : page < s₂.nrPages := by
      rw [moves₂.geometry.pages]
      exact inside₁
    obtain ⟨s₃, add, moves₃⟩ := moves₂.tree.fillLeaf found₁ (ptx_lt v) rfl present moves₂.free
      (phys₁.frame moves₂.geometry) vacant page perm inside₂
    have geometry₂ := moves₁.geometry.trans moves₂.geometry
    refine ⟨s₃, _, ?_, (moves₁.trans moves₂).trans moves₃, ?_, ?_, dirs₁⟩
    · have back : s₂.kvaddrToPage (s.pageToKvaddr w.1) = .ok w.1 := by
        rw [← geometry₂.kvaddr]
        exact kvaddrToPage_kvaddr s₂ w.1
      rw [leaf, Option.elim_some] at other
      rw [moves₁.geometry.kvaddr, moves₁.geometry.kvaddr] at take
      rw [geometry₂.kvaddr, geometry₂.kvaddr] at add
      have isOther : (w.1 != page) = true := by simpa using differs
      simp only [pgtableInsert, nonzero, if_false, create, Res.ok_bind, ne_eq, not_true, other, isOther, if_true,
        Bool.true_eq_false, take, back, add, Option.map_some]
    · exact ((full₁.setLeaf_none (ptx_lt v) rfl present)).setLeaf_some (ptx_lt v) rfl present
    · simp only [Radix.setLeaf, Function.update_idem, leaf₁]
      rfl

/-- When the walk finds no memory, so does the insertion. -/
theorem pgtableInsert_nomem {s s' : PageMem} {pgd v : Nat} (page perm : Nat) (replace : Bool) {pdesc : Pagedesc}
    (nonzero : pgaddrRounddown v ≠ 0)
    (create : s.pgtableCreate pgd (pgaddrRounddown v) = .ok (-enomem, pdesc, s')) :
    s.pgtableInsert pgd v page perm replace = .ok (-enomem, none, s') := by
  have failed : -enomem ≠ 0 := by decide
  simp only [pgtableInsert, nonzero, if_false, create, Res.ok_bind, failed, ne_eq, not_false_eq_true, if_true]

theorem pgtableInsert_scarce {s : PageMem} {r : Dirs} {root v : Nat} {l : List Nat} (page perm : Nat) (replace : Bool)
    (tree : Tree s r) (rooted : r.dir [] = some root) (free : FreeList s l) (phys : PhysBound s) (full : r.Full)
    (small : v < 2 ^ 64) (nonzero : pgaddrRounddown v ≠ 0) (scarce : l.length < missing r v) :
    ∃ s', s.pgtableInsert (s.pageToKvaddr root) v page perm replace = .ok (-enomem, none, s') := by
  have same := path_rounddown small
  have scarce' : l.length < missing r (pgaddrRounddown v) := by rwa [missing_path same]
  cases upper : r.dir [pgx (pgaddrRounddown v)] with
  | none =>
    obtain ⟨pdesc, s', create, -⟩ := pgtableCreate_undone tree rooted free phys scarce' upper
    exact ⟨s', pgtableInsert_nomem page perm replace nonzero create⟩
  | some d =>
    obtain ⟨-, pdesc, s', create, -⟩ := pgtableCreate_lost tree rooted free phys.nrPages_lt full scarce' upper
    exact ⟨s', pgtableInsert_nomem page perm replace nonzero create⟩

end PageMem

end Xv6
