import Xv6.TlbExSpec

namespace Xv6

namespace PageMem

/-- The counter of the directory that holds the word for `vaddr`. -/
def leafEntries (s : PageMem) (pgd vaddr : Nat) : Res Nat := do
  let d ← s.kvaddrToPage (s.pgtableFind pgd vaddr).2.pte
  .ok (s.pgdirExtra d).1

/-- The frame mapped at `v` is not that of `page`. -/
def MapsApart (s : PageMem) (pgd v page : Nat) : Prop := s.archMmGetPfn pgd v ≠ s.pageToPfn page

/-- What `pgtable_insert` promises on an address that is mapped already. -/
def Reinserts (s : PageMem) (pgd v page perm : Nat) (replace : Bool) : Prop :=
  ∃ retcode old s', s.pgtableInsert pgd v page perm replace = .ok (retcode, old, s') ∧
    match replace with
    | true => (retcode = 0 ∨ retcode = -enomem) ∧ (retcode = 0 →
        s'.tableEntry pgd v = s'.pgdirEntry page (pteFlags perm) ∧ s'.leafEntries pgd v = s.leafEntries pgd v)
    | false => retcode = 0 ∨ (retcode = -eexist ∧ s.MapsApart pgd v page)

namespace Rooted

variable {root : Nat} {s : PageMem} {r : Dirs} {l : List Nat}

theorem mapsApart (kept : Rooted root s r l) {v : Nat} {w : Nat × Nat} (leaf : r.leaf (path v) = some w) (page : Nat) :
    s.MapsApart (s.pageToKvaddr root) v page ↔ w.1 ≠ page := by
  rw [MapsApart, archMmGetPfn_spec kept.tree kept.rooted, leaf, Option.elim_some, pageToPfn, pageToPfn]
  omega

/-- A page beside the one that is mapped takes its word, and no directory is made. -/
theorem replaced (kept : Rooted root s r l) {v page : Nat} {w : Nat × Nat} (perm : Nat) (address : v < 2 ^ 64)
    (zero : pgaddrRounddown v ≠ 0) (leaf : r.leaf (path v) = some w) (inside : page < s.nrPages) (other : w.1 ≠ page) :
    ∃ s' r', s.pgtableInsert (s.pageToKvaddr root) v page perm true = .ok (0, some w.1, s') ∧
      Moves s s' r r' l l ∧ r'.dir = r.dir ∧ r'.leaf = Function.update r.leaf (path v) (some (page, perm)) := by
  have same := path_rounddown address
  rw [← same] at leaf ⊢
  obtain ⟨d, e, inner, word, create⟩ := kept.create_found leaf
  have present : r.dir [pmx (pgaddrRounddown v), pgx (pgaddrRounddown v)] ≠ none := by simp [inner]
  obtain ⟨s₁, take, moves₁⟩ := kept.tree.clearLeaf inner (ptx_lt (pgaddrRounddown v)) rfl present kept.free leaf
  have vacant : (r.setLeaf (ptx (pgaddrRounddown v)) [pmx (pgaddrRounddown v), pgx (pgaddrRounddown v)] none
      (ptx_lt _) rfl present).leaf (path (pgaddrRounddown v)) = none := by
    simp [Radix.setLeaf, path]
  obtain ⟨s₂, add, moves₂⟩ := moves₁.tree.fillLeaf inner (ptx_lt (pgaddrRounddown v)) rfl present moves₁.free
    (kept.phys.frame moves₁.geometry) vacant page perm (by rw [moves₁.geometry.pages]; exact inside)
  refine ⟨s₂, _, ?_, moves₁.trans moves₂, rfl, ?_⟩
  · have back : s₁.kvaddrToPage (s.pageToKvaddr w.1) = .ok w.1 := by
      rw [← moves₁.geometry.kvaddr]
      exact kvaddrToPage_kvaddr s₁ w.1
    have isOther : (w.1 != page) = true := by simpa using other
    rw [moves₁.geometry.kvaddr] at add
    simp only [pgtableInsert, zero, if_false, create, Res.ok_bind, ne_eq, not_true, word, mapsOther_word, isOther,
      if_true, Bool.true_eq_false, take, back, add]
  · simp only [Radix.setLeaf, Function.update_idem]
    rfl

/-- Where directories and leaves stand as before, so do the counters. -/
theorem used_same {s' : PageMem} {r' : Dirs} (before : Tree s r) (after : Tree s' r') {π : List Nat} {e : Nat}
    (found : r.dir π = some e) (dirs : r'.dir = r.dir) (leaves : ∀ ρ, r'.leaf ρ = none ↔ r.leaf ρ = none) :
    s'.used e = s.used e := by
  have taken (i : Nat) : r'.Taken (i :: π) ↔ r.Taken (i :: π) := by
    simp only [Radix.Taken, ne_eq, dirs, leaves]
  have inUse (i : Nat) (inside : i ∈ indices) : s'.slot e i ≠ 0 ↔ s.slot e i ≠ 0 := by
    have bound := mem_indices.mp inside
    rw [ne_eq, ne_eq, after.slot_eq_zero (dirs ▸ found) bound, before.slot_eq_zero found bound, taken]
  rw [used, used, Finset.filter_congr inUse]

theorem leafEntries_spec (tree : Tree s r) (rooted : r.dir [] = some root) {v e : Nat}
    (inner : r.dir [pmx v, pgx v] = some e) : s.leafEntries (s.pageToKvaddr root) v = .ok (s.used e) := by
  obtain ⟨d, middle⟩ := Option.ne_none_iff_exists'.mp (r.closed (pmx v) [pgx v] e inner).2
  rw [leafEntries, pgtableFind_spec tree rooted]
  simp only [inner, Option.elim_some, kvaddrToPage_kvaddr, Res.ok_bind, (tree.dirs _ e inner).pgdirExtra]

theorem reinserts_replaced (kept : Rooted root s r l) {v page : Nat} {w : Nat × Nat} (perm : Nat) (address : v < 2 ^ 64)
    (zero : pgaddrRounddown v ≠ 0) (leaf : r.leaf (path v) = some w) (inside : page < s.nrPages) (other : w.1 ≠ page) :
    s.Reinserts (s.pageToKvaddr root) v page perm true := by
  obtain ⟨s', r', run, moves, dirs, leaves⟩ := kept.replaced perm address zero leaf inside other
  have rooted : r'.dir [] = some root := moves.root.trans kept.rooted
  refine ⟨0, some w.1, s', run, .inl rfl, fun _ => ⟨?_, ?_⟩⟩
  · rw [← moves.geometry.kvaddr, tableEntry_spec moves.tree rooted, leaves, Function.update_self]
    rfl
  · obtain ⟨-, e, inner, -, -⟩ := kept.create_found leaf
    have present (ρ : List Nat) : r'.leaf ρ = none ↔ r.leaf ρ = none := by
      rw [leaves]
      by_cases here : ρ = path v
      · simp [here, leaf]
      · rw [Function.update_of_ne here]
    rw [leafEntries_spec kept.tree kept.rooted inner, ← used_same kept.tree moves.tree inner dirs present,
      ← moves.geometry.kvaddr, leafEntries_spec moves.tree rooted (dirs ▸ inner)]

/-- A mapped address takes another page, or refuses it, as promised; the page it
has it does not take again. -/
theorem reinserted_iff (kept : Rooted root s r l) {v page : Nat} {w : Nat × Nat} (perm : Nat) (replace : Bool)
    (address : v < 2 ^ 64) (zero : pgaddrRounddown v ≠ 0) (leaf : r.leaf (path v) = some w) (inside : page < s.nrPages) :
    s.Reinserts (s.pageToKvaddr root) v page perm replace ↔ s.MapsApart (s.pageToKvaddr root) v page := by
  constructor
  · intro ⟨retcode, old, s', run, _⟩
    rw [kept.mapsApart leaf]
    intro same
    rw [kept.insert_same perm replace address zero leaf same] at run
    cases run
  · intro apart
    have other := (kept.mapsApart leaf page).mp apart
    cases replace with
    | true => exact kept.reinserts_replaced perm address zero leaf inside other
    | false => exact ⟨-eexist, none, s, kept.insert_refused perm address zero leaf other, .inr ⟨rfl, apart⟩⟩

end Rooted

end PageMem

/-- On every table that calls of the kernel made, re-insertion works as promised
exactly when another page is mapped. -/
theorem WalkRun.reinserts_iff {s₀ : PageMem} {root : Nat} {l₀ : List Nat} (free : s₀.FreeList l₀)
    (phys : s₀.PhysBound) {s : PageMem} (run : WalkRun s₀ root s) {v page : Nat} (perm : Nat) (replace : Bool)
    (aligned : v % pgsize = 0) (above : pgsize ≤ v) (user : v < 2 ^ 47)
    (mapped : s.tableEntry (s.pageToKvaddr root) v ≠ 0) (inside : page < s.nrPages) :
    s.Reinserts (s.pageToKvaddr root) v page perm replace ↔ s.MapsApart (s.pageToKvaddr root) v page := by
  obtain ⟨r, l, kept⟩ := run.rooted free phys
  have small : v < 2 ^ 64 := by omega
  have zero : pgaddrRounddown v ≠ 0 := by
    rw [pgaddrRounddown_eq small]
    rw [pgsize] at above aligned
    omega
  obtain ⟨w, leaf⟩ := (PageMem.tableEntry_ne_zero kept.tree kept.rooted).mp mapped
  exact kept.reinserted_iff perm replace small zero leaf inside

/-- A run on a machine of eight pages maps the page 7 at `0x4000`. -/
theorem WalkRun.mapped_seven : ∃ (s₀ s : PageMem) (l₀ : List Nat), s₀.FreeList l₀ ∧ s₀.PhysBound ∧ WalkRun s₀ 1 s ∧
    s.nrPages = 8 ∧ s.archMmGetPfn (s.pageToKvaddr 1) 0x4000 = s.pageToPfn 7 ∧
    s.tableEntry (s.pageToKvaddr 1) 0x4000 ≠ 0 := by
  have pages : (PageMem.bootLedger 8).free.sort = [1, 2, 3, 4, 5, 6, 7] := (PageMem.bootLedger_sort 8).trans (by decide)
  have free := (PageMem.initPageArray_books 0 8 ⟨id, id⟩ (fun _ => 0)).free
  rw [pages] at free
  have phys : (initPageArray 0 8 ⟨id, id⟩ (fun _ => 0)).PhysBound := by
    rw [PageMem.PhysBound]
    decide
  obtain ⟨s, new, free₁, dir, zero, geometry, -⟩ := PageMem.pgdirNew_spec free 0xff
  have tree := PageMem.Tree.single dir zero
  have rooted : (Radix.single 1 : PageMem.Dirs).dir [] = some 1 := by simp [Radix.single]
  have two : PageMem.missing (Radix.single 1 : PageMem.Dirs) 0x4000 = 2 := by simp [PageMem.missing, Radix.single]
  have size : s.nrPages = 8 := geometry.pages
  obtain ⟨s', r', done, moves, -, leaf, -⟩ := @PageMem.pgtableInsert_spec s _ 1 0x4000 7 _ false 0 tree rooted free₁
    (phys.frame geometry) (Radix.single_full 1) (by decide) (by decide) (by rw [size]; decide) (by rw [two]; decide)
    (by simp [Radix.single])
  have rooted' := moves.root.trans rooted
  have run : WalkRun _ 1 s' := .insert (.start new) (by decide) (by rw [size]; decide) done
  refine ⟨_, s', _, free, phys, run, moves.geometry.pages.trans size, ?_, ?_⟩
  · rw [PageMem.archMmGetPfn_spec moves.tree rooted', leaf, Function.update_self, Option.elim_some]
  · rw [PageMem.tableEntry_spec moves.tree rooted', leaf, Function.update_self, Option.elim_some]
    exact PageMem.leafWord_pos s' (7, 0)

/-- The page 6 takes the place of the page 7. -/
theorem WalkRun.reinserts_six : ∃ s : PageMem, s.Reinserts (s.pageToKvaddr 1) 0x4000 6 0 true := by
  obtain ⟨s₀, s, l₀, free, phys, run, size, seven, mapped⟩ := WalkRun.mapped_seven
  refine ⟨s, (run.reinserts_iff free phys 0 true rfl (by decide) (by decide) mapped (by rw [size]; decide)).mpr ?_⟩
  rw [PageMem.MapsApart, seven, PageMem.pageToPfn, PageMem.pageToPfn]
  omega

/-- The page 7 is not inserted again. -/
theorem WalkRun.not_reinserts : ¬ ∀ (s₀ : PageMem) (root : Nat) (l₀ : List Nat) (s : PageMem) (v page perm : Nat)
    (replace : Bool), s₀.FreeList l₀ → s₀.PhysBound → WalkRun s₀ root s → v % pgsize = 0 → pgsize ≤ v → v < 2 ^ 47 →
    s.tableEntry (s.pageToKvaddr root) v ≠ 0 → page < s.nrPages →
    s.Reinserts (s.pageToKvaddr root) v page perm replace := by
  intro always
  obtain ⟨s₀, s, l₀, free, phys, run, size, seven, mapped⟩ := WalkRun.mapped_seven
  obtain ⟨r, l, kept⟩ := run.rooted free phys
  have promised := always s₀ 1 l₀ s 0x4000 7 0 true free phys run rfl (by decide) (by decide) mapped (by rw [size]; decide)
  obtain ⟨w, leaf⟩ := (PageMem.tableEntry_ne_zero kept.tree kept.rooted).mp mapped
  exact (kept.reinserted_iff 0 true (by decide) (by decide) leaf (by rw [size]; decide)).mp promised seven

end Xv6
