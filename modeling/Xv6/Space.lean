import Xv6.PageTableRuns

namespace Xv6

theorem pagePerm_own (vmFlags : Nat) : pagePerm vmFlags &&& pteGlobal = 0 := by
  simp only [pagePerm]
  split <;> split <;> decide

namespace PageMem

/-- A page of an allocated set that is not used by the kernel itself. -/
def Held (s : PageMem) (p : Nat) : Prop :=
  ∃ f tl, AllocSet s f tl ∧ p ∈ f :: tl ∧ (s.page f).type = .generic

/-- The two pages are in one allocated set. -/
def Mates (s : PageMem) (p q : Nat) : Prop :=
  ∃ f tl, AllocSet s f tl ∧ p ∈ f :: tl ∧ q ∈ f :: tl

theorem Mates.inside {s : PageMem} {p q f : Nat} {tl : List Nat} (mates : Mates s p q) (set : AllocSet s f tl)
    (member : q ∈ f :: tl) : p ∈ f :: tl := by
  obtain ⟨g, rest, other, left, right⟩ := mates
  obtain ⟨rfl, rfl⟩ := set.unique other member right
  exact left

/-- The mates of a held page are held. -/
theorem Mates.held {s : PageMem} {p q : Nat} (mates : Mates s p q) (held : Held s p) : Held s q := by
  obtain ⟨f, tl, set, left, right⟩ := mates
  obtain ⟨g, rest, other, member, type⟩ := held
  obtain ⟨rfl, rfl⟩ := set.unique other left member
  exact ⟨f, tl, set, right, type⟩

namespace Held

variable {s s' : PageMem} {p : Nat} {l : List Nat}

theorem inside (held : Held s p) : p < s.nrPages := by
  obtain ⟨f, tl, set, member, -⟩ := held
  exact set.bound p member

theorem not_free (held : Held s p) (free : FreeList s l) : p ∉ l := by
  obtain ⟨f, tl, set, member, -⟩ := held
  exact set.disjoint_free free member

theorem frame (held : Held s p) (geometry : SameGeometry s s') (agree : ∀ q, Held s q → s.Agree s' q) : Held s' p := by
  obtain ⟨f, tl, set, member, type⟩ := held
  have same : ∀ q ∈ f :: tl, s.Agree s' q := fun q inside => agree q ⟨f, tl, set, inside, type⟩
  refine ⟨f, tl, set.frame geometry same, member, ?_⟩
  rw [(same f (List.mem_cons_self ..)).page]
  exact type

theorem not_dir {d : Nat} (held : Held s p) (dir : IsDir s d) : p ≠ d := by
  rintro rfl
  obtain ⟨f, tl, set, member, type⟩ := held
  obtain ⟨rfl, -⟩ := set.unique dir.set member (List.mem_cons_self ..)
  rw [dir.type] at type
  cases type

/-- A held page is freed; the rest of its set remains held. -/
theorem pgfree (held : Held s p) (free : FreeList s l) (small : s.nrPages < 2 ^ 64) :
    ∃ s' l', s.pgfree (some p) = .ok s' ∧ FreeList s' l' ∧ l'.Perm (p :: l) ∧ SameGeometry s s' ∧
      (∀ q, Held s q → q ≠ p → Held s' q) ∧ ∀ q, q ∉ l → ¬ Mates s p q → s.Agree s' q := by
  obtain ⟨f, tl, set, member, type⟩ := held
  obtain ⟨xs, ys, split⟩ := List.append_of_mem member
  obtain ⟨s', l', run, free', perm, -, geometry, parts, -, agree⟩ :=
    freePagesFrom_spec free set (by simpa using split : f :: tl = xs ++ (p :: []) ++ ys) small
  have step : s.freePages (some p) 1 = .ok (some (ys.headD f), s') := run
  refine ⟨s', l', by simp only [PageMem.pgfree, step, Res.ok_bind], free', perm, geometry, ?_,
    fun q outside apart => agree q outside fun inside => apart ⟨f, tl, set, member, inside⟩⟩
  rintro q ⟨g, rest, other, inside, kind⟩ different
  by_cases shared : q ∈ f :: tl
  · rw [split] at shared
    have part : ∃ x rem, (xs = x :: rem ∨ ys = x :: rem) ∧ q ∈ x :: rem := by
      rcases List.mem_append.mp shared with left | right
      · cases xs with
        | nil => cases left
        | cons x rem => exact ⟨x, rem, .inl rfl, left⟩
      · have right' := (List.mem_cons.mp right).resolve_left different
        cases ys with
        | nil => cases right'
        | cons x rem => exact ⟨x, rem, .inr rfl, right'⟩
    obtain ⟨x, rem, here, within⟩ := part
    obtain ⟨partSet, partType⟩ := parts x rem here
    exact ⟨x, rem, partSet, within, partType.trans type⟩
  · have apart : ∀ y ∈ g :: rest, y ∉ f :: tl := by
      intro y inOther inSet
      obtain ⟨rfl, rfl⟩ := other.unique set inOther inSet
      exact shared inside
    have same : ∀ y ∈ g :: rest, s.Agree s' y := fun y within =>
      agree y (other.disjoint_free free within) (apart y within)
    refine ⟨g, rest, other.frame geometry same, inside, ?_⟩
    rw [(same g (List.mem_cons_self ..)).page]
    exact kind

theorem not_mates {d : Nat} (held : Held s p) (dir : IsDir s d) : ¬ Mates s p d :=
  fun mates => (mates.held held).not_dir dir rfl

end Held

/-- A page that is a slab. -/
structure SlabPage (s : PageMem) (x : Nat) : Prop where
  set : AllocSet s x []
  type : (s.page x).type = .slab

namespace SlabPage

variable {s s' : PageMem} {x : Nat}

theorem frame (slab : SlabPage s x) (geometry : SameGeometry s s') (agree : s.Agree s' x) : SlabPage s' x := by
  refine ⟨slab.set.frame geometry fun p inside => ?_, by rw [agree.page]; exact slab.type⟩
  rw [List.mem_singleton.mp inside]
  exact agree

theorem not_free {l : List Nat} (slab : SlabPage s x) (free : FreeList s l) : x ∉ l :=
  slab.set.disjoint_free free (List.mem_cons_self ..)

theorem not_dir (slab : SlabPage s x) : ¬ IsDir s x := by
  intro dir
  have type := slab.type
  rw [dir.type] at type
  cases type

theorem not_held (slab : SlabPage s x) : ¬ Held s x := by
  rintro ⟨f, tl, set, member, type⟩
  obtain ⟨rfl, -⟩ := set.unique slab.set member (List.mem_cons_self ..)
  rw [slab.type] at type
  cases type

end SlabPage

/-- Changes of a tree leave the held pages alone. -/
theorem Moves.held {s s' : PageMem} {r r' : Dirs} {l l' : List Nat} (moves : Moves s s' r r' l l') (tree : Tree s r)
    (free : FreeList s l) {p : Nat} (held : Held s p) : Held s' p :=
  held.frame moves.geometry fun q inside => moves.agree q (inside.not_free free) fun ⟨π, found⟩ =>
    inside.not_dir (tree.dirs π q found) rfl

/-- The memory side of one address space: its table, whose leaves are distinct
held pages that are not global. -/
structure SpaceKept (root : Nat) (s : PageMem) (r : Dirs) (l : List Nat) : Prop where
  tree : Tree s r
  rooted : r.dir [] = some root
  full : r.Full
  free : FreeList s l
  phys : PhysBound s
  held : ∀ π w, r.leaf π = some w → Held s w.1
  apart : ∀ π ρ w x, r.leaf π = some w → r.leaf ρ = some x → w.1 = x.1 → π = ρ
  own : ∀ π w, r.leaf π = some w → w.2 &&& pteGlobal = 0

namespace SpaceKept

variable {root : Nat} {s s' : PageMem} {r r' : Dirs} {l l' : List Nat}

theorem nrPages_lt (kept : SpaceKept root s r l) : s.nrPages < 2 ^ 64 := kept.phys.nrPages_lt

/-- The tree keeps some of its leaves, and their pages remain held. -/
theorem fewer (kept : SpaceKept root s r l) (tree : Tree s' r') (rooted : r'.dir [] = some root) (full : r'.Full)
    (free : FreeList s' l') (geometry : SameGeometry s s') (leaf : ∀ π w, r'.leaf π = some w → r.leaf π = some w)
    (held : ∀ π w, r'.leaf π = some w → Held s w.1 → Held s' w.1) : SpaceKept root s' r' l' where
  tree := tree
  rooted := rooted
  full := full
  free := free
  phys := kept.phys.frame geometry
  held π w found := held π w found (kept.held π w (leaf π w found))
  apart π ρ w x left right := kept.apart π ρ w x (leaf π w left) (leaf ρ x right)
  own π w found := kept.own π w (leaf π w found)

/-- What happens to free pages and to pages of the kernel does not matter. -/
theorem frame (kept : SpaceKept root s r l) (free : FreeList s' l') (geometry : SameGeometry s s')
    (dirs : ∀ d, r.Owns d → s.Agree s' d) (held : ∀ q, Held s q → s.Agree s' q) : SpaceKept root s' r l' :=
  kept.fewer (kept.tree.frame geometry dirs) kept.rooted kept.full free geometry (fun _ _ found => found)
    fun _ _ _ old => old.frame geometry held

theorem owned_dir (kept : SpaceKept root s r l) {d : Nat} (owned : r.Owns d) : IsDir s d :=
  owned.elim fun π found => kept.tree.dirs π d found

theorem slab_apart (kept : SpaceKept root s r l) {x : Nat} (slab : SlabPage s x) : x ∉ l ∧ ¬ r.Owns x :=
  ⟨slab.not_free kept.free, fun owned => slab.not_dir (kept.owned_dir owned)⟩

/-- A page that is not mapped is given back. -/
theorem release (kept : SpaceKept root s r l) {p : Nat} (held : Held s p)
    (unmapped : ∀ π w, r.leaf π = some w → w.1 ≠ p) :
    ∃ s' l', s.pgfree (some p) = .ok s' ∧ SameGeometry s s' ∧ SpaceKept root s' r l' ∧ l'.Perm (p :: l) ∧
      (∀ q, Held s q → q ≠ p → Held s' q) ∧ ∀ q, q ∉ l → ¬ Mates s p q → s.Agree s' q := by
  obtain ⟨s', l', run, free, perm, geometry, rest, agree⟩ := held.pgfree kept.free kept.nrPages_lt
  have tree := kept.tree.frame geometry fun d ⟨π, found⟩ =>
    agree d (kept.tree.not_free ⟨π, found⟩ kept.free) (held.not_mates (kept.tree.dirs π d found))
  exact ⟨s', l', run, geometry, kept.fewer tree kept.rooted kept.full free geometry (fun _ _ found => found)
    (fun π w found old => rest w.1 old (unmapped π w found)), perm, rest, agree⟩

theorem remove (kept : SpaceKept root s r l) (v : Nat) :
    ∃ s' r' l', s.pgtableClear (s.pageToKvaddr root) v = .ok ((r.leaf (path v)).map Prod.fst, s') ∧
      Moves s s' r r' l l' ∧ SpaceKept root s' r' l' ∧ r'.leaf = Function.update r.leaf (path v) none ∧
      ∀ ρ d, r'.dir ρ = some d → r.dir ρ = some d := by
  obtain ⟨s', r', l', run, moves, full, leaf, old⟩ :=
    pgtableClear_spec (v := v) kept.tree kept.rooted kept.free kept.nrPages_lt kept.full
  refine ⟨s', r', l', run, moves, ?_, leaf, old⟩
  refine kept.fewer moves.tree (moves.root.trans kept.rooted) full moves.free moves.geometry ?_
    (fun π w _ held => moves.held kept.tree kept.free held)
  intro π w found
  rw [leaf] at found
  by_cases here : π = path v
  · rw [here, Function.update_self] at found
    cases found
  · rwa [Function.update_of_ne here] at found

theorem insert (kept : SpaceKept root s r l) {v p perm : Nat} (small : v < 2 ^ 64) (nonzero : pgaddrRounddown v ≠ 0)
    (held : Held s p) (unmapped : ∀ π w, r.leaf π = some w → w.1 ≠ p) (own : perm &&& pteGlobal = 0)
    (enough : missing r v ≤ l.length) :
    ∃ s' r', s.pgtableInsert (s.pageToKvaddr root) v p perm true = .ok (0, (r.leaf (path v)).map Prod.fst, s') ∧
      Moves s s' r r' l (l.drop (missing r v)) ∧ SpaceKept root s' r' (l.drop (missing r v)) ∧
      r'.leaf = Function.update r.leaf (path v) (some (p, perm)) ∧
      ∀ ρ, ρ ≠ [pgx v] → ρ ≠ [pmx v, pgx v] → r'.dir ρ = r.dir ρ := by
  obtain ⟨s', r', run, moves, full, leaf, dirs⟩ := pgtableInsert_spec perm kept.tree kept.rooted kept.free kept.phys
    kept.full small nonzero held.inside enough (fun w found => ⟨unmapped _ w found, rfl⟩)
  have still : ∀ q, Held s q → Held s' q := fun q old => moves.held kept.tree kept.free old
  have known : ∀ π w, r'.leaf π = some w → (π = path v ∧ w = (p, perm)) ∨ (π ≠ path v ∧ r.leaf π = some w) := by
    intro π w found
    rw [leaf] at found
    by_cases here : π = path v
    · rw [here, Function.update_self] at found
      exact .inl ⟨here, (Option.some.inj found).symm⟩
    · rw [Function.update_of_ne here] at found
      exact .inr ⟨here, found⟩
  refine ⟨s', r', run, moves, ⟨moves.tree, moves.root.trans kept.rooted, full, moves.free,
    kept.phys.frame moves.geometry, ?_, ?_, ?_⟩, leaf, dirs⟩
  · intro π w found
    rcases known π w found with ⟨-, rfl⟩ | ⟨-, old⟩
    · exact still p held
    · exact still w.1 (kept.held π w old)
  · intro π ρ w x left right same
    rcases known π w left with ⟨hereLeft, rfl⟩ | ⟨-, oldLeft⟩
    · rcases known ρ x right with ⟨hereRight, -⟩ | ⟨-, oldRight⟩
      · rw [hereLeft, hereRight]
      · exact absurd same.symm (unmapped ρ x oldRight)
    · rcases known ρ x right with ⟨-, rfl⟩ | ⟨-, oldRight⟩
      · exact absurd same (unmapped π w oldLeft)
      · exact kept.apart π ρ w x oldLeft oldRight same
  · intro π w found
    rcases known π w found with ⟨-, rfl⟩ | ⟨-, old⟩
    · exact own
    · exact kept.own π w old

end SpaceKept

/-- There is a directory for the address but none below it, and no page for one. -/
def Short (s : PageMem) (pgd vaddr : Nat) : Prop :=
  s.nrFreePages = 0 ∧ (s.pgtableFind pgd vaddr).2.pmd ≠ 0 ∧ (s.pgtableFind pgd vaddr).2.pte = 0

/-- The page is mapped at the address: the old one is free, and nothing else changes
but free pages, directories and the set of the old page. -/
structure MapDone (s s' : PageMem) (r r' : Dirs) (l l' : List Nat) (v p perm : Nat) : Prop where
  geometry : SameGeometry s s'
  leaf : r'.leaf = Function.update r.leaf (path v) (some (p, perm))
  held : ∀ q, Held s q → (∀ w, r.leaf (path v) = some w → w.1 ≠ q) → Held s' q
  owned : ∀ q, q ∈ l' ∨ r'.Owns q ↔ (q ∈ l ∨ r.Owns q) ∨ ∃ w, r.leaf (path v) = some w ∧ w.1 = q
  agree : ∀ q, q ∉ l → ¬ r.Owns q → (∀ w, r.leaf (path v) = some w → ¬ Mates s w.1 q) → s.Agree s' q
  fresh : r.leaf (path v) = none → l' = l.drop (missing r v)
  dirs : ∀ ρ, ρ ≠ [pgx v] → ρ ≠ [pmx v, pgx v] → r'.dir ρ = r.dir ρ

/-- `arch_map_page` takes pages for directories, maps the page and gives the old one back. -/
theorem SpaceKept.map_counted {root v p perm : Nat} {s : PageMem} {r : Dirs} {l : List Nat}
    (kept : SpaceKept root s r l) (small : v < 2 ^ 64) (nonzero : pgaddrRounddown v ≠ 0) (held : Held s p)
    (unmapped : ∀ π w, r.leaf π = some w → w.1 ≠ p) (own : perm &&& pteGlobal = 0)
    (enough : missing r v ≤ l.length) :
    ∃ s' r' l', s.archMapPage (s.pageToKvaddr root) v p perm = .ok (0, s') ∧ SpaceKept root s' r' l' ∧
      MapDone s s' r r' l l' v p perm ∧
      l'.length + missing r v = l.length + if r.leaf (path v) = none then 0 else 1 := by
  obtain ⟨s₁, r₁, run, moves, kept₁, leaf, dirs⟩ := kept.insert small nonzero held unmapped own enough
  have still : ∀ q, Held s q → Held s₁ q := fun q inside => moves.held kept.tree kept.free inside
  cases old : r.leaf (path v) with
  | none =>
    rw [old, Option.map_none] at run
    refine ⟨s₁, r₁, _, ?_, kept₁, ⟨moves.geometry, leaf, fun q inside _ => still q inside, fun q => ?_,
      fun q outFree outTree _ => moves.agree q outFree outTree, fun _ => rfl, dirs⟩, ?_⟩
    · simp only [archMapPage, run, Res.ok_bind, ne_eq, not_true, if_false]
    · rw [moves.owned, old]
      simp
    · rw [List.length_drop, if_pos rfl]
      omega
  | some w =>
    rw [old, Option.map_some] at run
    have gone : ∀ π x, r₁.leaf π = some x → x.1 ≠ w.1 := by
      intro π x found
      rw [leaf] at found
      by_cases here : π = path v
      · rw [here, Function.update_self] at found
        rw [← Option.some.inj found]
        exact (unmapped (path v) w old).symm
      · rw [Function.update_of_ne here] at found
        exact fun shared => here (kept.apart π (path v) x w found old shared)
    have heldOld : Held s w.1 := kept.held _ w old
    obtain ⟨s₂, l₂, freed, geometry₂, kept₂, perm₂, rest, agree₂⟩ := kept₁.release (still w.1 heldOld) gone
    -- the mates of the old page are held, so the insertion left them alone
    have mates : ∀ q, ¬ Mates s w.1 q → ¬ Mates s₁ w.1 q := by
      rintro q apart ⟨f, tl, set, left, right⟩
      obtain ⟨g, rest', other, inside, -⟩ := heldOld
      have frame : AllocSet s₁ g rest' := other.frame moves.geometry fun y member => by
        have heldY : Held s y := Mates.held ⟨g, rest', other, inside, member⟩ (kept.held _ w old)
        exact moves.agree y (heldY.not_free kept.free) fun ⟨π, found⟩ => heldY.not_dir (kept.tree.dirs π y found) rfl
      obtain ⟨rfl, rfl⟩ := set.unique frame left inside
      exact apart ⟨f, tl, other, inside, right⟩
    refine ⟨s₂, r₁, l₂, ?_, kept₂, ⟨moves.geometry.trans geometry₂, leaf,
      fun q inside other => rest q (still q inside) (other w old).symm, fun q => ?_, fun q outFree outTree apart => ?_,
      fun none => ?_, dirs⟩, ?_⟩
    · simp only [archMapPage, run, Res.ok_bind, ne_eq, not_true, if_false, freed]
    · rw [perm₂.mem_iff, List.mem_cons, or_assoc, moves.owned, old]
      simp [or_comm, eq_comm]
    · have out : ¬ (q ∈ l.drop (missing r v) ∨ r₁.Owns q) := fun inside =>
        ((moves.owned q).mp inside).elim outFree outTree
      exact (moves.agree q outFree outTree).trans moves.geometry
        (agree₂ q (fun inside => out (.inl inside)) (mates q (apart w old)))
    · rw [old] at none
      cases none
    · rw [perm₂.length_eq, List.length_cons, List.length_drop, if_neg (Option.some_ne_none w)]
      omega

/-- `arch_map_page` maps the page and gives the old one back. -/
theorem SpaceKept.map_served {root v p perm : Nat} {s : PageMem} {r : Dirs} {l : List Nat}
    (kept : SpaceKept root s r l) (small : v < 2 ^ 64) (nonzero : pgaddrRounddown v ≠ 0) (held : Held s p)
    (unmapped : ∀ π w, r.leaf π = some w → w.1 ≠ p) (own : perm &&& pteGlobal = 0)
    (enough : missing r v ≤ l.length) :
    ∃ s' r' l', s.archMapPage (s.pageToKvaddr root) v p perm = .ok (0, s') ∧ SpaceKept root s' r' l' ∧
      MapDone s s' r r' l l' v p perm := by
  obtain ⟨s', r', l', run, kept', mapped, -⟩ := kept.map_counted small nonzero held unmapped own enough
  exact ⟨s', r', l', run, kept', mapped⟩

theorem MapDone.slabs {root v p perm : Nat} {s s' : PageMem} {r r' : Dirs} {l l' : List Nat}
    (mapped : MapDone s s' r r' l l' v p perm) (kept : SpaceKept root s r l) {x : Nat} (slab : SlabPage s x) :
    s.Agree s' x :=
  mapped.agree x (kept.slab_apart slab).1 (kept.slab_apart slab).2 fun w found mates =>
    slab.not_held (mates.held (kept.held _ w found))

/-- A set of held pages that are not mapped at the address stays as it is. -/
theorem MapDone.set {root v p perm f : Nat} {tl : List Nat} {s s' : PageMem} {r r' : Dirs} {l l' : List Nat}
    (mapped : MapDone s s' r r' l l' v p perm) (kept : SpaceKept root s r l) (set : AllocSet s f tl)
    (type : (s.page f).type = .generic) (outside : ∀ w, r.leaf (path v) = some w → w.1 ∉ f :: tl) :
    AllocSet s' f tl ∧ (s'.page f).type = .generic := by
  have agree : ∀ q ∈ f :: tl, s.Agree s' q := fun q member =>
    mapped.agree q (set.disjoint_free kept.free member)
      (fun owned => Held.not_dir ⟨f, tl, set, member, type⟩ (kept.owned_dir owned) rfl)
      fun w found mates => outside w found (mates.inside set member)
  refine ⟨set.frame mapped.geometry agree, ?_⟩
  rw [(agree f (List.mem_cons_self ..)).page]
  exact type

/-- Short of a page, `arch_map_page` changes no lookup, or it loses a directory. -/
theorem SpaceKept.map_refused_owned {root v p : Nat} {s : PageMem} {r : Dirs} {l : List Nat}
    (kept : SpaceKept root s r l) (perm : Nat) (small : v < 2 ^ 64) (nonzero : pgaddrRounddown v ≠ 0)
    (scarce : l.length < missing r v) :
    ∃ s' r' l', s.archMapPage (s.pageToKvaddr root) v p perm = .ok (-enomem, s') ∧ SameGeometry s s' ∧
      SpaceKept root s' r' l' ∧
      (r'.leaf = r.leaf ∨ s.Short (s.pageToKvaddr root) v ∧ r'.leaf = (r.cut (pgx v) []).leaf) ∧
      (∀ q, q ∉ l → ¬ r.Owns q → s.Agree s' q) ∧ ∀ q, r'.Owns q → r.Owns q := by
  have same := path_rounddown small
  have failed : -enomem ≠ 0 := by decide
  obtain ⟨-, -, upper⟩ := path_split same
  have scarce' : l.length < missing r (pgaddrRounddown v) := by rwa [missing_path same]
  cases above : r.dir [pgx v] with
  | none =>
    obtain ⟨pdesc, s', create, moves⟩ := pgtableCreate_undone kept.tree kept.rooted kept.free kept.phys
      scarce' (by rw [upper]; exact above)
    have run := pgtableInsert_nomem p perm true nonzero create
    refine ⟨s', r, l, ?_, moves.geometry, ?_, .inl rfl, moves.agree, fun _ owned => owned⟩
    · simp only [archMapPage, run, Res.ok_bind, ne_eq, failed, not_false_eq_true, if_true]
    · exact kept.fewer moves.tree kept.rooted kept.full moves.free moves.geometry (fun _ _ found => found)
        (fun π w _ => moves.held kept.tree kept.free)
  | some d =>
    obtain ⟨rfl, pdesc, s', create, tree, free, geometry, agree⟩ := pgtableCreate_lost kept.tree kept.rooted
      kept.free kept.nrPages_lt kept.full scarce' (by rw [upper]; exact above)
    rw [upper] at tree
    have lower : r.dir [pmx v, pgx v] = none := by
      by_contra present
      rw [missing, above, if_neg present] at scarce
      simp at scarce
    have run := pgtableInsert_nomem p perm true nonzero create
    refine ⟨s', r.cut (pgx v) [], [], ?_, geometry, ?_, .inr ⟨⟨?_, ?_, ?_⟩, rfl⟩, fun q _ outTree => agree q ?_, ?_⟩
    · simp only [archMapPage, run, Res.ok_bind, ne_eq, failed, not_false_eq_true, if_true]
    · refine kept.fewer tree ?_ (kept.full.cut_root (pgx v)) free geometry ?_ ?_
      · simpa [Radix.cut] using kept.rooted
      · intro π w found
        simp only [Radix.cut] at found
        split at found
        · cases found
        · exact found
      · exact fun π w _ held => held.frame geometry fun q inside =>
          agree q (inside.not_dir (kept.tree.dirs [] root kept.rooted))
    · rw [kept.free.count, List.length_nil]
    · rw [pgtableFind_spec kept.tree kept.rooted, above]
      exact kvaddr_pos s d
    · rw [pgtableFind_spec kept.tree kept.rooted, lower]
      rfl
    · rintro rfl
      exact outTree ⟨[], kept.rooted⟩
    · rintro q ⟨π, found⟩
      simp only [Radix.cut] at found
      split at found
      · cases found
      · exact ⟨π, found⟩

theorem SpaceKept.map_refused {root v p : Nat} {s : PageMem} {r : Dirs} {l : List Nat}
    (kept : SpaceKept root s r l) (perm : Nat) (small : v < 2 ^ 64) (nonzero : pgaddrRounddown v ≠ 0)
    (scarce : l.length < missing r v) :
    ∃ s' r' l', s.archMapPage (s.pageToKvaddr root) v p perm = .ok (-enomem, s') ∧ SameGeometry s s' ∧
      SpaceKept root s' r' l' ∧
      (r'.leaf = r.leaf ∨ s.Short (s.pageToKvaddr root) v ∧ r'.leaf = (r.cut (pgx v) []).leaf) ∧
      ∀ q, q ∉ l → ¬ r.Owns q → s.Agree s' q := by
  obtain ⟨s', r', l', run, geometry, kept', leaf, agree, -⟩ := kept.map_refused_owned (p := p) perm small nonzero scarce
  exact ⟨s', r', l', run, geometry, kept', leaf, agree⟩

theorem SpaceKept.map {root v p perm : Nat} {s : PageMem} {r : Dirs} {l : List Nat} (kept : SpaceKept root s r l)
    (small : v < 2 ^ 64) (held : Held s p) (unmapped : ∀ π w, r.leaf π = some w → w.1 ≠ p)
    (own : perm &&& pteGlobal = 0) :
    ∃ retcode s' r' l', s.archMapPage (s.pageToKvaddr root) v p perm = .ok (retcode, s') ∧ SameGeometry s s' ∧
      SpaceKept root s' r' l' ∧
      (r'.leaf = Function.update r.leaf (path v) (some (p, perm)) ∨ r'.leaf = r.leaf ∨
        s.Short (s.pageToKvaddr root) v ∧ r'.leaf = (r.cut (pgx v) []).leaf) := by
  by_cases nonzero : pgaddrRounddown v = 0
  · refine ⟨-einval, s, r, l, ?_, .refl s, kept, .inr (.inl rfl)⟩
    have failed : -einval ≠ 0 := by decide
    simp only [archMapPage, pgtableInsert, nonzero, if_true, Res.ok_bind, ne_eq, failed, not_false_eq_true]
  · by_cases enough : missing r v ≤ l.length
    · obtain ⟨s', r', l', run, kept', mapped⟩ := kept.map_served small nonzero held unmapped own enough
      exact ⟨0, s', r', l', run, mapped.geometry, kept', .inl mapped.leaf⟩
    · obtain ⟨s', r', l', run, geometry, kept', leaf, -⟩ :=
        kept.map_refused (p := p) perm small nonzero (Nat.lt_of_not_le enough)
      exact ⟨-enomem, s', r', l', run, geometry, kept', .inr leaf⟩

/-- When `arch_map_page` returns 0 it has mapped the page. -/
theorem SpaceKept.map_done {root v p perm : Nat} {s s' : PageMem} {r : Dirs} {l : List Nat}
    (kept : SpaceKept root s r l) (small : v < 2 ^ 64) (held : Held s p)
    (unmapped : ∀ π w, r.leaf π = some w → w.1 ≠ p) (own : perm &&& pteGlobal = 0)
    (done : s.archMapPage (s.pageToKvaddr root) v p perm = .ok (0, s')) :
    pgaddrRounddown v ≠ 0 ∧ ∃ r' l', SpaceKept root s' r' l' ∧ MapDone s s' r r' l l' v p perm := by
  by_cases nonzero : pgaddrRounddown v = 0
  · have failed : -einval ≠ 0 := by decide
    simp only [archMapPage, pgtableInsert, nonzero, if_true, Res.ok_bind, ne_eq, failed, not_false_eq_true] at done
    exact absurd (Prod.mk.inj (Except.ok.inj done)).1 failed
  refine ⟨nonzero, ?_⟩
  by_cases enough : missing r v ≤ l.length
  · obtain ⟨s₁, r', l', run, kept', mapped⟩ := kept.map_served small nonzero held unmapped own enough
    obtain ⟨-, rfl⟩ := Prod.mk.inj (Except.ok.inj (run.symm.trans done))
    exact ⟨r', l', kept', mapped⟩
  · obtain ⟨s₁, r', l', run, -⟩ := kept.map_refused (p := p) perm small nonzero (Nat.lt_of_not_le enough)
    have failed : -enomem ≠ 0 := by decide
    exact absurd (Prod.mk.inj (Except.ok.inj (run.symm.trans done))).1 failed

end PageMem

end Xv6
