import Xv6.TlbRuns
import Xv6.VmUnmap

namespace Xv6

namespace PageMem

section Table

variable {s s' : PageMem} {r r' : Dirs} {l l' : List Nat} {root v p : Nat}

/-- What a call on one table does to the pages that are not of this table. -/
structure TableDone (s s' : PageMem) (r r' : Dirs) (l : List Nat) : Prop where
  geometry : SameGeometry s s'
  dirs : ∀ q, IsDir s q → ¬ r.Owns q → s.Agree s' q
  held : ∀ q, Held s q → ¬ IsLeaf r q → Held s' q
  owns : ∀ q, r'.Owns q → r.Owns q ∨ q ∈ l ∨ IsLeaf r q

/-- `arch_map_page` with a page that is not mapped in this table. -/
theorem SpaceKept.map_table (kept : SpaceKept root s r l) (flags : Nat) (small : v < 2 ^ 64) (held : Held s p)
    (unmapped : ¬ IsLeaf r p) :
    ∃ retcode s' r' l', s.archMapPage (s.pageToKvaddr root) v p (pagePerm flags) = .ok (retcode, s') ∧ SpaceKept root s' r' l' ∧
      TableDone s s' r r' l ∧ ∀ q, IsLeaf r' q → IsLeaf r q ∨ retcode = 0 ∧ q = p := by
  have fresh : ∀ π w, r.leaf π = some w → w.1 ≠ p := fun π w found same => unmapped ⟨π, w, found, same⟩
  by_cases nonzero : pgaddrRounddown v = 0
  · have failed : -einval ≠ 0 := by decide
    refine ⟨-einval, s, r, l, ?_, kept, ⟨.refl s, fun q _ _ => .refl s q, fun q old _ => old, fun q mine => .inl mine⟩,
      fun q mine => .inl mine⟩
    simp only [archMapPage, pgtableInsert, nonzero, if_true, Res.ok_bind, ne_eq, failed, not_false_eq_true]
  by_cases enough : missing r v ≤ l.length
  · obtain ⟨s', r', l', run, kept', mapped⟩ := kept.map_served small nonzero held fresh (pagePerm_own flags) enough
    refine ⟨0, s', r', l', run, kept', ⟨mapped.geometry, fun q dir other => ?_, fun q old away => ?_, fun q mine => ?_⟩, fun q leaf => ?_⟩
    · exact mapped.agree q (dir.not_free kept.free) other fun w found => (kept.held _ w found).not_mates dir
    · exact mapped.held q old fun w found same => away ⟨path v, w, found, same⟩
    · rcases (mapped.owned q).mp (.inr mine) with (free | old) | ⟨w, found, same⟩
      · exact .inr (.inl free)
      · exact .inl old
      · exact .inr (.inr ⟨path v, w, found, same⟩)
    · obtain ⟨π, w, found, rfl⟩ := leaf
      rw [mapped.leaf] at found
      by_cases here : π = path v
      · rw [here, Function.update_self] at found
        exact .inr ⟨rfl, by rw [← Option.some.inj found]⟩
      · rw [Function.update_of_ne here] at found
        exact .inl ⟨π, w, found, rfl⟩
  · obtain ⟨s', r', l', run, geometry, kept', leaf, agree, owns⟩ :=
      kept.map_refused_owned (p := p) (pagePerm flags) small nonzero (Nat.lt_of_not_le enough)
    refine ⟨-enomem, s', r', l', run, kept', ⟨geometry, fun q dir other => agree q (dir.not_free kept.free) other, fun q old _ => ?_,
      fun q mine => .inl (owns q mine)⟩, fun q mapped => .inl ?_⟩
    · exact old.frame geometry fun x inside => agree x (inside.not_free kept.free) fun owned =>
        inside.not_dir (kept.owned_dir owned) rfl
    · obtain ⟨π, w, found, rfl⟩ := mapped
      refine ⟨π, w, ?_, rfl⟩
      rcases leaf with same | ⟨-, lost⟩
      · rwa [same] at found
      · rw [lost] at found
        simp only [Radix.cut] at found
        split at found
        · cases found
        · exact found

/-- `arch_unmap_page`, less the TLB. -/
theorem SpaceKept.unmap_table (kept : SpaceKept root s r l) (v : Nat) :
    ∃ s' r' l', s.pgtableClear (s.pageToKvaddr root) v = .ok ((r.leaf (path v)).map Prod.fst, s') ∧ SpaceKept root s' r' l' ∧
      TableDone s s' r r' l ∧ r'.leaf = Function.update r.leaf (path v) none ∧ ∀ q, Held s q → Held s' q := by
  obtain ⟨s', r', l', run, moves, kept', leaf, old⟩ := kept.remove v
  have still : ∀ q, Held s q → Held s' q := fun q held => moves.held kept.tree kept.free held
  exact ⟨s', r', l', run, kept', ⟨moves.geometry, fun q dir other => moves.agree q (dir.not_free kept.free) other,
    fun q held _ => still q held, fun q ⟨π, found⟩ => .inl ⟨π, old π q found⟩⟩, leaf, still⟩

end Table

variable {τ : Type*}

/-- Several address spaces over one allocator, each with its root directory and its tree. The pages of `taken` are
allocated, but nobody maps them. -/
structure Shared (s : PageMem) (l : List Nat) (spaces : τ → Option (Nat × Dirs)) (taken : Set Nat) : Prop where
  free : FreeList s l
  phys : PhysBound s
  kept : ∀ t d r, spaces t = some (d, r) → SpaceKept d s r l
  leaves : ∀ t u d r e q p, t ≠ u → spaces t = some (d, r) → spaces u = some (e, q) → IsLeaf r p → ¬ IsLeaf q p
  dirs : ∀ t u d r e q p, t ≠ u → spaces t = some (d, r) → spaces u = some (e, q) → r.Owns p → ¬ q.Owns p
  held : ∀ p ∈ taken, Held s p
  unmapped : ∀ p ∈ taken, ∀ t d r, spaces t = some (d, r) → ¬ IsLeaf r p

namespace Shared

variable {s s' : PageMem} {l l' : List Nat} {spaces : τ → Option (Nat × Dirs)} {taken taken' : Set Nat}

/-- A step that concerns no space. -/
theorem frame (shared : s.Shared l spaces taken) (free : FreeList s' l') (geometry : SameGeometry s s')
    (dirs : ∀ q, IsDir s q → s.Agree s' q) (held : ∀ q t d r, spaces t = some (d, r) → IsLeaf r q → Held s q → Held s' q)
    (hand : ∀ p ∈ taken', Held s' p ∧ ∀ t d r, spaces t = some (d, r) → ¬ IsLeaf r p) : s'.Shared l' spaces taken' where
  free := free
  phys := shared.phys.frame geometry
  kept t d r mine := by
    have kept := shared.kept t d r mine
    exact kept.fewer (kept.tree.frame geometry fun q owned => dirs q (kept.owned_dir owned)) kept.rooted kept.full free geometry
      (fun _ _ found => found) fun π w found old => held w.1 t d r mine ⟨π, w, found, rfl⟩ old
  leaves := shared.leaves
  dirs := shared.dirs
  held p inside := (hand p inside).1
  unmapped p inside := (hand p inside).2

variable [DecidableEq τ]

/-- A step of one space. -/
theorem step {t : τ} {d : Nat} {r r' : Dirs} (shared : s.Shared l spaces taken) (mine : spaces t = some (d, r))
    (done : TableDone s s' r r' l) (kept' : SpaceKept d s' r' l') (leaf : ∀ p, IsLeaf r' p → IsLeaf r p ∨ p ∈ taken)
    (hand : ∀ p ∈ taken', Held s' p ∧ ¬ IsLeaf r' p ∧ (p ∈ taken ∨ IsLeaf r p)) :
    s'.Shared l' (Function.update spaces t (some (d, r'))) taken' := by
  have others : ∀ u e q, u ≠ t → Function.update spaces t (some (d, r')) u = some (e, q) → spaces u = some (e, q) := by
    intro u e q other found
    rwa [Function.update_of_ne other] at found
  have apartLeaf : ∀ u e q p, u ≠ t → spaces u = some (e, q) → IsLeaf r' p → ¬ IsLeaf q p := by
    intro u e q p other theirs new
    rcases leaf p new with old | inHand
    · exact shared.leaves t u d r e q p (Ne.symm other) mine theirs old
    · exact shared.unmapped p inHand u e q theirs
  have apartDir : ∀ u e q p, u ≠ t → spaces u = some (e, q) → r'.Owns p → ¬ q.Owns p := by
    intro u e q p other theirs new owned
    have keptU := shared.kept u e q theirs
    rcases done.owns p new with old | free | mapped
    · exact shared.dirs t u d r e q p (Ne.symm other) mine theirs old owned
    · exact keptU.tree.not_free owned shared.free free
    · obtain ⟨π, w, found, rfl⟩ := mapped
      exact ((shared.kept t d r mine).held π w found).not_dir (keptU.owned_dir owned) rfl
  constructor
  case free => exact kept'.free
  case phys => exact kept'.phys
  case kept =>
    intro u e q found
    by_cases here : u = t
    · rw [here, Function.update_self] at found
      obtain ⟨rfl, rfl⟩ := Prod.mk.inj (Option.some.inj found)
      exact kept'
    · have theirs := others u e q here found
      have kept := shared.kept u e q theirs
      refine kept.fewer (kept.tree.frame done.geometry fun x owned => done.dirs x (kept.owned_dir owned) fun own => ?_) kept.rooted
        kept.full kept'.free done.geometry (fun _ _ same => same) fun π w there old => done.held w.1 old fun own => ?_
      · exact shared.dirs t u d r e q x (Ne.symm here) mine theirs own owned
      · exact shared.leaves t u d r e q w.1 (Ne.symm here) mine theirs own ⟨π, w, there, rfl⟩
  case leaves =>
    intro u x e q f o p other left right isLeaf isLeaf'
    by_cases hereU : u = t
    · have theirs := others x f o (fun same => other (hereU.trans same.symm)) right
      rw [hereU, Function.update_self] at left
      obtain ⟨rfl, rfl⟩ := Prod.mk.inj (Option.some.inj left)
      exact apartLeaf x f o p (fun same => other (hereU.trans same.symm)) theirs isLeaf isLeaf'
    · have mineU := others u e q hereU left
      by_cases hereX : x = t
      · rw [hereX, Function.update_self] at right
        obtain ⟨rfl, rfl⟩ := Prod.mk.inj (Option.some.inj right)
        exact apartLeaf u e q p hereU mineU isLeaf' isLeaf
      · exact shared.leaves u x e q f o p other mineU (others x f o hereX right) isLeaf isLeaf'
  case dirs =>
    intro u x e q f o p other left right owned owned'
    by_cases hereU : u = t
    · have theirs := others x f o (fun same => other (hereU.trans same.symm)) right
      rw [hereU, Function.update_self] at left
      obtain ⟨rfl, rfl⟩ := Prod.mk.inj (Option.some.inj left)
      exact apartDir x f o p (fun same => other (hereU.trans same.symm)) theirs owned owned'
    · have mineU := others u e q hereU left
      by_cases hereX : x = t
      · rw [hereX, Function.update_self] at right
        obtain ⟨rfl, rfl⟩ := Prod.mk.inj (Option.some.inj right)
        exact apartDir u e q p hereU mineU owned' owned
      · exact shared.dirs u x e q f o p other mineU (others x f o hereX right) owned owned'
  case held => exact fun p inside => (hand p inside).1
  case unmapped =>
    intro p inside u e q found
    obtain ⟨-, away, from_⟩ := hand p inside
    by_cases here : u = t
    · rw [here, Function.update_self] at found
      obtain ⟨rfl, rfl⟩ := Prod.mk.inj (Option.some.inj found)
      exact away
    · have theirs := others u e q here found
      rcases from_ with inHand | old
      · exact shared.unmapped p inHand u e q theirs
      · exact shared.leaves t u d r e q p (Ne.symm here) mine theirs old

end Shared

/-- A call that changes the pages, with the space it is made for: a new table, pages that are taken and given back, and a
page that is mapped or unmapped. A page that is mapped comes from those that are taken, and one that is unmapped is taken
until it is given back. -/
inductive SpacesStep {τ : Type*} [DecidableEq τ] (s : PageMem) (roots : τ → Option Nat) (taken : Set Nat) :
    Option τ → PageMem → (τ → Option Nat) → Set Nat → Prop
  | new {t : τ} {asid d : Nat} {s' : PageMem} (none : roots t = none) (done : s.pgdirNew asid = .ok (some d, s')) :
    SpacesStep s roots taken (some t) s' (Function.update roots t (some d)) taken
  | alloc {num f : Nat} {s' : PageMem} (done : s.allocPages num = .ok (some f, s')) :
    SpacesStep s roots taken none s' roots (taken ∪ {p | ∃ tl, AllocSet s' f tl ∧ p ∈ f :: tl})
  | give {p : Nat} {s' : PageMem} (mine : p ∈ taken) (done : s.pgfree (some p) = .ok s') :
    SpacesStep s roots taken none s' roots (taken \ {p})
  | map {t : τ} {d v p flags : Nat} {retcode : Int} {s' : PageMem} (table : roots t = some d) (small : v < 2 ^ 64) (mine : p ∈ taken)
    (done : s.archMapPage (s.pageToKvaddr d) v p (pagePerm flags) = .ok (retcode, s')) :
    SpacesStep s roots taken (some t) s' roots (if retcode = 0 then taken \ {p} else taken)
  | unmap {t : τ} {d v : Nat} {p : Option Nat} {s' : PageMem} (table : roots t = some d)
    (done : s.pgtableClear (s.pageToKvaddr d) v = .ok (p, s')) :
    SpacesStep s roots taken (some t) s' roots (taken ∪ {q | p = some q})

/-- The states that the calls reach, made for any spaces in any order. -/
inductive SpacesRun {τ : Type*} [DecidableEq τ] (s₀ : PageMem) : PageMem → (τ → Option Nat) → Set Nat → Prop
  | start : SpacesRun s₀ s₀ (fun _ => none) ∅
  | step {s s' : PageMem} {roots roots' : τ → Option Nat} {taken taken' : Set Nat} {t : Option τ} (run : SpacesRun s₀ s roots taken)
    (next : SpacesStep s roots taken t s' roots' taken') : SpacesRun s₀ s' roots' taken'

section Runs

variable [DecidableEq τ] {s₀ s s' : PageMem} {l₀ l : List Nat} {spaces : τ → Option (Nat × Dirs)} {roots roots' : τ → Option Nat}
variable {taken taken' : Set Nat} {t : Option τ}

/-- The tables of the spaces. -/
def rootsOf (spaces : τ → Option (Nat × Dirs)) (t : τ) : Option Nat := (spaces t).map Prod.fst

omit [DecidableEq τ] in
theorem rootsOf_some {t : τ} {d : Nat} : rootsOf spaces t = some d ↔ ∃ r, spaces t = some (d, r) := by
  rw [rootsOf, Option.map_eq_some_iff]
  constructor
  · rintro ⟨⟨e, r⟩, found, rfl⟩
    exact ⟨r, found⟩
  · rintro ⟨r, found⟩
    exact ⟨(d, r), found, rfl⟩

theorem rootsOf_update (spaces : τ → Option (Nat × Dirs)) (t : τ) (d : Nat) (r : Dirs) :
    rootsOf (Function.update spaces t (some (d, r))) = Function.update (rootsOf spaces) t (some d) := by
  funext u
  by_cases here : u = t
  · rw [here, rootsOf, Function.update_self, Function.update_self]
    rfl
  · rw [rootsOf, Function.update_of_ne here, Function.update_of_ne here]
    rfl

/-- A step of one space that keeps its table. -/
theorem rootsOf_same {t : τ} {d : Nat} {r r' : Dirs} (mine : spaces t = some (d, r)) :
    rootsOf (Function.update spaces t (some (d, r'))) = rootsOf spaces := by
  rw [rootsOf_update]
  exact Function.update_eq_self_iff.mpr (rootsOf_some.mpr ⟨r, mine⟩).symm

/-- A space is added that maps nothing. -/
theorem Shared.add {t : τ} {d : Nat} {r : Dirs} (shared : s.Shared l spaces taken) (vacant : spaces t = none)
    (kept : SpaceKept d s r l) (bare : ∀ p, ¬ IsLeaf r p)
    (apart : ∀ u e q p, spaces u = some (e, q) → r.Owns p → ¬ q.Owns p) :
    s.Shared l (Function.update spaces t (some (d, r))) taken := by
  have known : ∀ u e q, Function.update spaces t (some (d, r)) u = some (e, q) → (u = t ∧ e = d ∧ q = r) ∨ (u ≠ t ∧ spaces u = some (e, q)) := by
    intro u e q found
    by_cases here : u = t
    · rw [here, Function.update_self] at found
      obtain ⟨rfl, rfl⟩ := Prod.mk.inj (Option.some.inj found)
      exact .inl ⟨here, rfl, rfl⟩
    · rw [Function.update_of_ne here] at found
      exact .inr ⟨here, found⟩
  constructor
  case free => exact shared.free
  case phys => exact shared.phys
  case kept =>
    intro u e q found
    rcases known u e q found with ⟨-, rfl, rfl⟩ | ⟨-, old⟩
    · exact kept
    · exact shared.kept u e q old
  case leaves =>
    intro u x e q f o p other left right isLeaf isLeaf'
    rcases known u e q left with ⟨-, rfl, rfl⟩ | ⟨-, old⟩
    · exact bare p isLeaf
    · rcases known x f o right with ⟨-, rfl, rfl⟩ | ⟨-, old'⟩
      · exact bare p isLeaf'
      · exact shared.leaves u x e q f o p other old old' isLeaf isLeaf'
  case dirs =>
    intro u x e q f o p other left right owned owned'
    rcases known u e q left with ⟨rfl, rfl, rfl⟩ | ⟨-, old⟩
    · rcases known x f o right with ⟨rfl, -, -⟩ | ⟨-, old'⟩
      · exact other rfl
      · exact apart x f o p old' owned owned'
    · rcases known x f o right with ⟨rfl, rfl, rfl⟩ | ⟨-, old'⟩
      · exact apart u e q p old owned' owned
      · exact shared.dirs u x e q f o p other old old' owned owned'
  case held => exact shared.held
  case unmapped =>
    intro p inHand u e q found
    rcases known u e q found with ⟨-, rfl, rfl⟩ | ⟨-, old⟩
    · exact bare p
    · exact shared.unmapped p inHand u e q old

/-- `pgdir_new` for a task without a table. -/
theorem Shared.pgdirNew {t : τ} {asid d : Nat} (shared : s.Shared l spaces taken) (vacant : spaces t = none)
    (done : s.pgdirNew asid = .ok (some d, s')) :
    ∃ l', s'.Shared l' (Function.update spaces t (some (d, Radix.single d))) taken ∧ SameGeometry s s' := by
  obtain ⟨rest, rfl, kept', geometry, agree⟩ := SpaceKept.start shared.free shared.phys done
  have framed : s'.Shared rest spaces taken := by
    refine shared.frame kept'.free geometry (fun q dir => agree q (dir.not_free shared.free)) ?_ fun p inHand => ?_
    · exact fun q u e r _ _ held => held.frame geometry fun x inside => agree x (inside.not_free shared.free)
    · have held := shared.held p inHand
      exact ⟨held.frame geometry fun x inside => agree x (inside.not_free shared.free), shared.unmapped p inHand⟩
  refine ⟨rest, framed.add vacant kept' (fun p ⟨π, w, found, _⟩ => nomatch found) fun u e q p theirs owned owned' => ?_, geometry⟩
  obtain ⟨π, found⟩ := owned
  have root : p = d := by
    simp only [Radix.single] at found
    split at found
    · exact (Option.some.inj found).symm
    · cases found
  exact (shared.kept u e q theirs).tree.not_free owned' shared.free (root ▸ List.mem_cons_self)

omit [DecidableEq τ] in
/-- `alloc_pages`: the pages are nobody's yet. -/
theorem Shared.allocPages {num f : Nat} (shared : s.Shared l spaces taken) (done : s.allocPages num = .ok (some f, s')) :
    ∃ l', s'.Shared l' spaces (taken ∪ {p | ∃ tl, AllocSet s' f tl ∧ p ∈ f :: tl}) ∧ SameGeometry s s' := by
  obtain ⟨tl, ys, split, -, free', set, type, geometry, agree⟩ := allocPages_served shared.free done
  refine ⟨ys, shared.frame free' geometry (fun q dir => agree q (dir.not_free shared.free)) ?_ ?_, geometry⟩
  · exact fun q u e r _ _ held => held.frame geometry fun x inside => agree x (inside.not_free shared.free)
  · rintro p (inHand | ⟨rest, set', member⟩)
    · have held := shared.held p inHand
      exact ⟨held.frame geometry fun x inside => agree x (inside.not_free shared.free), shared.unmapped p inHand⟩
    · refine ⟨⟨f, rest, set', member, type⟩, fun u e r theirs ⟨π, w, found, same⟩ => ?_⟩
      obtain ⟨-, rfl⟩ := set'.unique set List.mem_cons_self List.mem_cons_self
      refine (shared.kept u e r theirs).leaf_not_free found ?_
      rw [same, split]
      exact List.mem_append_left ys member

omit [DecidableEq τ] in
/-- `pgfree`, of a page that nobody maps. -/
theorem Shared.pgfree {p : Nat} (shared : s.Shared l spaces taken) (mine : p ∈ taken) (done : s.pgfree (some p) = .ok s') :
    ∃ l', s'.Shared l' spaces (taken \ {p}) ∧ SameGeometry s s' := by
  have held := shared.held p mine
  obtain ⟨s₁, l', run, free', -, geometry, rest, agree⟩ := held.pgfree shared.free shared.phys.nrPages_lt
  obtain rfl : s₁ = s' := Except.ok.inj (run.symm.trans done)
  refine ⟨l', shared.frame free' geometry (fun q dir => agree q (dir.not_free shared.free) (held.not_mates dir)) ?_ ?_, geometry⟩
  · rintro q u e r theirs leaf old
    refine rest q old ?_
    rintro rfl
    exact shared.unmapped q mine u e r theirs leaf
  · rintro q ⟨inHand, other⟩
    exact ⟨rest q (shared.held q inHand) other, shared.unmapped q inHand⟩

/-- `arch_map_page`, of a page that nobody maps. -/
theorem Shared.archMapPage {t : τ} {d v p flags : Nat} {r : Dirs} {retcode : Int} (shared : s.Shared l spaces taken)
    (mine : spaces t = some (d, r)) (small : v < 2 ^ 64) (inHand : p ∈ taken)
    (done : s.archMapPage (s.pageToKvaddr d) v p (pagePerm flags) = .ok (retcode, s')) :
    ∃ l' r', s'.Shared l' (Function.update spaces t (some (d, r'))) (if retcode = 0 then taken \ {p} else taken) ∧
      SameGeometry s s' := by
  obtain ⟨code, s₁, r', l', run, kept', table, leaf⟩ :=
    (shared.kept t d r mine).map_table flags small (shared.held p inHand) (shared.unmapped p inHand t d r mine)
  obtain ⟨rfl, rfl⟩ := Prod.mk.inj (Except.ok.inj (run.symm.trans done))
  refine ⟨l', r', shared.step mine table kept' (fun q new => ?_) fun q still => ?_, table.geometry⟩
  · rcases leaf q new with old | ⟨-, rfl⟩
    · exact .inl old
    · exact .inr inHand
  · have before : q ∈ taken := by
      split at still
      · exact still.1
      · exact still
    have away := shared.unmapped q before t d r mine
    refine ⟨table.held q (shared.held q before) away, fun new => ?_, .inl before⟩
    rcases leaf q new with old | ⟨mapped, same⟩
    · exact away old
    · rw [if_pos mapped] at still
      exact still.2 same

/-- `pgtable_remove`: the page is nobody's until it is given back. -/
theorem Shared.pgtableClear {t : τ} {d v : Nat} {r : Dirs} {p : Option Nat} (shared : s.Shared l spaces taken)
    (mine : spaces t = some (d, r)) (done : s.pgtableClear (s.pageToKvaddr d) v = .ok (p, s')) :
    ∃ l' r', s'.Shared l' (Function.update spaces t (some (d, r'))) (taken ∪ {q | p = some q}) ∧ SameGeometry s s' := by
  have kept := shared.kept t d r mine
  obtain ⟨s₁, r', l', run, kept', table, cleared, still⟩ := kept.unmap_table v
  obtain ⟨rfl, rfl⟩ := Prod.mk.inj (Except.ok.inj (run.symm.trans done))
  have fewer : ∀ q, IsLeaf r' q → ∃ π w, π ≠ path v ∧ r.leaf π = some w ∧ w.1 = q := by
    rintro q ⟨π, w, found, rfl⟩
    rw [cleared] at found
    by_cases here : π = path v
    · rw [here, Function.update_self] at found
      cases found
    · rw [Function.update_of_ne here] at found
      exact ⟨π, w, here, found, rfl⟩
  refine ⟨l', r', shared.step mine table kept' (fun q new => ?_) ?_, table.geometry⟩
  · obtain ⟨π, w, -, found, same⟩ := fewer q new
    exact .inl ⟨π, w, found, same⟩
  · rintro q (inHand | now)
    · refine ⟨still q (shared.held q inHand), fun new => ?_, .inl inHand⟩
      obtain ⟨π, w, -, found, same⟩ := fewer q new
      exact shared.unmapped q inHand t d r mine ⟨π, w, found, same⟩
    · obtain ⟨x, found, rfl⟩ := Option.map_eq_some_iff.mp now
      refine ⟨still x.1 (kept.held _ x found), fun new => ?_, .inr ⟨path v, x, found, rfl⟩⟩
      obtain ⟨π, w, other, there, same⟩ := fewer x.1 new
      exact other (kept.apart π (path v) w x there found same)

/-- Every call keeps the invariant, and the tree of any other space. -/
theorem Shared.does (shared : s.Shared l spaces taken) (next : SpacesStep s (rootsOf spaces) taken t s' roots' taken') :
    ∃ l' spaces', s'.Shared l' spaces' taken' ∧ rootsOf spaces' = roots' ∧ SameGeometry s s' ∧
      ∀ u, t ≠ some u → spaces' u = spaces u := by
  cases next with
  | @new t asid d _ vacant done =>
    have none : spaces t = none := Option.map_eq_none_iff.mp vacant
    obtain ⟨l', shared', geometry⟩ := shared.pgdirNew none done
    exact ⟨l', _, shared', rootsOf_update .., geometry, fun u other => Function.update_of_ne (fun same => other (by rw [same])) _ _⟩
  | alloc done =>
    obtain ⟨l', shared', geometry⟩ := shared.allocPages done
    exact ⟨l', spaces, shared', rfl, geometry, fun _ _ => rfl⟩
  | give mine done =>
    obtain ⟨l', shared', geometry⟩ := shared.pgfree mine done
    exact ⟨l', spaces, shared', rfl, geometry, fun _ _ => rfl⟩
  | map table small mine done =>
    obtain ⟨r, found⟩ := rootsOf_some.mp table
    obtain ⟨l', r', shared', geometry⟩ := shared.archMapPage found small mine done
    exact ⟨l', _, shared', rootsOf_same found, geometry,
      fun u other => Function.update_of_ne (fun same => other (by rw [same])) _ _⟩
  | unmap table done =>
    obtain ⟨r, found⟩ := rootsOf_some.mp table
    obtain ⟨l', r', shared', geometry⟩ := shared.pgtableClear found done
    exact ⟨l', _, shared', rootsOf_same found, geometry,
      fun u other => Function.update_of_ne (fun same => other (by rw [same])) _ _⟩

/-- The invariant holds in every run. -/
theorem SpacesRun.shared (free : FreeList s₀ l₀) (phys : PhysBound s₀) (run : SpacesRun s₀ s roots taken) :
    ∃ l spaces, s.Shared l spaces taken ∧ rootsOf spaces = roots := by
  induction run with
  | start =>
    exact ⟨l₀, fun _ => none, ⟨free, phys, fun _ _ _ none => (nomatch none), fun _ _ _ _ _ _ _ _ none => (nomatch none),
      fun _ _ _ _ _ _ _ _ none => (nomatch none), fun _ none => none.elim, fun _ none => none.elim⟩, rfl⟩
  | step run next ih =>
    obtain ⟨l, spaces, shared, rfl⟩ := ih
    obtain ⟨l', spaces', shared', same, -⟩ := shared.does next
    exact ⟨l', spaces', shared', same⟩

/-- The tables are apart: they share no directory, a page is mapped in one space only and there at one address, and it is
neither free nor in hand nor a directory of any table. -/
structure Isolated (s : PageMem) (roots : τ → Option Nat) (taken : Set Nat) : Prop where
  apart : ∀ t u d e p, t ≠ u → roots t = some d → roots u = some e → s.Mapped (s.pageToKvaddr d) p →
    ¬ s.Mapped (s.pageToKvaddr e) p
  dirs : ∀ t u d e n m q, t ≠ u → roots t = some d → roots u = some e → Reaches s d n q → ¬ Reaches s e m q
  once : ∀ t d v w, roots t = some d → v < 2 ^ 47 → w < 2 ^ 47 → s.tableEntry (s.pageToKvaddr d) v ≠ 0 →
    s.tableEntry (s.pageToKvaddr d) w ≠ 0 →
    s.archMmGetPfn (s.pageToKvaddr d) v = s.archMmGetPfn (s.pageToKvaddr d) w → v / 16384 = w / 16384
  used : ∀ t d p, roots t = some d → s.Mapped (s.pageToKvaddr d) p →
    p ∉ taken ∧ ¬ IsDir s p ∧ ∀ l, FreeList s l → p ∉ l

omit [DecidableEq τ] in
theorem Shared.isolated (shared : s.Shared l spaces taken) : s.Isolated (rootsOf spaces) taken := by
  constructor
  case apart =>
    intro t u d e p other left right mapped mapped'
    obtain ⟨r, mine⟩ := rootsOf_some.mp left
    obtain ⟨q, theirs⟩ := rootsOf_some.mp right
    exact shared.leaves t u d r e q p other mine theirs ((shared.kept t d r mine).mapped_iff.mp mapped)
      ((shared.kept u e q theirs).mapped_iff.mp mapped')
  case dirs =>
    intro t u d e n m x other left right reach reach'
    obtain ⟨r, mine⟩ := rootsOf_some.mp left
    obtain ⟨q, theirs⟩ := rootsOf_some.mp right
    have kept := shared.kept t d r mine
    have kept' := shared.kept u e q theirs
    obtain ⟨π, -, found⟩ := (kept.tree.reaches_iff kept.rooted).mp reach
    obtain ⟨ρ, -, found'⟩ := (kept'.tree.reaches_iff kept'.rooted).mp reach'
    exact shared.dirs t u d r e q x other mine theirs ⟨π, found⟩ ⟨ρ, found'⟩
  case once =>
    intro t d v w table small small' present present' same
    obtain ⟨r, mine⟩ := rootsOf_some.mp table
    have kept := shared.kept t d r mine
    obtain ⟨x, found⟩ := (tableEntry_ne_zero kept.tree kept.rooted).mp present
    obtain ⟨y, found'⟩ := (tableEntry_ne_zero kept.tree kept.rooted).mp present'
    rw [archMmGetPfn_eq, archMmGetPfn_eq, tableEntry_spec kept.tree kept.rooted, tableEntry_spec kept.tree kept.rooted, found, found',
      Option.elim_some, Option.elim_some, leafWord_pfn, leafWord_pfn, pageToPfn, pageToPfn] at same
    exact (path_inj small small').mp (kept.apart _ _ x y found found' (by omega))
  case used =>
    intro t d p table mapped
    obtain ⟨r, mine⟩ := rootsOf_some.mp table
    have kept := shared.kept t d r mine
    obtain ⟨π, w, found, rfl⟩ := kept.mapped_iff.mp mapped
    have held := kept.held π w found
    exact ⟨fun inHand => shared.unmapped w.1 inHand t d r mine ⟨π, w, found, rfl⟩, fun dir => held.not_dir dir rfl,
      fun l' free => held.not_free free⟩

omit [DecidableEq τ] in
/-- With three free pages a page is taken and mapped in a space. -/
theorem Shared.supply {t : τ} {d v : Nat} {r : Dirs} (shared : s.Shared l spaces taken) (mine : spaces t = some (d, r))
    (small : v < 2 ^ 64) (nonzero : pgaddrRounddown v ≠ 0) (enough : 3 ≤ l.length) :
    ∃ f tl s₁ s₂ r' l', s.allocPages 1 = .ok (some f, s₁) ∧ AllocSet s₁ f tl ∧
      s₁.archMapPage (s₁.pageToKvaddr d) v f (pagePerm 0) = .ok (0, s₂) ∧ SpaceKept d s₂ r' l' ∧
      r'.leaf (path v) = some (f, pagePerm 0) ∧ l.length ≤ l'.length + 3 ∧ l.head? = some f := by
  obtain ⟨f, s₁, alloc⟩ := allocPages_some shared.free Nat.one_pos (by omega)
  obtain ⟨tl, ys, split, length, free, set, -⟩ := allocPages_served shared.free alloc
  obtain ⟨l₁, shared₁, -⟩ := shared.allocPages alloc
  obtain rfl := shared₁.free.unique free
  have inHand : f ∈ taken ∪ {p | ∃ tl, AllocSet s₁ f tl ∧ p ∈ f :: tl} := .inr ⟨tl, set, List.mem_cons_self⟩
  have fresh : ∀ π w, r.leaf π = some w → w.1 ≠ f := fun π w found same => shared₁.unmapped f inHand t d r mine ⟨π, w, found, same⟩
  have total := congrArg List.length split
  rw [List.length_append, List.length_cons] at total
  have few := missing_le r v
  obtain ⟨s₂, r', l', done, kept', mapped, count⟩ := (shared₁.kept t d r mine).map_counted small nonzero (shared₁.held f inHand) fresh
    (pagePerm_own 0) (by omega)
  refine ⟨f, tl, s₁, s₂, r', l', alloc, set, done, kept', ?_, by omega, by rw [split]; rfl⟩
  rw [mapped.leaf, Function.update_self]

/-- On a machine of 64 pages there is room for two page tables and a page in each. -/
theorem two_tables : ∃ (s₀ s₁ s₂ s₃ s₄ s₅ s₆ : PageMem) (f g : Nat) (tl tl' : List Nat), FreeList s₀ (1 :: 2 :: List.range' 3 61) ∧
    PhysBound s₀ ∧ s₀.pgdirNew 0xff = .ok (some 1, s₁) ∧ s₁.pgdirNew 0xff = .ok (some 2, s₂) ∧
      (s₂.allocPages 1 = .ok (some f, s₃) ∧ AllocSet s₃ f tl ∧ s₃.archMapPage (s₃.pageToKvaddr 1) 0x4000 f (pagePerm 0) = .ok (0, s₄) ∧
        s₄.tableEntry (s₄.pageToKvaddr 1) 0x4000 ≠ 0 ∧ s₄.tableLo 1 0x4000 / 2 % 2 = 1 ∧ entryLoPfn (s₄.tableLo 1 0x4000) ≠ 0) ∧
      s₄.allocPages 1 = .ok (some g, s₅) ∧ AllocSet s₅ g tl' ∧ s₅.archMapPage (s₅.pageToKvaddr 2) 0x4000 g (pagePerm 0) = .ok (0, s₆) ∧
        s₆.tableEntry (s₆.pageToKvaddr 2) 0x4000 ≠ 0 := by
  have free := (initPageArray_books 1 64 ⟨id, id⟩ fun _ => 0).free
  rw [bootLedger_sort] at free
  have phys : PhysBound (initPageArray 1 64 ⟨id, id⟩ fun _ => 0) := by
    rw [PhysBound]
    decide
  have pages : List.range' (pageArrayPages 64) (64 - pageArrayPages 64) = 1 :: 2 :: List.range' 3 61 := by decide
  rw [pages] at free
  obtain ⟨s₁, new₁, free₁, -⟩ := pgdirNew_spec free 0xff
  obtain ⟨s₂, new₂, free₂, -⟩ := pgdirNew_spec free₁ 0xff
  have begun : SpacesRun (initPageArray 1 64 ⟨id, id⟩ fun _ => 0) _ (fun _ : Bool => none) ∅ := .start
  have run₂ := (begun.step (.new (t := true) rfl new₁)).step (.new (t := false) rfl new₂)
  obtain ⟨l₂, spaces₂, shared₂, same₂⟩ := run₂.shared free phys
  obtain rfl := shared₂.free.unique free₂
  obtain ⟨r, mine⟩ := rootsOf_some.mp (show rootsOf spaces₂ true = some 1 by rw [same₂]; rfl)
  obtain ⟨f, tl, s₃, s₄, r', l₄, alloc, set, done, kept, leaf, count, third⟩ :=
    shared₂.supply (v := 0x4000) mine (by decide) (by decide) (by decide)
  have inHand : f ∈ (∅ : Set Nat) ∪ {p | ∃ tl, AllocSet s₃ f tl ∧ p ∈ f :: tl} := .inr ⟨tl, set, List.mem_cons_self⟩
  have run₄ := (run₂.step (.alloc alloc)).step (.map (t := true) rfl (by decide) inHand done)
  obtain ⟨l, spaces₄, shared₄, same₄⟩ := run₄.shared free phys
  obtain rfl := shared₄.free.unique kept.free
  obtain ⟨r₂, theirs⟩ := rootsOf_some.mp (show rootsOf spaces₄ false = some 2 by rw [same₄]; rfl)
  rw [List.length_range'] at count
  obtain ⟨g, tl', s₅, s₆, r₃, l₆, alloc', set', done', kept', leaf', -⟩ :=
    shared₄.supply (v := 0x4000) theirs (by decide) (by decide) (by omega)
  have flags : pteFlags (pagePerm 0) &&& pteLowmask = 0x689 := by decide
  refine ⟨_, s₁, s₂, s₃, s₄, s₅, s₆, f, g, tl, tl', free, phys, new₁, new₂, ⟨alloc, set, done, ?_, ?_, ?_⟩, alloc', set', done', ?_⟩
  · exact (tableEntry_ne_zero kept.tree kept.rooted).mpr ⟨_, leaf⟩
  · rw [kept.tableLo_eq, leaf, Option.elim_some, entryLo_eq, leafWord_eq, flags]
    omega
  · obtain rfl : 3 = f := Option.some.inj third
    rw [kept.tableLo_eq, leaf, Option.elim_some, entryLo_leafWord _ kept.phys (kept.tree.pages _ _ leaf), pageToPfn]
    omega
  · exact (tableEntry_ne_zero kept'.tree kept'.rooted).mpr ⟨_, leaf'⟩

/-- Two address spaces with a page in each. -/
theorem two_spaces : ∃ (s₀ s : PageMem) (roots : Bool → Option Nat) (taken : Set Nat) (d e p : Nat),
    FreeList s₀ (1 :: 2 :: List.range' 3 61) ∧ PhysBound s₀ ∧ SpacesRun s₀ s roots taken ∧ roots true = some d ∧ roots false = some e ∧
      s.tableEntry (s.pageToKvaddr d) 0x4000 ≠ 0 ∧ s.tableEntry (s.pageToKvaddr e) 0x4000 ≠ 0 ∧ s.Mapped (s.pageToKvaddr d) p := by
  obtain ⟨s₀, s₁, s₂, s₃, s₄, s₅, s₆, f, g, tl, tl', free, phys, new₁, new₂, ⟨alloc, set, done, first, -⟩, alloc', set', done', second⟩ :=
    two_tables
  have begun : SpacesRun s₀ s₀ (fun _ : Bool => none) ∅ := .start
  have inHand : f ∈ (∅ : Set Nat) ∪ {p | ∃ tl, AllocSet s₃ f tl ∧ p ∈ f :: tl} := .inr ⟨tl, set, List.mem_cons_self⟩
  have run₄ := (((begun.step (.new (t := true) rfl new₁)).step (.new (t := false) rfl new₂)).step (.alloc alloc)).step
    (.map (t := true) rfl (by decide) inHand done)
  have run₆ := (run₄.step (.alloc alloc')).step (.map (t := false) rfl (by decide) (.inr ⟨tl', set', List.mem_cons_self⟩) done')
  -- the tree of the first space stays as it is while the other one is filled
  obtain ⟨l₄, spaces₄, shared₄, same₄⟩ := run₄.shared free phys
  obtain ⟨r, mine⟩ := rootsOf_some.mp (show rootsOf spaces₄ true = some 1 by rw [same₄]; rfl)
  have kept := shared₄.kept true 1 r mine
  obtain ⟨w, leaf⟩ := (tableEntry_ne_zero kept.tree kept.rooted).mp first
  obtain ⟨l₅, spaces₅, shared₅, same₅, -, still₅⟩ := shared₄.does (.alloc alloc')
  have theirs : rootsOf spaces₅ false = some 2 := by
    rw [same₅, same₄]
    rfl
  obtain ⟨l₆, spaces₆, shared₆, same₆, -, still₆⟩ :=
    shared₅.does (.map (t := false) theirs (by decide) (.inr ⟨tl', set', List.mem_cons_self⟩) done')
  have mine₆ : spaces₆ true = some (1, r) := (still₆ true (by decide)).trans ((still₅ true (by decide)).trans mine)
  have kept₆ := shared₆.kept true 1 r mine₆
  exact ⟨s₀, s₆, _, _, 1, 2, w.1, free, phys, run₆, rfl, rfl, (tableEntry_ne_zero kept₆.tree kept₆.rooted).mpr ⟨w, leaf⟩, second,
    kept₆.mapped_iff.mpr ⟨_, w, leaf, rfl⟩⟩

/-- Address spaces stay isolated, whoever asks the allocator in whatever order, and whether memory is short or not. -/
theorem SpacesRun.stay_isolated (free : FreeList s₀ l₀) (phys : PhysBound s₀) (run : SpacesRun s₀ s roots taken) :
    s.Isolated roots taken := by
  obtain ⟨l, spaces, shared, rfl⟩ := run.shared free phys
  exact shared.isolated

theorem SpacesRun.stay_isolated_two : ∃ (s : PageMem) (d e p : Nat), s.tableEntry (s.pageToKvaddr e) 0x4000 ≠ 0 ∧
    s.Mapped (s.pageToKvaddr d) p ∧ ¬ s.Mapped (s.pageToKvaddr e) p ∧ Reaches s d 0 d ∧ ∀ n, ¬ Reaches s e n d := by
  obtain ⟨s₀, s, roots, taken, d, e, p, free, phys, run, left, right, -, used, mapped⟩ := two_spaces
  have isolated := SpacesRun.stay_isolated free phys run
  exact ⟨s, d, e, p, used, mapped, isolated.apart true false d e p (by decide) left right mapped, .root,
    fun n => isolated.dirs true false d e 0 n d (by decide) left right .root⟩

/-- What is done for one space changes no entry of another one. -/
theorem SpacesRun.undisturbed (free : FreeList s₀ l₀) (phys : PhysBound s₀) (run : SpacesRun s₀ s roots taken)
    (next : SpacesStep s roots taken t s' roots' taken') {u : τ} {e : Nat} (other : t ≠ some u) (table : roots u = some e) (v : Nat) :
    roots' u = some e ∧ s'.tableEntry (s'.pageToKvaddr e) v = s.tableEntry (s.pageToKvaddr e) v := by
  obtain ⟨l, spaces, shared, rfl⟩ := run.shared free phys
  obtain ⟨l', spaces', shared', rfl, geometry, same⟩ := shared.does next
  obtain ⟨r, mine⟩ := rootsOf_some.mp table
  have mine' : spaces' u = some (e, r) := (same u other).trans mine
  have kept := shared.kept u e r mine
  have kept' := shared'.kept u e r mine'
  refine ⟨rootsOf_some.mpr ⟨r, mine'⟩, ?_⟩
  rw [tableEntry_spec kept'.tree kept'.rooted, tableEntry_spec kept.tree kept.rooted, leafWord_frame geometry]

theorem SpacesRun.undisturbed_two : ∃ (s s' : PageMem) (d e : Nat) (o : Option Nat),
    s.tableEntry (s.pageToKvaddr d) 0x4000 ≠ 0 ∧ s.pgtableClear (s.pageToKvaddr d) 0x4000 = .ok (o, s') ∧
      s.tableEntry (s.pageToKvaddr e) 0x4000 ≠ 0 ∧ s'.tableEntry (s'.pageToKvaddr e) 0x4000 = s.tableEntry (s.pageToKvaddr e) 0x4000 := by
  obtain ⟨s₀, s, roots, taken, d, e, p, free, phys, run, left, right, present, present', -⟩ := two_spaces
  obtain ⟨l, spaces, shared, rfl⟩ := run.shared free phys
  obtain ⟨r, mine⟩ := rootsOf_some.mp left
  obtain ⟨s', r', l', done, -⟩ := (shared.kept true d r mine).unmap_table 0x4000
  have other : some true ≠ some false := by decide
  exact ⟨s, s', d, e, _, present, done, present', (SpacesRun.undisturbed free phys run (.unmap left done) other right 0x4000).2⟩

/-- No call on a page in hand or on a table fails an assertion or follows a wild pointer. -/
theorem SpacesRun.answers (free : FreeList s₀ l₀) (phys : PhysBound s₀) (run : SpacesRun s₀ s roots taken) :
    (∀ p ∈ taken, ∃ s', s.pgfree (some p) = .ok s') ∧
      ∀ t d, roots t = some d → (∀ v, ∃ p s', s.pgtableClear (s.pageToKvaddr d) v = .ok (p, s')) ∧
        ∀ v < 2 ^ 64, ∀ p ∈ taken, ∀ flags, ∃ retcode s', s.archMapPage (s.pageToKvaddr d) v p (pagePerm flags) = .ok (retcode, s') := by
  obtain ⟨l, spaces, shared, rfl⟩ := run.shared free phys
  refine ⟨fun p inHand => ?_, fun t d table => ⟨fun v => ?_, fun v small p inHand flags => ?_⟩⟩
  · obtain ⟨s', l', done, -⟩ := (shared.held p inHand).pgfree shared.free shared.phys.nrPages_lt
    exact ⟨s', done⟩
  · obtain ⟨r, mine⟩ := rootsOf_some.mp table
    obtain ⟨s', r', l', done, -⟩ := (shared.kept t d r mine).unmap_table v
    exact ⟨_, s', done⟩
  · obtain ⟨r, mine⟩ := rootsOf_some.mp table
    obtain ⟨retcode, s', r', l', done, -⟩ :=
      (shared.kept t d r mine).map_table flags small (shared.held p inHand) (shared.unmapped p inHand t d r mine)
    exact ⟨retcode, s', done⟩

theorem SpacesRun.answers_two : ∃ (s : PageMem) (d : Nat), ∀ v, ∃ p s', s.pgtableClear (s.pageToKvaddr d) v = .ok (p, s') := by
  obtain ⟨s₀, s, roots, taken, d, e, p, free, phys, run, left, -⟩ := two_spaces
  exact ⟨s, d, ((SpacesRun.answers free phys run).2 true d left).1⟩

end Runs

end PageMem

end Xv6
