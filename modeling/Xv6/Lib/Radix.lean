import Mathlib.Logic.Function.Basic
import Mathlib.Data.List.Infix
import Mathlib.Tactic.Tauto

namespace Xv6

/-- A radix tree whose directories are objects of type `ν`. A path lists its
indices from the innermost one outwards, so that its tail is the path of the
parent. Leaves hang `height` levels below the root. -/
@[ext] structure Radix (ν : Type) (l : Type) (fan height : Nat) where
  dir : List Nat → Option ν
  leaf : List Nat → Option l
  rooted : dir [] ≠ none
  short : ∀ π d, dir π = some d → π.length ≤ height
  closed : ∀ i π d, dir (i :: π) = some d → i < fan ∧ dir π ≠ none
  distinct : ∀ π ρ d, dir π = some d → dir ρ = some d → π = ρ
  hung : ∀ π w, leaf π = some w → ∃ i ρ, π = i :: ρ ∧ i < fan ∧ ρ.length = height ∧ dir ρ ≠ none

namespace Radix

variable {ν l : Type} {fan height : Nat}

/-- The word of a directory that belongs to a path. -/
def word (r : Radix ν l fan height) (address : ν → Nat) (value : l → Nat) (π : List Nat) : Nat :=
  if π.length ≤ height then (r.dir π).elim 0 address else (r.leaf π).elim 0 value

def Taken (r : Radix ν l fan height) (π : List Nat) : Prop := r.dir π ≠ none ∨ r.leaf π ≠ none

/-- Below the root no directory is empty. -/
def Full (r : Radix ν l fan height) : Prop :=
  ∀ i π, r.dir (i :: π) ≠ none → ∃ j, r.Taken (j :: i :: π)

def Owns (r : Radix ν l fan height) (d : ν) : Prop := ∃ π, r.dir π = some d

theorem taken_fan {r : Radix ν l fan height} {i : Nat} {π : List Nat} (taken : r.Taken (i :: π)) : i < fan := by
  rcases taken with dir | leaf
  · obtain ⟨d, found⟩ := Option.ne_none_iff_exists'.mp dir
    exact (r.closed i π d found).1
  · obtain ⟨w, found⟩ := Option.ne_none_iff_exists'.mp leaf
    obtain ⟨j, ρ, same, bound, -⟩ := r.hung _ w found
    rw [(List.cons.inj same).1]
    exact bound

theorem word_dir {r : Radix ν l fan height} {address : ν → Nat} {value : l → Nat} {π : List Nat}
    (shallow : π.length ≤ height) : r.word address value π = (r.dir π).elim 0 address := by
  rw [word, if_pos shallow]

theorem word_leaf {r : Radix ν l fan height} {address : ν → Nat} {value : l → Nat} {π : List Nat}
    (deep : height < π.length) : r.word address value π = (r.leaf π).elim 0 value := by
  rw [word, if_neg (Nat.not_le.mpr deep)]

theorem leaf_shallow {r : Radix ν l fan height} {π : List Nat} (shallow : π.length ≤ height) : r.leaf π = none := by
  by_contra present
  obtain ⟨w, found⟩ := Option.ne_none_iff_exists'.mp present
  obtain ⟨i, ρ, rfl, -, length, -⟩ := r.hung π w found
  rw [List.length_cons] at shallow
  omega

theorem dir_deep {r : Radix ν l fan height} {π : List Nat} (deep : height < π.length) : r.dir π = none := by
  by_contra present
  obtain ⟨d, found⟩ := Option.ne_none_iff_exists'.mp present
  have bound := r.short π d found
  omega

/-- Nothing hangs below a directory that is not there. -/
theorem not_taken {r : Radix ν l fan height} {π : List Nat} (absent : r.dir π = none) (i : Nat) :
    ¬ r.Taken (i :: π) := by
  rintro (dir | leaf)
  · obtain ⟨d, found⟩ := Option.ne_none_iff_exists'.mp dir
    exact (r.closed i π d found).2 absent
  · obtain ⟨w, found⟩ := Option.ne_none_iff_exists'.mp leaf
    obtain ⟨j, ρ, same, -, -, parent⟩ := r.hung _ w found
    rw [← (List.cons.inj same).2] at parent
    exact parent absent

/-- The word is 0 exactly where nothing is. -/
theorem word_eq_zero {r : Radix ν l fan height} {address : ν → Nat} {value : l → Nat} {π : List Nat}
    (addresses : ∀ d, address d ≠ 0) (values : ∀ w, value w ≠ 0) : r.word address value π = 0 ↔ ¬ r.Taken π := by
  rw [word, Taken]
  by_cases shallow : π.length ≤ height
  · rw [if_pos shallow, leaf_shallow shallow]
    cases r.dir π <;> simp [addresses]
  · rw [if_neg shallow, dir_deep (Nat.lt_of_not_le shallow)]
    cases r.leaf π <;> simp [values]

/-- The tree that is only a root. -/
def single (root : ν) : Radix ν l fan height where
  dir := fun π => if π = [] then some root else none
  leaf := fun _ => none
  rooted := by simp
  short := by
    intro π d found
    split at found
    · rename_i empty
      simp [empty]
    · cases found
  closed := by simp
  distinct := by
    intro π ρ d left right
    split at left <;> split at right <;> simp_all
  hung := by simp

theorem single_full (root : ν) : (single root : Radix ν l fan height).Full := by
  intro i π present
  simp [single] at present

/-- A directory is added where there is none, below one there is. -/
def addDir (r : Radix ν l fan height) (i : Nat) (π : List Nat) (x : ν) (bound : i < fan)
    (parent : r.dir π ≠ none) (shallow : π.length < height) (fresh : ∀ ρ, r.dir ρ ≠ some x) :
    Radix ν l fan height where
  dir := Function.update r.dir (i :: π) (some x)
  leaf := r.leaf
  rooted := by simpa using r.rooted
  short := by
    intro ρ d found
    by_cases same : ρ = i :: π
    · rw [same, List.length_cons]
      omega
    · rw [Function.update_of_ne same] at found
      exact r.short ρ d found
  closed := by
    intro j ρ d found
    have kept : ∀ σ, r.dir σ ≠ none → Function.update r.dir (i :: π) (some x) σ ≠ none := by
      intro σ present
      by_cases same : σ = i :: π
      · simp [same]
      · rwa [Function.update_of_ne same]
    by_cases same : j :: ρ = i :: π
    · obtain ⟨rfl, rfl⟩ := List.cons.inj same
      exact ⟨bound, kept ρ parent⟩
    · rw [Function.update_of_ne same] at found
      exact ⟨(r.closed j ρ d found).1, kept ρ (r.closed j ρ d found).2⟩
  distinct := by
    intro ρ σ d left right
    by_cases first : ρ = i :: π <;> by_cases second : σ = i :: π
    · rw [first, second]
    · rw [first, Function.update_self] at left
      rw [Function.update_of_ne second] at right
      exact absurd (right.trans left.symm) (fresh σ)
    · rw [second, Function.update_self] at right
      rw [Function.update_of_ne first] at left
      exact absurd (left.trans right.symm) (fresh ρ)
    · rw [Function.update_of_ne first] at left
      rw [Function.update_of_ne second] at right
      exact r.distinct ρ σ d left right
  hung := by
    intro ρ w found
    obtain ⟨j, σ, same, small, length, present⟩ := r.hung ρ w found
    refine ⟨j, σ, same, small, length, ?_⟩
    by_cases here : σ = i :: π
    · simp [here]
    · rwa [Function.update_of_ne here]

/-- The subtree at a path that is not the root is cut off. -/
def cut (r : Radix ν l fan height) (i : Nat) (π : List Nat) : Radix ν l fan height where
  dir := fun ρ => if i :: π <:+ ρ then none else r.dir ρ
  leaf := fun ρ => if i :: π <:+ ρ then none else r.leaf ρ
  rooted := by
    rw [if_neg (by simp)]
    exact r.rooted
  short := by
    intro ρ d found
    split at found
    · cases found
    · exact r.short ρ d found
  closed := by
    intro j ρ d found
    split at found
    · cases found
    · rename_i outside
      have above : ¬ i :: π <:+ ρ := fun inside => outside (inside.trans (List.suffix_cons j ρ))
      rw [if_neg above]
      exact r.closed j ρ d found
  distinct := by
    intro ρ σ d left right
    split at left
    · cases left
    · split at right
      · cases right
      · exact r.distinct ρ σ d left right
  hung := by
    intro ρ w found
    split at found
    · cases found
    · rename_i outside
      obtain ⟨j, σ, rfl, small, length, present⟩ := r.hung ρ w found
      have above : ¬ i :: π <:+ σ := fun inside => outside (inside.trans (List.suffix_cons j σ))
      exact ⟨j, σ, rfl, small, length, by rwa [if_neg above]⟩

/-- The leaf at a path is set or cleared. -/
def setLeaf (r : Radix ν l fan height) (i : Nat) (π : List Nat) (w : Option l) (bound : i < fan)
    (deep : π.length = height) (parent : r.dir π ≠ none) : Radix ν l fan height where
  dir := r.dir
  leaf := Function.update r.leaf (i :: π) w
  rooted := r.rooted
  short := r.short
  closed := r.closed
  distinct := r.distinct
  hung := by
    intro ρ v found
    by_cases same : ρ = i :: π
    · exact ⟨i, π, same, bound, deep, parent⟩
    · rw [Function.update_of_ne same] at found
      exact r.hung ρ v found

/-- What lies below an empty directory is nothing. -/
theorem below_empty {r : Radix ν l fan height} {κ ρ : List Nat} (empty : ∀ j, ¬ r.Taken (j :: κ))
    (below : κ <:+ ρ) (other : ρ ≠ κ) : r.dir ρ = none ∧ r.leaf ρ = none := by
  obtain ⟨front, rfl⟩ := below
  induction front with
  | nil => exact absurd rfl other
  | cons j front ih =>
    have parent : ¬ r.Taken (j :: (front ++ κ)) := by
      by_cases direct : front = []
      · subst direct
        exact empty j
      · have gone := (ih (by simpa using direct)).1
        exact not_taken gone j
    simp only [Taken, not_or, not_not] at parent
    exact parent

theorem cut_dir_empty {r : Radix ν l fan height} {i : Nat} {π : List Nat}
    (empty : ∀ j, ¬ r.Taken (j :: i :: π)) : (r.cut i π).dir = Function.update r.dir (i :: π) none := by
  funext ρ
  by_cases same : ρ = i :: π
  · simp [cut, same]
  · rw [Function.update_of_ne same]
    by_cases below : i :: π <:+ ρ
    · simp [cut, below, (below_empty empty below same).1]
    · simp [cut, below]

/-- Cutting off an empty directory takes no leaf away. -/
theorem cut_leaf_empty {r : Radix ν l fan height} {i : Nat} {π : List Nat} (present : r.dir (i :: π) ≠ none)
    (empty : ∀ j, ¬ r.Taken (j :: i :: π)) : (r.cut i π).leaf = r.leaf := by
  funext ρ
  by_cases below : i :: π <:+ ρ
  · have absent : r.leaf ρ = none := by
      by_cases same : ρ = i :: π
      · obtain ⟨d, found⟩ := Option.ne_none_iff_exists'.mp present
        exact same ▸ leaf_shallow (r.short _ d found)
      · exact (below_empty empty below same).2
    simp [cut, below, absent]
  · simp [cut, below]

/-- Below the root no directory is empty, the one at `κ` apart. -/
def FullBut (r : Radix ν l fan height) (κ : List Nat) : Prop :=
  ∀ i π, i :: π ≠ κ → r.dir (i :: π) ≠ none → ∃ j, r.Taken (j :: i :: π)

theorem Full.but {r : Radix ν l fan height} (full : r.Full) (κ : List Nat) : r.FullBut κ :=
  fun i π _ present => full i π present

theorem FullBut.full {r : Radix ν l fan height} {κ : List Nat} (full : r.FullBut κ)
    (used : κ ≠ [] → ∃ j, r.Taken (j :: κ)) : r.Full := by
  intro i π present
  by_cases here : i :: π = κ
  · rw [here]
    exact used (by simp [← here])
  · exact full i π here present

theorem FullBut.addDir {r : Radix ν l fan height} {i : Nat} {π : List Nat} {x : ν} (full : r.FullBut π)
    (bound : i < fan) (parent : r.dir π ≠ none) (shallow : π.length < height) (fresh : ∀ ρ, r.dir ρ ≠ some x) :
    (r.addDir i π x bound parent shallow fresh).FullBut (i :: π) := by
  intro j ρ other present
  simp only [Radix.addDir, Function.update_of_ne other] at present
  by_cases above : j :: ρ = π
  · exact ⟨i, .inl (by simp [Radix.addDir, above])⟩
  · obtain ⟨k, below⟩ := full j ρ above present
    refine ⟨k, below.imp (fun dir => ?_) id⟩
    by_cases here : k :: j :: ρ = i :: π
    · simp [Radix.addDir, here]
    · simpa only [Radix.addDir, Function.update_of_ne here] using dir

theorem FullBut.setLeaf_some {r : Radix ν l fan height} {i : Nat} {π : List Nat} {w : l} (full : r.FullBut π)
    (bound : i < fan) (deep : π.length = height) (parent : r.dir π ≠ none) :
    (r.setLeaf i π (some w) bound deep parent).Full := by
  intro j ρ present
  by_cases above : j :: ρ = π
  · exact ⟨i, .inr (by simp [Radix.setLeaf, above])⟩
  · obtain ⟨k, below⟩ := full j ρ above present
    refine ⟨k, below.imp id (fun leaf => ?_)⟩
    have other : k :: j :: ρ ≠ i :: π := fun same => above (List.cons.inj same).2
    simpa only [Radix.setLeaf, Function.update_of_ne other] using leaf

theorem FullBut.setLeaf_none {r : Radix ν l fan height} {i : Nat} {π : List Nat} (full : r.FullBut π)
    (bound : i < fan) (deep : π.length = height) (parent : r.dir π ≠ none) :
    (r.setLeaf i π none bound deep parent).FullBut π := by
  intro j ρ above present
  obtain ⟨k, below⟩ := full j ρ above present
  refine ⟨k, below.imp id (fun leaf => ?_)⟩
  have other : k :: j :: ρ ≠ i :: π := fun same => above (List.cons.inj same).2
  simpa only [Radix.setLeaf, Function.update_of_ne other] using leaf

/-- When the directory that may be empty is cut off, its parent may be empty. -/
theorem FullBut.cut {r : Radix ν l fan height} {i : Nat} {π : List Nat} (full : r.FullBut (i :: π))
    (present : r.dir (i :: π) ≠ none) (empty : ∀ j, ¬ r.Taken (j :: i :: π)) : (r.cut i π).FullBut π := by
  intro j ρ above kept
  rw [cut_dir_empty empty] at kept
  have here : j :: ρ ≠ i :: π := fun same => by simp [same] at kept
  rw [Function.update_of_ne here] at kept
  obtain ⟨k, below⟩ := full j ρ here kept
  refine ⟨k, ?_⟩
  have other : k :: j :: ρ ≠ i :: π := fun same => above (List.cons.inj same).2
  rw [Taken, cut_dir_empty empty, cut_leaf_empty present empty, Function.update_of_ne other]
  exact below

/-- Without a subtree right below the root the tree is still full. -/
theorem Full.cut_root {r : Radix ν l fan height} (full : r.Full) (i : Nat) : (r.cut i []).Full := by
  intro j ρ present
  have outside : ¬ [i] <:+ j :: ρ := fun below => present (by simp [Radix.cut, below])
  obtain ⟨k, taken⟩ := full j ρ (by simpa [Radix.cut, outside] using present)
  have further : ¬ [i] <:+ k :: j :: ρ := by
    intro below
    rcases List.suffix_cons_iff.mp below with same | deeper
    · simp at same
    · exact outside deeper
  exact ⟨k, by simpa [Taken, Radix.cut, further] using taken⟩

theorem addDir_owns {r : Radix ν l fan height} {i : Nat} {π : List Nat} {x : ν} (bound : i < fan)
    (parent : r.dir π ≠ none) (shallow : π.length < height) (fresh : ∀ ρ, r.dir ρ ≠ some x)
    (vacant : r.dir (i :: π) = none) (d : ν) :
    (r.addDir i π x bound parent shallow fresh).Owns d ↔ d = x ∨ r.Owns d := by
  constructor
  · rintro ⟨ρ, found⟩
    by_cases here : ρ = i :: π
    · simp only [addDir, here, Function.update_self, Option.some.injEq] at found
      exact .inl found.symm
    · simp only [addDir, Function.update_of_ne here] at found
      exact .inr ⟨ρ, found⟩
  · rintro (rfl | ⟨ρ, found⟩)
    · exact ⟨i :: π, by simp [addDir]⟩
    · have other : ρ ≠ i :: π := by
        rintro rfl
        rw [vacant] at found
        cases found
      exact ⟨ρ, by simp only [addDir, Function.update_of_ne other, found]⟩

theorem cut_owns {r : Radix ν l fan height} {i : Nat} {π : List Nat} {c : ν} (child : r.dir (i :: π) = some c)
    (empty : ∀ j, ¬ r.Taken (j :: i :: π)) (d : ν) : (r.cut i π).Owns d ↔ d ≠ c ∧ r.Owns d := by
  rw [Owns, cut_dir_empty empty]
  constructor
  · rintro ⟨ρ, found⟩
    by_cases here : ρ = i :: π
    · simp [here] at found
    · rw [Function.update_of_ne here] at found
      refine ⟨?_, ρ, found⟩
      rintro rfl
      exact here (r.distinct _ _ _ found child)
  · rintro ⟨different, ρ, found⟩
    have other : ρ ≠ i :: π := by
      rintro rfl
      rw [child] at found
      exact different (Option.some.inj found).symm
    exact ⟨ρ, by rw [Function.update_of_ne other, found]⟩

/-- In a full tree without leaves only the root is left. -/
theorem Full.only_root {r : Radix ν l fan height} (full : r.Full) (bare : ∀ π, r.leaf π = none) :
    ∀ i π, r.dir (i :: π) = none := by
  have level : ∀ (n i : Nat) (π : List Nat), height ≤ n + π.length → r.dir (i :: π) = none := by
    intro n
    induction n with
    | zero =>
      intro i π deep
      exact dir_deep (by rw [List.length_cons]; omega)
    | succ n ih =>
      intro i π deep
      by_contra present
      obtain ⟨j, below⟩ := full i π present
      rcases below with dir | leaf
      · exact dir (ih j (i :: π) (by rw [List.length_cons]; omega))
      · exact leaf (bare _)
  exact fun i π => level height i π (by omega)

end Radix

end Xv6
