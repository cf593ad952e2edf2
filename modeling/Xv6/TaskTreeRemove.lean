import Xv6.TaskTree
import Mathlib.Data.List.Perm.Subperm

namespace Xv6.TaskSet

/-- A consistent process tree: for each process the ring of its children has those
with this parent and no others. Only idle and init may hang below themselves. -/
structure Consistent (s : TaskSet) (l : List Nat) (init : Nat) (children : Nat → List Nat) : Prop where
  lists : s.Lists l
  process : ∀ t ∈ l, (s.task t).tid = 0
  rooted : ∀ t ∈ l, (s.task t).pid ≠ pidIdle → (s.task t).pid ≠ pidInit → (s.task t).parent ∈ l ∧ (s.task t).parent ≠ t
  family : ∀ p ∈ l, Family s p (children p)
  exact : ∀ p ∈ l, ∀ t, t ∈ children p ↔ t ∈ l ∧ t ≠ p ∧ (s.task t).parent = p
  initproc : s.initproc = some init
  initListed : init ∈ l
  initPid : (s.task init).pid = pidInit

/-- After `remove_process` the other processes are a consistent tree, siblings are in
their old order, and init has the children of the process. -/
structure Removed (s' : TaskSet) (l : List Nat) (init proc : Nat) (children children' : Nat → List Nat) : Prop where
  consistent : Consistent s' (l.erase proc) init children'
  order : ∀ p ∈ l.erase proc, ((children p).erase proc).Sublist (children' p)
  adopted : ∀ t ∈ children proc, t ∈ children' init

/-- What `remove_process` does to the parents and the counters besides its decrement:
a process keeps its parent or gets init. -/
structure Upkeep (init : Nat) (s s' : TaskSet) : Prop where
  parent : ∀ t, (s'.task t).parent = (s.task t).parent ∨ (s'.task t).parent = init
  count : ∀ t, (s'.task t).numChild = (s.task t).numChild
  initproc : s'.initproc = s.initproc

namespace Upkeep

variable {init : Nat} {s s' s'' : TaskSet}

theorem refl (s : TaskSet) : Upkeep init s s := ⟨fun _ => .inl rfl, fun _ => rfl, rfl⟩

theorem trans (first : Upkeep init s s') (second : Upkeep init s' s'') : Upkeep init s s'' := by
  refine ⟨fun t => ?_, fun t => (second.count t).trans (first.count t),
    second.initproc.trans first.initproc⟩
  obtain kept | moved := second.parent t
  · rw [kept]
    exact first.parent t
  · exact .inr moved

theorem setTask {t : Nat} {v : Task} (parent : v.parent = (s.task t).parent ∨ v.parent = init)
    (count : v.numChild = (s.task t).numChild) : Upkeep init s (s.setTask t v) := by
  refine ⟨fun u => ?_, fun u => ?_, rfl⟩ <;> by_cases here : u = t
  · subst here
    simpa [TaskSet.setTask] using parent
  · exact .inl (by simp [TaskSet.setTask, here])
  · subst here
    simpa [TaskSet.setTask] using count
  · simp [TaskSet.setTask, here]

theorem numSibling (s : TaskSet) (t n : Nat) : Upkeep init s (s.setNumSibling t n) := setTask (.inl rfl) rfl
theorem firstChild (s : TaskSet) (t : Nat) (c : Option Nat) : Upkeep init s (s.setFirstChild t c) := setTask (.inl rfl) rfl
theorem give (s : TaskSet) (t : Nat) : Upkeep init s (s.setParent t init) := setTask (.inr rfl) rfl

theorem eachSibling {limit : TaskSet → Nat} {change : TaskSet → Nat → TaskSet}
    (body : ∀ s t, Upkeep init s (change s t)) {fuel i t t' : Nat}
    (done : TaskSet.eachSibling limit change fuel i t s = .ok (t', s')) : Upkeep init s s' := by
  obtain ⟨-, -, -, kept⟩ := eachSibling_inv (P := fun _ _ s₁ => Upkeep init s s₁)
    (fun _ t s₁ _ kept _ _ => kept.trans (body s₁ t)) (.refl s) done
  exact kept

theorem passFirstChild {proc parent : Nat} (done : s.passFirstChild proc parent = .ok s') : Upkeep init s s' := by
  rw [TaskSet.passFirstChild] at done
  split at done
  · split at done
    · cases done
      exact firstChild ..
    · obtain ⟨t, -, rest⟩ := Res.bind_eq_ok.mp done
      cases rest
      exact firstChild ..
  · cases done
    exact refl _

theorem giveChildren {proc : Nat} (done : s.giveChildren proc init = .ok s') : Upkeep init s s' := by
  simp only [TaskSet.giveChildren] at done
  split at done
  · cases done
    exact refl _
  · obtain ⟨⟨child, s₁⟩, loop, rest⟩ := Res.bind_eq_ok.mp done
    have looped : Upkeep init s s₁ := eachSibling (fun s t => (give s t).trans (numSibling ..)) loop
    split at rest
    · cases rest
      exact looped.trans (firstChild ..)
    · obtain ⟨⟨ichild, s₂⟩, loop₂, rest₂⟩ := Res.bind_eq_ok.mp rest
      cases rest₂
      have looped₂ : Upkeep init s₁ s₂ := eachSibling (fun s t => numSibling s t _) loop₂
      have both := looped.trans looped₂
      exact ⟨both.parent, both.count, both.initproc⟩

end Upkeep

section Remove

variable {s s' : TaskSet} {l : List Nat} {init proc : Nat} {children children' : Nat → List Nat}

/-- The stages of a call of `remove_process` that returns. -/
theorem removeProcess_stages (initproc : s.initproc = some init) (done : s.removeProcess proc = .ok s') :
    ∃ s₁ s₂ s₃ t, (s.delNodes proc).passFirstChild proc (s.task proc).parent = .ok s₁ ∧
      eachSibling (numSiblingOf proc) decSibling (intMax + 1) 0 proc
        (s₁.setNumChild (s.task proc).parent ((s₁.task (s.task proc).parent).numChild + 2 ^ 32 - 1)) = .ok (t, s₂) ∧
      ({ s₂ with link := s₂.link.delInit (.sib proc) } : TaskSet).giveChildren proc init = .ok s₃ ∧
      s' = { s₃ with procNum := s₃.procNum - 1 } := by
  simp only [removeProcess] at done
  split at done
  · cases done
  · split at done
    · cases done
    · obtain ⟨s₁, passed, rest⟩ := Res.bind_eq_ok.mp done
      obtain ⟨⟨t, s₂⟩, loop, rest₂⟩ := Res.bind_eq_ok.mp rest
      have passedUpkeep : Upkeep init (s.delNodes proc) s₁ := .passFirstChild passed
      have looped : Upkeep init _ s₂ := .eachSibling (fun s t => .numSibling s t _) loop
      have here : s₂.initproc = some init := looped.initproc.trans (passedUpkeep.initproc.trans initproc)
      split at rest₂
      · cases rest₂
      · rename_i init' atInit
        obtain rfl : init' = init := Option.some.inj (atInit.symm.trans here)
        obtain ⟨s₃, given, rest₃⟩ := Res.bind_eq_ok.mp rest₂
        cases rest₃
        exact ⟨s₁, s₂, s₃, t, passed, loop, given, rfl⟩

/-- The only counter of children that changes is the one of the parent. -/
theorem removeProcess_counts (initproc : s.initproc = some init) (done : s.removeProcess proc = .ok s') (t : Nat) :
    ((s'.task t).parent = (s.task t).parent ∨ (s'.task t).parent = init) ∧
      (s'.task t).numChild =
        if t = (s.task proc).parent then ((s.task t).numChild + 2 ^ 32 - 1) % 2 ^ 32 else (s.task t).numChild := by
  obtain ⟨s₁, s₂, s₃, u, passed, loop, given, rfl⟩ := removeProcess_stages initproc done
  have first : Upkeep init (s.delNodes proc) s₁ := .passFirstChild passed
  have second : Upkeep init _ s₂ := .eachSibling (fun s t => .numSibling s t _) loop
  have third := Upkeep.giveChildren given
  have parents := (second.trans ⟨third.parent, third.count, third.initproc⟩).parent t
  have counts := (third.count t).trans (second.count t)
  refine ⟨?_, ?_⟩
  · obtain kept | moved := parents
    · rw [kept, setNumChild]
      by_cases here : t = (s.task proc).parent
      · rw [here, setTask_self]
        dsimp only
        exact first.parent _
      · rw [setTask_of_ne _ _ here]
        exact first.parent t
    · exact .inr moved
  · rw [counts, setNumChild]
    by_cases here : t = (s.task proc).parent
    · rw [if_pos here, here, setTask_self]
      exact congrArg (fun n => (n + 2 ^ 32 - 1) % 2 ^ 32) (first.count _)
    · rw [if_neg here, setTask_of_ne _ _ here]
      exact first.count t

/-- The loop of `remove_process` counts itself down at once and stops before the last sibling. -/
theorem countDown_last {t fuel last : Nat} {r : List Nat} (ring : s.link.IsRing (.sib proc) (r.map .sib))
    (word : r.length + 1 < 2 ^ 32) (self : (s.task proc).numSibling = r.length + 1)
    (atLast : r.getLast? = some last) (lastCount : (s.task last).numSibling = r.length + 1)
    (done : eachSibling (numSiblingOf proc) decSibling fuel 0 proc s = .ok (t, s')) :
    (s'.task last).numSibling = r.length + 1 := by
  have nodup : (proc :: r).Nodup := by
    have distinct := ring.2
    rw [← List.map_cons] at distinct
    exact distinct.of_map
  have some : 0 < r.length := List.length_pos_of_mem (List.mem_of_getLast? atLast)
  have place : last = (proc :: r)[r.length] := by
    rw [List.getLast?_eq_getElem?, List.getElem?_eq_some_iff] at atLast
    obtain ⟨bound, eq⟩ := atLast
    rw [← eq, List.getElem_cons, dif_neg (by omega)]
  have kept := eachSibling_inv
    (P := fun i t s₁ => s₁.link = s.link ∧ i ≤ r.length ∧
      t = (proc :: r).get ⟨i % (r.length + 1), Nat.mod_lt _ (Nat.succ_pos _)⟩ ∧
      (s₁.task proc).numSibling = (if i = 0 then r.length + 1 else r.length) ∧ (s₁.task last).numSibling = r.length + 1)
    (fun i t s₁ u inv below next => ?_) ⟨rfl, Nat.zero_le _, by simp, by simpa using self, lastCount⟩ done
  · obtain ⟨-, -, -, -, -, -, -, lastKept⟩ := kept
    exact lastKept
  · obtain ⟨link, small, here, count, lastCount⟩ := inv
    have ring₁ : (decSibling s₁ t).link.IsRing (.sib proc) (r.map .sib) := by
      rw [show (decSibling s₁ t).link = s.link from link]
      exact ring
    have early : i < r.length := by
      rw [numSiblingOf, count] at below
      split at below <;> omega
    have bound : i < (proc :: r).length := early.trans (Nat.lt_succ_self _)
    have here' : t = (proc :: r)[i] := by simpa [Nat.mod_eq_of_lt (show i < r.length + 1 from bound)] using here
    have notLast : t ≠ last := by
      rw [here', place]
      exact fun same => absurd (nodup.getElem_inj_iff.mp same) (by omega)
    refine ⟨link, early, nextSibTask_ring ring₁ (here ▸ next), ?_, ?_⟩
    · by_cases start : i = 0
      · have first : t = proc := by simp [here', start]
        rw [if_pos start] at count
        rw [first, decSibling, setNumSibling, setTask_self, count, if_neg (Nat.succ_ne_zero i)]
        show (r.length + 1 + 2 ^ 32 - 1) % 2 ^ 32 = r.length
        omega
      · have notFirst : t ≠ proc := by
          rw [here']
          exact fun same => absurd (nodup.getElem_inj_iff.mp (same.trans (show proc = (proc :: r)[0] from rfl))) start
        rw [if_neg start] at count
        rw [decSibling, setNumSibling, setTask_of_ne _ _ notFirst.symm, count, if_neg (Nat.succ_ne_zero i)]
    · rw [decSibling, setNumSibling, setTask_of_ne _ _ notLast.symm, lastCount]

namespace Consistent

theorem nodup (tree : Consistent s l init children) : l.Nodup := (List.nodup_cons.mp tree.lists.procs.2).2.of_map

/-- A process other than init and idle is among the children of its parent. -/
theorem child (tree : Consistent s l init children) (member : proc ∈ l) (notIdle : (s.task proc).pid ≠ pidIdle)
    (notInit : (s.task proc).pid ≠ pidInit) : proc ∈ children (s.task proc).parent := by
  obtain ⟨parentMember, other⟩ := tree.rooted proc member notIdle notInit
  exact (tree.exact _ parentMember proc).mpr ⟨member, other.symm, rfl⟩

end Consistent

/-- The children of a process that has some are not counted by init. -/
theorem not_removed_of_children (tree : Consistent s l init children) (member : proc ∈ l)
    (notIdle : (s.task proc).pid ≠ pidIdle) (notInit : (s.task proc).pid ≠ pidInit)
    (done : s.removeProcess proc = .ok s') (removed : Removed s' l init proc children children') : children proc = [] := by
  have other : init ≠ proc := fun same => notInit (same ▸ tree.initPid)
  have initLeft : init ∈ l.erase proc := (List.mem_erase_of_ne other).mpr tree.initListed
  have mine := tree.exact proc member
  have theirs := tree.exact init tree.initListed
  have distinct : ((children init).erase proc ++ children proc).Nodup := by
    refine List.Nodup.append ((tree.family init tree.initListed).nodup.erase _) (tree.family proc member).nodup ?_
    intro t first second
    exact other ((((theirs t).mp (List.mem_of_mem_erase first)).2.2).symm.trans ((mine t).mp second).2.2)
  have subset : (children init).erase proc ++ children proc ⊆ children' init := by
    intro t inside
    obtain kept | given := List.mem_append.mp inside
    · exact (removed.order init initLeft).subset kept
    · exact removed.adopted t given
  have longer := (List.subperm_of_subset distinct subset).length_le
  have before := (tree.family init tree.initListed).count
  have after := (removed.consistent.family init initLeft).count
  rw [(removeProcess_counts tree.initproc done init).2, before] at after
  have word := (tree.family init tree.initListed).word
  refine List.eq_nil_iff_length_eq_zero.mpr ?_
  rw [List.length_append] at longer
  by_cases below : init = (s.task proc).parent
  · have listed : proc ∈ children init := below ▸ tree.child member notIdle notInit
    have some := List.length_pos_of_mem listed
    rw [if_pos below] at after
    rw [List.length_erase_of_mem listed] at longer
    omega
  · have unlisted : proc ∉ children init := fun inside => below ((theirs proc).mp inside).2.2.symm
    rw [if_neg below] at after
    rw [List.erase_of_not_mem unlisted] at longer
    omega

/-- The ring of the children entered at one of them. -/
theorem Family.ring_at {p : Nat} {c xs ys : List Nat} {t : Nat} (family : Family s p c) (place : c = xs ++ t :: ys) :
    s.link.IsRing (.sib t) ((ys ++ xs).map .sib) := by
  cases xs with
  | nil =>
    rw [List.append_nil]
    exact family.ring t ys place
  | cons f xs =>
    have ring := family.ring f (xs ++ t :: ys) place
    rw [List.map_append, List.map_cons, Links.isRing_rotate] at ring
    rwa [List.map_append, List.map_cons]

theorem passFirstChild_frame {parent : Nat} (done : s.passFirstChild proc parent = .ok s') :
    s'.link = s.link ∧ (∀ t, (s'.task t).numSibling = (s.task t).numSibling) ∧
      ∀ t, t ≠ parent → (s'.task t).firstChild = (s.task t).firstChild := by
  have set : ∀ c, (s.setFirstChild parent c).link = s.link ∧
      (∀ t, ((s.setFirstChild parent c).task t).numSibling = (s.task t).numSibling) ∧
        ∀ t, t ≠ parent → ((s.setFirstChild parent c).task t).firstChild = (s.task t).firstChild := by
    refine fun c => ⟨rfl, fun t => ?_, fun t other => by rw [setFirstChild, setTask_of_ne _ _ other]⟩
    by_cases here : t = parent
    · rw [here, setFirstChild, setTask_self]
    · rw [setFirstChild, setTask_of_ne _ _ here]
  rw [passFirstChild] at done
  split at done
  · split at done
    · cases done
      exact set none
    · obtain ⟨u, -, rest⟩ := Res.bind_eq_ok.mp done
      cases rest
      exact set (some u)
  · cases done
    exact ⟨rfl, fun _ => rfl, fun _ _ => rfl⟩

theorem countDown_firstChild {fuel i t t' : Nat}
    (done : eachSibling (numSiblingOf proc) decSibling fuel i t s = .ok (t', s')) (u : Nat) :
    (s'.task u).firstChild = (s.task u).firstChild := by
  obtain ⟨-, -, -, kept⟩ := eachSibling_inv (P := fun _ _ s₁ => (s₁.task u).firstChild = (s.task u).firstChild)
    (fun i t s₁ v kept _ _ => by
      rw [← kept, decSibling, setNumSibling]
      by_cases here : u = t
      · rw [here, setTask_self]
      · rw [setTask_of_ne _ _ here]) rfl done
  exact kept

/-- A process with siblings leaves the count of the one before it. -/
theorem not_removed_of_siblings (tree : Consistent s l init children) (member : proc ∈ l)
    (notIdle : (s.task proc).pid ≠ pidIdle) (notInit : (s.task proc).pid ≠ pidInit) (noChildren : children proc = [])
    (done : s.removeProcess proc = .ok s') (removed : Removed s' l init proc children children') :
    children (s.task proc).parent = [proc] := by
  obtain ⟨parentMember, other⟩ := tree.rooted proc member notIdle notInit
  obtain ⟨us, vs, listed⟩ := List.append_of_mem member
  obtain ⟨xs, ys, place⟩ := List.append_of_mem (tree.child member notIdle notInit)
  have family := tree.family _ parentMember
  have length : (children (s.task proc).parent).length = (ys ++ xs).length + 1 := by
    simp only [place, List.length_append, List.length_cons]
    omega
  cases atLast : (ys ++ xs).getLast? with
  | none =>
    obtain ⟨rfl, rfl⟩ := List.append_eq_nil_iff.mp (List.getLast?_eq_none_iff.mp atLast)
    exact place
  | some last =>
    exfalso
    obtain ⟨s₁, s₂, s₃, t, passed, loop, given, rfl⟩ := removeProcess_stages tree.initproc done
    have lastAside : last ∈ ys ++ xs := List.mem_of_getLast? atLast
    have lastSibling : last ∈ (children (s.task proc).parent).erase proc := by
      have nodup := family.nodup
      rw [place] at nodup ⊢
      have gone := (List.nodup_middle.mp nodup).notMem
      rw [List.erase_append_right _ (fun inside => gone (List.mem_append_left _ inside)), List.erase_cons_head]
      exact List.mem_append.mpr (List.mem_append.mp lastAside).symm
    obtain ⟨sameLink, sameSibling, sameFirst⟩ := passFirstChild_frame passed
    have siblings : ∀ u, u ∈ children (s.task proc).parent →
        ((s₁.setNumChild (s.task proc).parent ((s₁.task (s.task proc).parent).numChild + 2 ^ 32 - 1)).task u).numSibling =
          (ys ++ xs).length + 1 := by
      intro u inside
      rw [← length, ← family.siblings u inside, ← show (s₁.task u).numSibling = (s.task u).numSibling from sameSibling u,
        setNumChild]
      by_cases here : u = (s.task proc).parent
      · rw [here, setTask_self]
      · rw [setTask_of_ne _ _ here]
    have ring : (s₁.setNumChild (s.task proc).parent ((s₁.task (s.task proc).parent).numChild + 2 ^ 32 - 1)).link.IsRing
        (.sib proc) ((ys ++ xs).map .sib) := by
      rw [show (s₁.setNumChild _ _).link = (s.delNodes proc).link from sameLink]
      refine (family.ring_at place).congr (fun y inside => ?_)
      rw [← List.map_cons] at inside
      obtain ⟨u, -, rfl⟩ := List.mem_map.mp inside
      exact (listed ▸ tree.lists).delNodes_sib u
    have counted := countDown_last ring (length ▸ family.word) (siblings proc (tree.child member notIdle notInit)) atLast
      (siblings last (List.mem_of_mem_erase lastSibling)) loop
    have noFirst : (s₂.task proc).firstChild = none := by
      rw [countDown_firstChild loop, setNumChild, setTask_of_ne _ _ other.symm, sameFirst proc other.symm]
      show (s.task proc).firstChild = none
      rw [(tree.family proc member).first, noChildren]
      rfl
    have parentLeft : (s.task proc).parent ∈ l.erase proc := (List.mem_erase_of_ne other).mpr parentMember
    have after := removed.consistent.family _ parentLeft
    have lastAfter := after.siblings last ((removed.order _ parentLeft).subset lastSibling)
    have count := after.count
    rw [(removeProcess_counts tree.initproc done _).2, if_pos rfl, family.count] at count
    rw [giveChildren, show ((_ : TaskSet).task proc).firstChild = none from noFirst] at given
    cases given
    have same : (s₂.task last).numSibling = (children' (s.task proc).parent).length := lastAfter
    have word := family.word
    omega

/-- The loop of `remove_process` on a ring of one. -/
theorem countDown_alone (fuel : Nat) (alone : s.link.next (.sib proc) = .sib proc) (one : (s.task proc).numSibling = 1) :
    eachSibling (numSiblingOf proc) decSibling (fuel + 2) 0 proc s = .ok (proc, s.setNumSibling proc 0) := by
  have zero : s.decSibling proc = s.setNumSibling proc 0 := by
    rw [decSibling, one]
    rfl
  have next : (s.setNumSibling proc 0).nextSibTask proc = .ok proc := by
    rw [nextSibTask, show (s.setNumSibling proc 0).link = s.link from rfl, alone]
  have stop : ¬ 0 + 1 < numSiblingOf proc (s.setNumSibling proc 0) := by
    rw [numSiblingOf, setNumSibling, setTask_self]
    exact Nat.not_lt_zero _
  have start : 0 < numSiblingOf proc s := by
    rw [numSiblingOf, one]
    decide
  rw [eachSibling, if_pos start, zero]
  dsimp only
  rw [next, Res.ok_bind, eachSibling, if_neg stop]

/-- The state after the removal of an only child without children. -/
def dropOnly (s : TaskSet) (proc : Nat) : TaskSet :=
  let s₁ := (((s.delNodes proc).setFirstChild (s.task proc).parent none).setNumChild (s.task proc).parent 0).setNumSibling proc 0
  { s₁ with link := s₁.link.delInit (.sib proc), procNum := s₁.procNum - 1 }

theorem removeProcess_only (tree : Consistent s l init children) (member : proc ∈ l)
    (notIdle : (s.task proc).pid ≠ pidIdle) (notInit : (s.task proc).pid ≠ pidInit)
    (only : children (s.task proc).parent = [proc]) (noChildren : children proc = []) :
    s.removeProcess proc = .ok (s.dropOnly proc) := by
  obtain ⟨parentMember, other⟩ := tree.rooted proc member notIdle notInit
  obtain ⟨us, vs, listed⟩ := List.append_of_mem member
  have family := tree.family _ parentMember
  have same := (listed ▸ tree.lists).delNodes_sib proc
  have alone := family.ring proc [] only
  have first : ((s.delNodes proc).task (s.task proc).parent).firstChild = some proc := by
    show (s.task (s.task proc).parent).firstChild = some proc
    rw [family.first, only]
    rfl
  have loose : (s.delNodes proc).link.next (.sib proc) = .sib proc ∧ (s.delNodes proc).link.prev (.sib proc) = .sib proc := by
    rw [same.1, same.2]
    exact ⟨alone.next_head, alone.prev_head⟩
  have count : (s.task (s.task proc).parent).numChild = 1 := by rw [family.count, only]; rfl
  have one : (s.task proc).numSibling = 1 := by
    have siblings := family.siblings proc (by simp [only])
    rw [siblings, only]
    rfl
  have passed : (s.delNodes proc).passFirstChild proc (s.task proc).parent =
      .ok ((s.delNodes proc).setFirstChild (s.task proc).parent none) := by
    rw [passFirstChild, if_pos first, if_pos loose]
  have decremented : ((s.delNodes proc).setFirstChild (s.task proc).parent none).setNumChild (s.task proc).parent
      ((((s.delNodes proc).setFirstChild (s.task proc).parent none).task (s.task proc).parent).numChild + 2 ^ 32 - 1) =
      ((s.delNodes proc).setFirstChild (s.task proc).parent none).setNumChild (s.task proc).parent 0 := by
    have before : (((s.delNodes proc).setFirstChild (s.task proc).parent none).task (s.task proc).parent).numChild = 1 := by
      rw [setFirstChild, setTask_self]
      exact count
    rw [before]
    rfl
  have sibling : ((((s.delNodes proc).setFirstChild (s.task proc).parent none).setNumChild (s.task proc).parent
      0).task proc).numSibling = 1 := by
    rw [setNumChild, setTask_of_ne _ _ other.symm, setFirstChild, setTask_of_ne _ _ other.symm]
    exact one
  have lonely : (((s.delNodes proc).setFirstChild (s.task proc).parent none).setNumChild (s.task proc).parent
      0).link.next (.sib proc) = .sib proc := loose.1
  have loop := countDown_alone (intMax - 1) lonely sibling
  have noFirst : (((((s.delNodes proc).setFirstChild (s.task proc).parent none).setNumChild (s.task proc).parent
      0).setNumSibling proc 0).task proc).firstChild = none := by
    rw [setNumSibling, setTask_self, setNumChild, setTask_of_ne _ _ other.symm, setFirstChild, setTask_of_ne _ _ other.symm]
    show (s.task proc).firstChild = none
    rw [(tree.family proc member).first, noChildren]
    rfl
  rw [removeProcess, if_neg (by rw [tree.process proc member]; decide), if_neg (by simp [notIdle, notInit])]
  simp only [show ((s.delNodes proc).task proc).parent = (s.task proc).parent from rfl, passed, Res.ok_bind, decremented]
  rw [show intMax + 1 = intMax - 1 + 2 from rfl, loop, Res.ok_bind]
  have initproc : ((((s.delNodes proc).setFirstChild (s.task proc).parent none).setNumChild (s.task proc).parent
      0).setNumSibling proc 0).initproc = some init := tree.initproc
  simp only [dropOnly, initproc, giveChildren, noFirst, Res.ok_bind]

theorem dropOnly_of_ne {t : Nat} (notProc : t ≠ proc) (notParent : t ≠ (s.task proc).parent) :
    (s.dropOnly proc).task t = s.task t := by
  simp only [dropOnly, setNumSibling, setNumChild, setFirstChild, setTask_of_ne _ _ notProc, setTask_of_ne _ _ notParent]
  rfl

theorem dropOnly_parent (other : (s.task proc).parent ≠ proc) : (s.dropOnly proc).task (s.task proc).parent =
    { s.task (s.task proc).parent with firstChild := none, numChild := 0 } := by
  simp only [dropOnly, setNumSibling, setNumChild, setFirstChild, setTask_of_ne _ _ other, setTask_self]
  rfl

/-- All that stays of the other processes. -/
theorem dropOnly_fields (other : (s.task proc).parent ≠ proc) {t : Nat} (notProc : t ≠ proc) :
    ((s.dropOnly proc).task t).tid = (s.task t).tid ∧ ((s.dropOnly proc).task t).pid = (s.task t).pid ∧
      ((s.dropOnly proc).task t).parent = (s.task t).parent ∧
        ((s.dropOnly proc).task t).numSibling = (s.task t).numSibling := by
  by_cases here : t = (s.task proc).parent
  · rw [here, dropOnly_parent other]
    exact ⟨rfl, rfl, rfl, rfl⟩
  · rw [dropOnly_of_ne notProc here]
    exact ⟨rfl, rfl, rfl, rfl⟩

theorem dropOnly_sib {us vs : List Nat} (lists : s.Lists (us ++ proc :: vs)) (alone : s.link.IsRing (.sib proc) [])
    {t : Nat} (notProc : t ≠ proc) : s.link.Same (s.dropOnly proc).link (.sib t) := by
  have ring : (s.delNodes proc).link.IsRing (.sib proc) [] := alone.congr (fun y inside => by
    obtain rfl : y = .sib proc := by simpa using inside
    exact lists.delNodes_sib proc)
  exact (lists.delNodes_sib t).trans (Links.delInit_same ring (by simp) (by simpa using notProc))

/-- A process is among the children of no other one than its parent. -/
theorem Consistent.not_child (tree : Consistent s l init children) {p : Nat} (here : p ∈ l)
    (notParent : p ≠ (s.task proc).parent) : proc ∉ children p := by
  intro child
  exact notParent ((tree.exact p here proc).mp child).2.2.symm

theorem dropOnly_rooted (tree : Consistent s l init children) (member : proc ∈ l) (noChildren : children proc = [])
    {t : Nat} (left : t ∈ l.erase proc) (notIdle : (s.task t).pid ≠ pidIdle)
    (notInit : (s.task t).pid ≠ pidInit) : (s.task t).parent ∈ l.erase proc ∧ (s.task t).parent ≠ t := by
  obtain ⟨notProc, listed⟩ := tree.nodup.mem_erase_iff.mp left
  obtain ⟨parentListed, notSelf⟩ := tree.rooted t listed notIdle notInit
  refine ⟨tree.nodup.mem_erase_iff.mpr ⟨fun below => ?_, parentListed⟩, notSelf⟩
  have child := (tree.exact proc member t).mpr ⟨listed, notProc, below⟩
  rw [noChildren] at child
  exact absurd child List.not_mem_nil

/-- The parent is left without children, and the other families are as before. -/
theorem dropOnly_family (tree : Consistent s l init children) (member : proc ∈ l) (other : (s.task proc).parent ≠ proc)
    (alone : s.link.IsRing (.sib proc) []) {p : Nat} (listed : p ∈ l) (notProc : p ≠ proc) :
    Family (s.dropOnly proc) p (Function.update children (s.task proc).parent [] p) := by
  obtain ⟨us, vs, rfl⟩ := List.append_of_mem member
  by_cases here : p = (s.task proc).parent
  · subst here
    rw [Function.update_self]
    refine ⟨?_, by simp, by simp, ?_, by decide⟩ <;> rw [dropOnly_parent other] <;> rfl
  · rw [Function.update_of_ne here]
    have family := tree.family p listed
    have notChild := tree.not_child listed here
    refine ⟨?_, fun f r ring => ?_, fun t child => ?_, ?_, family.word⟩
    · rw [dropOnly_of_ne notProc here]
      exact family.first
    · refine (family.ring f r ring).congr (fun y inRing => ?_)
      rw [← List.map_cons, ← ring] at inRing
      obtain ⟨t, child, rfl⟩ := List.mem_map.mp inRing
      exact dropOnly_sib tree.lists alone (fun same => notChild (same ▸ child))
    · rw [(dropOnly_fields other (fun same => notChild (same ▸ child))).2.2.2]
      exact family.siblings t child
    · rw [dropOnly_of_ne notProc here]
      exact family.count

theorem dropOnly_exact (tree : Consistent s l init children) (other : (s.task proc).parent ≠ proc)
    (only : children (s.task proc).parent = [proc]) {p : Nat} (listed : p ∈ l) (t : Nat) :
    t ∈ Function.update children (s.task proc).parent [] p ↔
      t ∈ l.erase proc ∧ t ≠ p ∧ ((s.dropOnly proc).task t).parent = p := by
  have before := tree.exact p listed t
  by_cases here : p = (s.task proc).parent
  · subst here
    rw [only, List.mem_singleton] at before
    rw [Function.update_self]
    refine ⟨fun child => absurd child List.not_mem_nil, fun ⟨left, notParent, below⟩ => ?_⟩
    obtain ⟨tOther, tListed⟩ := tree.nodup.mem_erase_iff.mp left
    exact absurd (before.mpr ⟨tListed, notParent, (dropOnly_fields other tOther).2.2.1 ▸ below⟩) tOther
  · rw [Function.update_of_ne here, before]
    refine ⟨fun ⟨tListed, notParent, below⟩ => ?_, fun ⟨left, notParent, below⟩ => ?_⟩
    · have tOther : t ≠ proc := fun same => here (below ▸ same ▸ rfl)
      exact ⟨tree.nodup.mem_erase_iff.mpr ⟨tOther, tListed⟩, notParent, (dropOnly_fields other tOther).2.2.1.trans below⟩
    · obtain ⟨tOther, tListed⟩ := tree.nodup.mem_erase_iff.mp left
      exact ⟨tListed, notParent, (dropOnly_fields other tOther).2.2.1.symm.trans below⟩

theorem removed_only (tree : Consistent s l init children) (member : proc ∈ l)
    (notIdle : (s.task proc).pid ≠ pidIdle) (notInit : (s.task proc).pid ≠ pidInit)
    (only : children (s.task proc).parent = [proc]) (noChildren : children proc = []) :
    Removed (s.dropOnly proc) l init proc children (Function.update children (s.task proc).parent []) := by
  obtain ⟨parentMember, other⟩ := tree.rooted proc member notIdle notInit
  have inside : ∀ t, t ∈ l.erase proc ↔ t ≠ proc ∧ t ∈ l := fun t => tree.nodup.mem_erase_iff
  have fields := fun t (notProc : t ≠ proc) => dropOnly_fields other notProc
  have alone := (tree.family _ parentMember).ring proc [] only
  have initOther : init ≠ proc := fun same => notInit (same ▸ tree.initPid)
  refine ⟨⟨?_, ?_, ?_, ?_, ?_, tree.initproc, (inside init).mpr ⟨initOther, tree.initListed⟩, ?_⟩, ?_, ?_⟩
  · obtain ⟨us, vs, listed⟩ := List.append_of_mem member
    have nodup := tree.nodup
    rw [listed] at nodup
    have gone := (List.nodup_middle.mp nodup).notMem
    have erased : l.erase proc = us ++ vs := by
      rw [listed, List.erase_append_right _ (fun inside => gone (List.mem_append_left _ inside)), List.erase_cons_head]
    rw [erased]
    exact ((listed ▸ tree.lists).removeProcess (removeProcess_only tree member notIdle notInit only noChildren)).1
  · intro t left
    obtain ⟨notProc, listed⟩ := (inside t).mp left
    rw [(fields t notProc).1]
    exact tree.process t listed
  · intro t left notIdleHere notInitHere
    obtain ⟨-, pid, parent, -⟩ := fields t ((inside t).mp left).1
    rw [pid] at notIdleHere notInitHere
    rw [parent]
    exact dropOnly_rooted tree member noChildren left notIdleHere notInitHere
  · intro p left
    obtain ⟨notProc, listed⟩ := (inside p).mp left
    exact dropOnly_family tree member other alone listed notProc
  · intro p left t
    exact dropOnly_exact tree other only ((inside p).mp left).2 t
  · rw [(fields init initOther).2.1]
    exact tree.initPid
  · intro p left
    by_cases here : p = (s.task proc).parent
    · subst here
      rw [only, Function.update_self, List.erase_cons_head]
    · rw [Function.update_of_ne here, List.erase_of_not_mem (tree.not_child ((inside p).mp left).2 here)]
  · intro t child
    rw [noChildren] at child
    exact absurd child List.not_mem_nil

end Remove

/-- `remove_process` keeps the tree consistent exactly for an only child without children. -/
theorem removeProcess_removed_iff {s : TaskSet} {l : List Nat} {init proc : Nat} {children : Nat → List Nat}
    (tree : Consistent s l init children) (member : proc ∈ l) (notIdle : (s.task proc).pid ≠ pidIdle)
    (notInit : (s.task proc).pid ≠ pidInit) :
    (∃ s' children', s.removeProcess proc = .ok s' ∧ Removed s' l init proc children children') ↔
      children (s.task proc).parent = [proc] ∧ children proc = [] := by
  constructor
  · rintro ⟨s', children', done, removed⟩
    have noChildren := not_removed_of_children tree member notIdle notInit done removed
    exact ⟨not_removed_of_siblings tree member notIdle notInit noChildren done removed, noChildren⟩
  · rintro ⟨only, noChildren⟩
    exact ⟨_, _, removeProcess_only tree member notIdle notInit only noChildren,
      removed_only tree member notIdle notInit only noChildren⟩

/-- Init, its child 8 and the child 9 of it. -/
def threeTasks (t : Nat) : Task :=
  if t = 0 then ⟨0, 1, 0, some 8, 1, 0⟩ else if t = 8 then ⟨0, 8, 0, some 9, 1, 1⟩ else ⟨0, 9, 8, none, 0, 1⟩

def threeProcesses : TaskSet := listed threeTasks [0, 8, 9]

def threeChildren (t : Nat) : List Nat := if t = 0 then [8] else if t = 8 then [9] else []

theorem threeProcesses_consistent : Consistent threeProcesses [0, 8, 9] 0 threeChildren := by
  obtain ⟨tasks, init, lists, alone⟩ := listed_spec threeTasks [0, 8, 9] (by simp)
  have ring : ∀ t c f r, threeChildren t = c → c = f :: r → threeProcesses.link.IsRing (.sib f) (r.map .sib) := by
    intro t c f r here split
    obtain rfl : r = [] := by
      rw [← here, threeChildren] at split
      split_ifs at split <;> simp_all
    exact alone f
  refine ⟨lists, by decide, by decide, fun p member => ⟨?_, fun f r => ring p _ f r rfl, ?_, ?_, ?_⟩, ?_, init, by simp, rfl⟩
  · revert p
    decide
  · revert p
    decide
  · revert p
    decide
  · revert p
    decide
  · intro p member t
    have parent : (threeProcesses.task t).parent = if t = 0 then 0 else if t = 8 then 0 else 8 := by
      rw [show threeProcesses.task = threeTasks from tasks, threeTasks]
      split_ifs <;> rfl
    rw [parent]
    simp only [List.mem_cons, List.not_mem_nil, or_false] at member ⊢
    obtain rfl | rfl | rfl := member <;> by_cases zero : t = 0 <;> by_cases eight : t = 8 <;>
      simp [threeChildren, zero, eight]

/-- The process 9 is an only child without children. -/
theorem removeProcess_leaf : ∃ s' children', threeProcesses.removeProcess 9 = .ok s' ∧
    Removed s' [0, 8, 9] 0 9 threeChildren children' :=
  (removeProcess_removed_iff threeProcesses_consistent (by simp) (by decide) (by decide)).mpr ⟨rfl, rfl⟩

/-- Init gets the process 9, and still counts no child. -/
theorem removeProcess_middle : ¬ ∀ (s : TaskSet) (l : List Nat) (init proc : Nat) (children : Nat → List Nat),
    Consistent s l init children → proc ∈ l → (s.task proc).pid ≠ pidIdle → (s.task proc).pid ≠ pidInit →
    ∃ s' children', s.removeProcess proc = .ok s' ∧ Removed s' l init proc children children' := by
  intro always
  obtain ⟨s', children', done, removed⟩ :=
    always _ _ _ 8 _ threeProcesses_consistent (by simp) (by decide) (by decide)
  have lost := not_removed_of_children threeProcesses_consistent (by simp) (by decide) (by decide) done removed
  exact absurd lost (by decide)

end Xv6.TaskSet
