import Xv6.TaskListRuns
import Mathlib.Data.List.Induction

namespace Xv6.TaskSet

theorem setTask_self (s : TaskSet) (t : Nat) (v : Task) : (s.setTask t v).task t = v := Function.update_self ..

theorem setTask_of_ne (s : TaskSet) {t u : Nat} (v : Task) (other : u ≠ t) : (s.setTask t v).task u = s.task u :=
  Function.update_of_ne other ..

/-- A loop over the siblings keeps an invariant up to its limit, and its counter is an int. -/
theorem eachSibling_inv {limit : TaskSet → Nat} {change : TaskSet → Nat → TaskSet} {P : Nat → Nat → TaskSet → Prop}
    (step : ∀ i t s u, P i t s → i < limit s → (change s t).nextSibTask t = .ok u → P (i + 1) u (change s t))
    {fuel i t t' : Nat} {s s' : TaskSet} (start : P i t s) (done : eachSibling limit change fuel i t s = .ok (t', s')) :
    ∃ i', i' < i + fuel ∧ limit s' ≤ i' ∧ P i' t' s' := by
  induction fuel generalizing i t s with
  | zero => cases done
  | succ fuel ih =>
    rw [eachSibling] at done
    split at done
    · rename_i below
      obtain ⟨u, next, rest⟩ := Res.bind_eq_ok.mp done
      obtain ⟨i', small, atLimit, kept⟩ := ih (step i t s u start below next) rest
      exact ⟨i', by omega, atLimit, kept⟩
    · rename_i reached
      cases done
      exact ⟨i, by omega, by omega, start⟩

/-- The children of a process: the ring headed by `first_child`, each with the length
of the ring in `num_sibling`, which is also the `num_child` of the process. -/
structure Family (s : TaskSet) (p : Nat) (children : List Nat) : Prop where
  first : (s.task p).firstChild = children.head?
  ring : ∀ f r, children = f :: r → s.link.IsRing (.sib f) (r.map .sib)
  siblings : ∀ t ∈ children, (s.task t).numSibling = children.length
  count : (s.task p).numChild = children.length
  word : children.length < 2 ^ 32

theorem Family.nodup {s : TaskSet} {p : Nat} {children : List Nat} (family : Family s p children) : children.Nodup := by
  cases children with
  | nil => exact List.nodup_nil
  | cons f r =>
    have ring := (family.ring f r rfl).2
    rw [← List.map_cons] at ring
    exact ring.of_map

/-- `next_sib_task` goes around a ring of siblings. -/
theorem nextSibTask_ring {s : TaskSet} {f u : Nat} {r : List Nat} (ring : s.link.IsRing (.sib f) (r.map .sib)) {i : Nat}
    (next : s.nextSibTask ((f :: r).get ⟨i % (r.length + 1), Nat.mod_lt _ (Nat.succ_pos _)⟩) = .ok u) :
    u = (f :: r).get ⟨(i + 1) % (r.length + 1), Nat.mod_lt _ (Nat.succ_pos _)⟩ := by
  have around := ring.next_getElem i
  simp only [← List.map_cons, List.length_map, List.get_eq_getElem, List.getElem_map] at around
  simp only [List.get_eq_getElem] at next
  rw [nextSibTask, around] at next
  exact (Except.ok.inj next).symm

section Add

variable {s s' : TaskSet} {l children : List Nat} {proc parent : Nat}

/-- The process is the last child of its parent, and nobody outside of the family has changed. -/
structure Adopted (s s' : TaskSet) (l : List Nat) (parent proc : Nat) (children : List Nat) : Prop where
  lists : s'.Lists (l ++ [proc])
  family : Family s' parent (children ++ [proc])
  below : (s'.task proc).parent = parent
  frame : ∀ t, t ∉ parent :: proc :: children → s'.task t = s.task t ∧ s.link.Same s'.link (.sib t)

/-- How often the loop of `add_process` has been at the first of `k` children after `i` rounds. -/
def visits (k i : Nat) : Nat := (i + k - 1) / k

theorem visits_succ {k : Nat} (i : Nat) (some : 0 < k) : visits k (i + 1) = visits k i + if k ∣ i then 1 else 0 := by
  have shift : i + 1 + k - 1 = i + k - 1 + 1 := by omega
  have back : i + k - 1 + 1 = i + k := by omega
  rw [visits, shift, Nat.succ_div]
  simp only [back, Nat.dvd_add_self_right, visits]

/-- The loop of `add_process` counts the first child, its own limit, up in each round. -/
theorem countUp_first {s s' : TaskSet} {f t fuel : Nat} {r : List Nat} (ring : s.link.IsRing (.sib f) (r.map .sib))
    (siblings : (s.task f).numSibling = r.length + 1) (word : r.length + 1 < 2 ^ 32)
    (done : eachSibling (numSiblingOf f) incSibling fuel 0 f s = .ok (t, s')) :
    ∃ i, i < fuel ∧ (s'.task f).numSibling ≤ i ∧
      (s'.task f).numSibling = (r.length + 1 + visits (r.length + 1) i) % 2 ^ 32 := by
  have nodup : (f :: r).Nodup := by
    have distinct := ring.2
    rw [← List.map_cons] at distinct
    exact distinct.of_map
  have kept := eachSibling_inv
    (P := fun i t s₁ => s₁.link = s.link ∧ t = (f :: r).get ⟨i % (r.length + 1), Nat.mod_lt _ (Nat.succ_pos _)⟩ ∧
      (s₁.task f).numSibling = (r.length + 1 + visits (r.length + 1) i) % 2 ^ 32)
    (fun i t s₁ u inv below next => ?_) ⟨rfl, by simp, ?_⟩ done
  · obtain ⟨i, small, atLimit, -, -, count⟩ := kept
    exact ⟨i, by omega, atLimit, count⟩
  · obtain ⟨link, here, count⟩ := inv
    have ring₁ : (incSibling s₁ t).link.IsRing (.sib f) (r.map .sib) := by
      rw [show (incSibling s₁ t).link = s.link from link]
      exact ring
    have bound := Nat.mod_lt i (Nat.succ_pos r.length)
    have atFirst : t = f ↔ r.length + 1 ∣ i := by
      have zeroth : f = (f :: r)[0] := rfl
      rw [here, Nat.dvd_iff_mod_eq_zero]
      exact ⟨fun same => nodup.getElem_inj_iff.mp (same.trans zeroth), fun zero => by simp [zero]⟩
    refine ⟨link, nextSibTask_ring ring₁ (here ▸ next), ?_⟩
    rw [visits_succ i (Nat.succ_pos _), ← add_assoc]
    by_cases first : t = f
    · rw [if_pos (atFirst.mp first), first]
      simp [incSibling, setNumSibling, setTask, count]
    · rw [if_neg (fun divides => first (atFirst.mpr divides))]
      simp [incSibling, setNumSibling, setTask, count, Ne.symm first]
  · rw [siblings, visits, Nat.zero_add, Nat.add_sub_cancel, Nat.div_eq_of_lt (Nat.lt_succ_self _), Nat.add_zero,
      Nat.mod_eq_of_lt word]

/-- With children, the first child has been counted up too far when the loop stops. -/
theorem countUp_wrong {s s' : TaskSet} {f t : Nat} {r : List Nat} (ring : s.link.IsRing (.sib f) (r.map .sib))
    (siblings : (s.task f).numSibling = r.length + 1) (word : r.length + 1 < 2 ^ 32)
    (done : eachSibling (numSiblingOf f) incSibling (intMax + 1) 0 f s = .ok (t, s')) :
    (s'.task f).numSibling ≠ r.length + 2 := by
  obtain ⟨i, small, atLimit, count⟩ := countUp_first ring siblings word done
  intro right
  have few : visits (r.length + 1) i ≤ i + 1 := by
    have round : visits (r.length + 1) i ≤ (i + (r.length + 1)) / (r.length + 1) := Nat.div_le_div_right (Nat.sub_le _ _)
    rw [Nat.add_div_right _ (Nat.succ_pos _)] at round
    exact round.trans (Nat.succ_le_succ (Nat.div_le_self _ _))
  have twice : 2 ≤ visits (r.length + 1) i := (Nat.le_div_iff_mul_le (Nat.succ_pos _)).mpr (by omega)
  rw [intMax] at small
  omega

theorem Adopted.noChildren (lists : s.Lists l) (new : proc ∉ l) (process : (s.task proc).tid = 0)
    (parentProcess : (s.task parent).tid = 0) (other : parent ≠ proc) (alone : s.link.IsRing (.sib proc) [])
    (family : Family s parent []) : ∃ s', s.addProcess proc parent = .ok s' ∧ Adopted s s' l parent proc [] := by
  have first : (((s.addNodes proc).setParent proc parent).task parent).firstChild = none := by
    simpa [setParent, setTask, addNodes, other] using family.first
  have count : (s.task parent).numChild = 0 := family.count
  obtain ⟨s', done⟩ : ∃ s', s.addProcess proc parent = .ok s' := by
    rw [addProcess, if_neg (by simp [process, parentProcess]), addChild, if_neg other, first]
    exact ⟨_, rfl⟩
  have added := (lists.addProcess new done).1
  refine ⟨s', done, ?_⟩
  rw [addProcess, if_neg (by simp [process, parentProcess]), addChild, if_neg other, first] at done
  cases done
  refine ⟨added, ⟨?_, ?_, ?_, ?_, by simp⟩, ?_, fun t outside => ⟨?_, lists.addNodes_sib proc t⟩⟩
  · simp [setNumChild, setNumSibling, setFirstChild, setTask, other]
  · rintro f r single
    obtain ⟨rfl, rfl⟩ : proc = f ∧ [] = r := by simpa using single
    refine alone.congr (fun y member => ?_)
    obtain rfl : y = .sib proc := by simpa using member
    exact lists.addNodes_sib proc proc
  · intro t member
    obtain rfl : t = proc := by simpa using member
    simp [setNumChild, setNumSibling, setFirstChild, setTask, other.symm]
  · simp [setNumChild, setNumSibling, setFirstChild, setParent, setTask, addNodes, other, count]
  · simp [setNumChild, setNumSibling, setFirstChild, setParent, setTask, addNodes, other, other.symm]
  · obtain ⟨notParent, notProc, -⟩ : t ≠ parent ∧ t ≠ proc ∧ t ∉ ([] : List Nat) := by simpa [not_or] using outside
    simp [setNumChild, setNumSibling, setFirstChild, setParent, setTask, addNodes, notParent, notProc]

/-- With children no call of `add_process` is right. -/
theorem not_adopted {f : Nat} {r : List Nat} (lists : s.Lists l) (other : parent ≠ proc) (outside : proc ∉ f :: r)
    (parentOutside : parent ∉ f :: r) (family : Family s parent (f :: r)) :
    ¬ ∃ s', s.addProcess proc parent = .ok s' ∧ Adopted s s' l parent proc (f :: r) := by
  rintro ⟨s', done, adopted⟩
  have first : (((s.addNodes proc).setParent proc parent).task parent).firstChild = some f := by
    simpa [setParent, setTask, addNodes, other] using family.first
  have notProc : f ≠ proc := fun same => outside (same ▸ List.mem_cons_self ..)
  have notParent : f ≠ parent := fun same => parentOutside (same ▸ List.mem_cons_self ..)
  rw [addProcess] at done
  split at done
  · cases done
  · obtain ⟨s₁, hung, rest⟩ := Res.bind_eq_ok.mp done
    rw [addChild, if_neg other, first] at hung
    obtain ⟨⟨t, s₂⟩, loop, rest₁⟩ := Res.bind_eq_ok.mp hung
    have ring : ((s.addNodes proc).setParent proc parent).link.IsRing (.sib f) (r.map .sib) := by
      refine (family.ring f r rfl).congr (fun y member => ?_)
      rw [← List.map_cons] at member
      obtain ⟨u, -, rfl⟩ := List.mem_map.mp member
      exact lists.addNodes_sib proc u
    have siblings : (((s.addNodes proc).setParent proc parent).task f).numSibling = r.length + 1 := by
      simpa [setParent, setTask, addNodes, notProc] using family.siblings f (List.mem_cons_self ..)
    refine countUp_wrong ring siblings family.word loop ?_
    have last := adopted.family.siblings f (by simp)
    cases rest₁
    cases rest
    simpa [setNumChild, setNumSibling, setTask, notProc, notParent] using last

end Add

/-- `add_process` keeps the family right exactly for the first child. -/
theorem addProcess_adopted_iff {s : TaskSet} {l children : List Nat} {proc parent : Nat} (lists : s.Lists l)
    (new : proc ∉ l) (process : (s.task proc).tid = 0) (parentProcess : (s.task parent).tid = 0) (other : parent ≠ proc)
    (alone : s.link.IsRing (.sib proc) []) (outside : proc ∉ children) (parentOutside : parent ∉ children)
    (family : Family s parent children) :
    (∃ s', s.addProcess proc parent = .ok s' ∧ Adopted s s' l parent proc children) ↔ children = [] := by
  cases children with
  | nil => exact ⟨fun _ => rfl, fun _ => Adopted.noChildren lists new process parentProcess other alone family⟩
  | cons f r =>
    have wrong := not_adopted lists other outside parentOutside family
    exact ⟨fun right => absurd right wrong, fun empty => absurd empty (List.cons_ne_nil _ _)⟩

/-- The lists after the processes `l` have been put on them, when nobody has a sibling. -/
def listed (task : Nat → Task) (l : List Nat) : TaskSet :=
  l.foldl addNodes (tasklistInit ⟨⟨id, id⟩, task, 0, some 0⟩)

theorem listed_spec (task : Nat → Task) (l : List Nat) (nodup : l.Nodup) :
    (listed task l).task = task ∧ (listed task l).initproc = some 0 ∧ (listed task l).Lists l ∧
      ∀ t, (listed task l).link.IsRing (.sib t) [] := by
  induction l using List.reverseRecOn with
  | nil =>
    refine ⟨rfl, rfl, .tasklistInit (fun _ sib => ⟨sib, sib⟩), fun t => ?_⟩
    have init := (Lists.initHashLists_keeps ((⟨id, id⟩ : Links TaskNode).init .procList) hashListSize).2 (.sib t) (by simp)
    have self : (⟨id, id⟩ : Links TaskNode).IsRing (.sib t) [] := ⟨⟨rfl, rfl⟩, by simp⟩
    refine self.congr (fun y member => ?_)
    obtain rfl : y = .sib t := by simpa using member
    exact (Links.init_same _ (by simp)).trans init
  | append_singleton l proc ih =>
    obtain ⟨before, disjoint⟩ := List.nodup_append.mp nodup |>.imp_right And.right
    obtain ⟨tasks, init, lists, alone⟩ := ih before
    have last : listed task (l ++ [proc]) = (listed task l).addNodes proc := by
      rw [listed, List.foldl_append]
      rfl
    rw [last]
    refine ⟨tasks, init, lists.addNodes (fun inside => disjoint proc inside proc (by simp) rfl), fun t => ?_⟩
    refine (alone t).congr (fun y member => ?_)
    obtain rfl : y = .sib t := by simpa using member
    exact lists.addNodes_sib proc t

/-- Process 0 without children. -/
def oneProcess : TaskSet := listed (fun t => ⟨0, t, 0, none, 0, 0⟩) [0]

theorem oneProcess_lists : oneProcess.Lists [0] := (listed_spec _ [0] (by simp)).2.2.1

theorem oneProcess_alone (t : Nat) : oneProcess.link.IsRing (.sib t) [] := (listed_spec _ [0] (by simp)).2.2.2 t

theorem oneProcess_family : Family oneProcess 0 [] := ⟨rfl, by simp, by simp, rfl, by decide⟩

theorem addProcess_first : (∃ s', oneProcess.addProcess 8 0 = .ok s' ∧ Adopted oneProcess s' [0] 0 8 []) ↔
    ([] : List Nat) = [] :=
  addProcess_adopted_iff oneProcess_lists (by simp) rfl rfl (by simp) (oneProcess_alone 8) (by simp) (by simp)
    oneProcess_family

/-- The second child is not added. -/
theorem addProcess_second : ¬ ∀ (s : TaskSet) (l children : List Nat) (proc parent : Nat), s.Lists l → proc ∉ l →
    (s.task proc).tid = 0 → (s.task parent).tid = 0 → parent ≠ proc → s.link.IsRing (.sib proc) [] → proc ∉ children →
    parent ∉ children → Family s parent children →
    ∃ s', s.addProcess proc parent = .ok s' ∧ Adopted s s' l parent proc children := by
  intro always
  obtain ⟨s, done, one⟩ := Adopted.noChildren oneProcess_lists (show 8 ∉ [0] by simp) rfl rfl (show 0 ≠ 8 by simp)
    (oneProcess_alone 8) oneProcess_family
  have untouched := one.frame 9 (by simp)
  have alone : s.link.IsRing (.sib 9) [] := (oneProcess_alone 9).congr (fun y member => by
    obtain rfl : y = .sib 9 := by simpa using member
    exact untouched.2)
  refine not_adopted one.lists (show 0 ≠ 9 by simp) (by simp) (by simp) one.family ?_
  exact always s _ _ 9 0 one.lists (by simp) (addProcess_tid done 9) (addProcess_tid done 0) (by simp) alone (by simp) (by simp) one.family

end Xv6.TaskSet
