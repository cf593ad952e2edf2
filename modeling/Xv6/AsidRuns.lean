import Xv6.Asid

namespace Xv6

namespace Asids

variable {τ : Type*} [DecidableEq τ] {pgd : τ → Nat} {kernPgd : Nat} {s : Asids τ}

/-- The ASID field of ENTRYHI. -/
def field (entryhi : Nat) : Nat := entryhi &&& enthiAsidMask

theorem field_written {entryhi asid : Nat} (small : asid ≤ asidInvalid) :
    field ((entryhi ^^^ (entryhi &&& enthiAsidMask)) ||| asid) = asid := by
  have bound : asid < 2 ^ 8 := Nat.lt_of_le_of_lt small (by decide)
  apply Nat.eq_of_testBit_eq
  intro i
  simp only [field, enthiAsidMask, Nat.testBit_and, Nat.testBit_or, Nat.testBit_xor,
    show (0xff : Nat) = 2 ^ 8 - 1 from rfl, Nat.testBit_two_pow_sub_one]
  by_cases low : i < 8
  · simp [low]
  · have high : asid.testBit i = false :=
      Nat.testBit_lt_two_pow (lt_of_lt_of_le bound (Nat.pow_le_pow_right (by decide) (by omega)))
    simp [low, high]

/-- Only the tables and the field `asid` of the tasks change. -/
structure SameTasks (s s' : Asids τ) : Prop where
  trapframe : s'.trapframe = s.trapframe
  current : s'.current = s.current
  entryHi : s'.entryHi = s.entryHi

theorem flushLoop_spec (n i : Nat) :
    (s.flushLoop n i).onlineHpt = s.onlineHpt ∧ (s.flushLoop n i).nextAsid = s.nextAsid ∧
      (∀ a, (s.flushLoop n i).onlineTasks a = if i ≤ a ∧ a < i + n then none else s.onlineTasks a) ∧
      SameTasks s (s.flushLoop n i) := by
  induction n generalizing s i with
  | zero =>
    refine ⟨rfl, rfl, fun a => ?_, rfl, rfl, rfl⟩
    rw [if_neg (by omega)]
    rfl
  | succ n ih =>
    cases found : s.onlineTasks i with
    | some t =>
      obtain ⟨hpt, next, tasks, same⟩ := ih (s := { s with
        taskAsid := Function.update s.taskAsid t asidInvalid
        onlineTasks := Function.update s.onlineTasks i none }) (i + 1)
      simp only [flushLoop, found]
      refine ⟨hpt, next, fun a => (tasks a).trans ?_, same.trapframe, same.current, same.entryHi⟩
      show (if i + 1 ≤ a ∧ a < i + 1 + n then none else Function.update s.onlineTasks i none a) = _
      by_cases first : a = i
      · subst first
        rw [if_neg (by omega), if_pos (by omega), Function.update_self]
      · rw [Function.update_of_ne first]
        exact if_congr (by omega) rfl rfl
    | none =>
      obtain ⟨hpt, next, tasks, same⟩ := ih (s := s) (i + 1)
      simp only [flushLoop, found]
      refine ⟨hpt, next, fun a => ?_, same⟩
      rw [tasks]
      by_cases first : a = i
      · subst first
        rw [if_neg (by omega), if_pos (by omega), found]
      · exact if_congr (by omega) rfl rfl

/-- The ASIDs below `next_asid` have the directories of their tasks, the others none. -/
structure Assigned (pgd : τ → Nat) (kernPgd : Nat) (s : Asids τ) : Prop where
  low : asidMin ≤ s.nextAsid
  high : s.nextAsid ≤ asidInvalid
  kernel : s.onlineHpt asidKernel = kernPgd
  known : ∀ a t, s.onlineTasks a = some t → asidMin ≤ a ∧ a < s.nextAsid ∧ s.onlineHpt a = pgd t
  unknown : ∀ a, a ≠ asidKernel → s.onlineTasks a = none → s.onlineHpt a = 0

theorem asidFlush_spec (pgd : τ → Nat) (kernPgd : Nat) (few : ∀ a t, s.onlineTasks a = some t → asidMin ≤ a ∧ a < asidMax) :
    Assigned pgd kernPgd (s.asidFlush kernPgd) ∧ (s.asidFlush kernPgd).nextAsid = asidMin ∧
      SameTasks s (s.asidFlush kernPgd) := by
  obtain ⟨hpt, next, tasks, same⟩ := flushLoop_spec (s := { s with
    onlineHpt := Function.update (fun _ => 0) asidKernel kernPgd
    nextAsid := asidMin }) (asidMax - asidMin) asidMin
  have table : (s.asidFlush kernPgd).onlineHpt = Function.update (fun _ => 0) asidKernel kernPgd := hpt
  have first : (s.asidFlush kernPgd).nextAsid = asidMin := next
  have none : ∀ a, (s.asidFlush kernPgd).onlineTasks a = .none := by
    intro a
    rw [asidFlush, tasks]
    split_ifs with swept
    · rfl
    · cases found : s.onlineTasks a with
      | none => rfl
      | some t =>
        obtain ⟨low, high⟩ := few a t found
        simp only [asidMin, asidMax] at low high swept
        omega
  refine ⟨⟨first.ge, ?_, ?_, ?_, ?_⟩, first, same.trapframe, same.current, same.entryHi⟩
  · rw [first]
    decide
  · rw [table, Function.update_self]
  · intro a t found
    rw [none] at found
    cases found
  · intro a other _
    rw [table, Function.update_of_ne other]

/-- `online_tasks` has the task at the ASID of its trapframe. -/
def Registered (s : Asids τ) (t : τ) : Prop :=
  field (s.trapframe t) = asidInvalid ∨ s.onlineTasks (field (s.trapframe t)) = some t

/-- The current task runs in user mode on no ASID, or on one that names its own directory. -/
def Isolated (pgd : τ → Nat) (s : Asids τ) : Prop :=
  field s.entryHi = asidInvalid ∨ s.onlineHpt (field s.entryHi) = pgd s.current

/-- The word in ENTRYHI after a miss. -/
def missed (s : Asids τ) (vpn2 : Nat) : Nat := (vpn2 <<< (pgshift + 1)) ||| (s.entryHi &&& enthiAsidMask)

/-- The state in which the handler of a fault runs. -/
def trapped (s : Asids τ) (vpn2 : Nat) : Asids τ :=
  { s with entryHi := s.missed vpn2, trapframe := Function.update s.trapframe s.current (s.missed vpn2) }

omit [DecidableEq τ] in
theorem field_missed (s : Asids τ) (vpn2 : Nat) : field (s.missed vpn2) = field s.entryHi := by
  apply Nat.eq_of_testBit_eq
  intro i
  simp only [field, missed, enthiAsidMask, pgshift, Nat.testBit_and, Nat.testBit_or, Nat.testBit_shiftLeft,
    show (0xff : Nat) = 2 ^ 8 - 1 from rfl, Nat.testBit_two_pow_sub_one]
  by_cases low : i < 8
  · have under : ¬ 15 ≤ i := by omega
    simp [low, under]
  · simp [low]

theorem pgfault_valid (valid : field s.entryHi ≠ asidInvalid) (vpn2 : Nat) :
    (s.pgfault pgd kernPgd vpn2).2 = s.trapped vpn2 := by
  have field' := s.field_missed vpn2
  rw [← field', field] at valid
  have frame : (s.trapped vpn2).trapframe s.current = s.missed vpn2 := Function.update_self ..
  have run : (s.pgfault pgd kernPgd vpn2).2 = ((s.trapped vpn2).handlePgfault pgd kernPgd).2.restoreSome := rfl
  have stays : ((s.trapped vpn2).handlePgfault pgd kernPgd).2 = s.trapped vpn2 := by
    show (if (s.trapped vpn2).trapframe s.current &&& enthiAsidMask = asidInvalid then _ else _ : Int × Asids τ).2 = _
    rw [frame, if_neg valid]
  rw [run, stays, restoreSome]
  show { s.trapped vpn2 with entryHi := (s.trapped vpn2).trapframe s.current } = _
  rw [frame]
  rfl

/-- A fault on no ASID assigns the next one, or the first one after a flush. -/
theorem pgfault_invalid (pgd : τ → Nat) (invalid : field s.entryHi = asidInvalid) (vpn2 : Nat) {s₂ : Asids τ}
    (ready : (if s.nextAsid = asidInvalid then (s.trapped vpn2).asidFlush kernPgd else s.trapped vpn2) = s₂)
    (current : s₂.current = s.current) :
    ∃ e, (s.pgfault pgd kernPgd vpn2).2 = { s₂ with
        taskAsid := Function.update s₂.taskAsid s₂.current s₂.nextAsid
        nextAsid := (s₂.nextAsid + 1) % 2 ^ 16
        onlineHpt := Function.update s₂.onlineHpt s₂.nextAsid (pgd s₂.current)
        onlineTasks := Function.update s₂.onlineTasks s₂.nextAsid (some s₂.current)
        trapframe := Function.update s₂.trapframe s₂.current e
        entryHi := e } ∧ (s₂.nextAsid ≤ asidInvalid → field e = s₂.nextAsid) := by
  have field' := s.field_missed vpn2
  rw [← field', field] at invalid
  have frame : (s.trapped vpn2).trapframe s.current = s.missed vpn2 := Function.update_self ..
  have run : (s.pgfault pgd kernPgd vpn2).2 = ((s.trapped vpn2).handlePgfault pgd kernPgd).2.restoreSome := rfl
  refine ⟨(s.missed vpn2 ^^^ (s.missed vpn2 &&& enthiAsidMask)) ||| s₂.nextAsid, ?_, fun small => field_written small⟩
  have result : ((s.trapped vpn2).handlePgfault pgd kernPgd).2 = { s₂ with
      taskAsid := Function.update s₂.taskAsid s₂.current s₂.nextAsid
      nextAsid := (s₂.nextAsid + 1) % 2 ^ 16
      onlineHpt := Function.update s₂.onlineHpt s₂.nextAsid (pgd s₂.current)
      onlineTasks := Function.update s₂.onlineTasks s₂.nextAsid (some s₂.current)
      trapframe := Function.update s₂.trapframe s₂.current
        ((s.missed vpn2 ^^^ (s.missed vpn2 &&& enthiAsidMask)) ||| s₂.nextAsid) } := by
    have here : (s.trapped vpn2).current = s.current := rfl
    have next : (s.trapped vpn2).nextAsid = s.nextAsid := rfl
    simp only [handlePgfault, here, next, frame, if_pos invalid, ready, current]
  rw [run, result, restoreSome]
  simp only [Function.update_self]

theorem pgfault_given (pgd : τ → Nat) (kernPgd : Nat) (invalid : field s.entryHi = asidInvalid) (bound : s.nextAsid ≤ asidInvalid) (vpn2 : Nat) {n : Nat}
    (choice : (if s.nextAsid = asidInvalid then asidMin else s.nextAsid) = n) :
    (s.pgfault pgd kernPgd vpn2).2.nextAsid = n + 1 ∧
      (s.pgfault pgd kernPgd vpn2).2.onlineHpt n = pgd s.current ∧
      (s.pgfault pgd kernPgd vpn2).2.current = s.current ∧
      (s.pgfault pgd kernPgd vpn2).2.entryHi = (s.pgfault pgd kernPgd vpn2).2.trapframe s.current ∧
      field ((s.pgfault pgd kernPgd vpn2).2.trapframe s.current) = n ∧
      ∀ t, t ≠ s.current → (s.pgfault pgd kernPgd vpn2).2.trapframe t = s.trapframe t := by
  obtain ⟨s₂, ready⟩ : ∃ s₂, (if s.nextAsid = asidInvalid then (s.trapped vpn2).asidFlush kernPgd else s.trapped vpn2) =
    s₂ := ⟨_, rfl⟩
  have same : SameTasks (s.trapped vpn2) s₂ ∧ s₂.nextAsid = n := by
    rw [← ready, ← choice]
    split_ifs with exhausted
    · obtain ⟨-, next, -, same⟩ := flushLoop_spec (s := { s.trapped vpn2 with
        onlineHpt := Function.update (fun _ => 0) asidKernel kernPgd
        nextAsid := asidMin }) (asidMax - asidMin) asidMin
      exact ⟨⟨same.trapframe, same.current, same.entryHi⟩, next⟩
    · exact ⟨⟨rfl, rfl, rfl⟩, rfl⟩
  obtain ⟨same, rfl⟩ := same
  have current : s₂.current = s.current := same.current
  have small : s₂.nextAsid ≤ asidInvalid := by
    rw [← choice]
    split_ifs
    · decide
    · exact bound
  obtain ⟨e, result, written⟩ := pgfault_invalid pgd invalid vpn2 ready current
  rw [result]
  refine ⟨?_, ?_, current, ?_, ?_, fun t other => ?_⟩
  · simp only [asidInvalid] at small
    show (s₂.nextAsid + 1) % 2 ^ 16 = s₂.nextAsid + 1
    omega
  · simp only [Function.update_self, current]
  · simp only [current, Function.update_self]
  · simp only [current, Function.update_self]
    exact written small
  · simp only [current, Function.update_of_ne other, same.trapframe]
    exact Function.update_of_ne other ..

/-- What a run keeps while the current task is registered. -/
structure AsidKept (pgd : τ → Nat) (kernPgd : Nat) (s : Asids τ) : Prop where
  assigned : Assigned pgd kernPgd s
  saved : s.entryHi = s.trapframe s.current
  registered : Registered s s.current

omit [DecidableEq τ] in
theorem AsidKept.isolated (kept : AsidKept pgd kernPgd s) : Isolated pgd s := by
  rw [Isolated, kept.saved]
  rcases kept.registered with invalid | found
  · exact .inl invalid
  · exact .inr (kept.assigned.known _ _ found).2.2

/-- A new ASID for the current task. -/
theorem Assigned.give (assigned : Assigned pgd kernPgd s) (left : s.nextAsid < asidInvalid) :
    Assigned pgd kernPgd { s with
      taskAsid := Function.update s.taskAsid s.current s.nextAsid
      nextAsid := (s.nextAsid + 1) % 2 ^ 16
      onlineHpt := Function.update s.onlineHpt s.nextAsid (pgd s.current)
      onlineTasks := Function.update s.onlineTasks s.nextAsid (some s.current) } := by
  have low := assigned.low
  have next : (s.nextAsid + 1) % 2 ^ 16 = s.nextAsid + 1 := Nat.mod_eq_of_lt (by
    have := assigned.high
    simp only [asidInvalid] at this
    omega)
  simp only [next]
  refine ⟨Nat.le_succ_of_le low, left, ?_, ?_, ?_⟩
  · have other : asidKernel ≠ s.nextAsid := by
      simp only [asidKernel, asidMin] at *
      omega
    show Function.update s.onlineHpt s.nextAsid (pgd s.current) asidKernel = kernPgd
    rw [Function.update_of_ne other]
    exact assigned.kernel
  · intro a t found
    by_cases new : a = s.nextAsid
    · subst new
      simp only [Function.update_self, Option.some.injEq] at found ⊢
      exact ⟨low, by omega, by rw [found]⟩
    · simp only [Function.update_of_ne new] at found ⊢
      obtain ⟨first, below, own⟩ := assigned.known a t found
      exact ⟨first, by omega, own⟩
  · intro a other none
    by_cases new : a = s.nextAsid
    · subst new
      simp at none
    · simp only [Function.update_of_ne new] at none ⊢
      exact assigned.unknown a other none

theorem AsidKept.pgfault (kept : AsidKept pgd kernPgd s) (vpn2 : Nat) : AsidKept pgd kernPgd (s.pgfault pgd kernPgd vpn2).2 := by
  have assigned : Assigned pgd kernPgd (s.trapped vpn2) :=
    ⟨kept.assigned.low, kept.assigned.high, kept.assigned.kernel, kept.assigned.known, kept.assigned.unknown⟩
  by_cases invalid : field s.entryHi = asidInvalid
  · obtain ⟨s₂, ready⟩ : ∃ s₂, (if s.nextAsid = asidInvalid then (s.trapped vpn2).asidFlush kernPgd
      else s.trapped vpn2) = s₂ := ⟨_, rfl⟩
    have renewed : Assigned pgd kernPgd s₂ ∧ s₂.nextAsid < asidInvalid ∧ SameTasks (s.trapped vpn2) s₂ := by
      rw [← ready]
      split_ifs with exhausted
      · obtain ⟨flushed, next, same⟩ := asidFlush_spec pgd kernPgd (s := s.trapped vpn2)
          fun a t found => by
            obtain ⟨low, high, -⟩ := kept.assigned.known a t found
            rw [exhausted] at high
            exact ⟨low, high⟩
        exact ⟨flushed, by rw [next]; decide, same⟩
      · have high := kept.assigned.high
        exact ⟨assigned, Nat.lt_of_le_of_ne high exhausted, rfl, rfl, rfl⟩
    obtain ⟨assigned₂, left, same⟩ := renewed
    have given := assigned₂.give left
    obtain ⟨e, result, written⟩ := pgfault_invalid pgd invalid vpn2 ready same.current
    rw [result]
    refine ⟨⟨given.low, given.high, given.kernel, given.known, given.unknown⟩, ?_, .inr ?_⟩
    · simp only [Function.update_self]
    · simp only [Function.update_self, written (Nat.le_of_lt left)]
  · rw [pgfault_valid invalid]
    have frame : (s.trapped vpn2).trapframe s.current = s.missed vpn2 := Function.update_self ..
    refine ⟨assigned, frame.symm, .inr ?_⟩
    show s.onlineTasks (field ((s.trapped vpn2).trapframe s.current)) = some s.current
    rw [frame, field_missed, kept.saved]
    exact kept.registered.resolve_left (kept.saved ▸ invalid)

theorem switchTo_entryHi (kept : AsidKept pgd kernPgd s) (t : τ) : (s.switchTo t).entryHi = s.trapframe t := by
  show Function.update s.trapframe s.current s.entryHi t = s.trapframe t
  rw [kept.saved, Function.update_eq_self]

theorem AsidKept.switchTo (kept : AsidKept pgd kernPgd s) {t : τ} (registered : Registered s t) :
    AsidKept pgd kernPgd (s.switchTo t) := by
  refine ⟨⟨kept.assigned.low, kept.assigned.high, kept.assigned.kernel, kept.assigned.known, kept.assigned.unknown⟩,
    rfl, ?_⟩
  have same : (s.switchTo t).trapframe = s.trapframe := by
    show Function.update s.trapframe s.current s.entryHi = s.trapframe
    rw [kept.saved, Function.update_eq_self]
  show field ((s.switchTo t).trapframe t) = asidInvalid ∨ s.onlineTasks (field ((s.switchTo t).trapframe t)) = some t
  rw [same]
  exact registered

/-- A switch to a task that is not registered runs it on the directory of another one, or on none. -/
theorem AsidKept.switchTo_isolated (kept : AsidKept pgd kernPgd s) (own : Function.Injective pgd)
    (some : ∀ t, pgd t ≠ 0) (user : ∀ t, pgd t ≠ kernPgd) (t : τ) :
    Isolated pgd (s.switchTo t) ↔ Registered s t := by
  refine ⟨fun isolated => ?_, fun registered => (kept.switchTo registered).isolated⟩
  rw [Isolated, switchTo_entryHi kept t] at isolated
  rcases isolated with invalid | directory
  · exact .inl invalid
  · right
    have here : s.onlineHpt (field (s.trapframe t)) = pgd t := directory
    cases found : s.onlineTasks (field (s.trapframe t)) with
    | none =>
      by_cases kernel : field (s.trapframe t) = asidKernel
      · rw [kernel, kept.assigned.kernel] at here
        exact absurd here.symm (user t)
      · rw [kept.assigned.unknown _ kernel found] at here
        exact absurd here.symm (some t)
    | some u =>
      rw [(kept.assigned.known _ u found).2.2] at here
      rw [own here]

/-- The state when the first user task runs: `pgtable_bootstrap` cleared `online_tasks`
and flushed, and `task_init_trapframe` set each ENTRYHI. -/
def boot (kernPgd : Nat) (onlineHpt : Nat → Nat) (nextAsid : Nat) (taskAsid context : τ → Nat) (first : τ) : Asids τ :=
  asidFlush
    { onlineHpt, nextAsid, onlineTasks := fun _ => none, taskAsid, trapframe := fun _ => asidInvalid, context
      current := first, entryHi := asidInvalid } kernPgd

end Asids

open Asids

/-- The runs of user tasks in which switches are as `allowed` says. -/
inductive AsidRun {τ : Type*} [DecidableEq τ] (pgd : τ → Nat) (kernPgd : Nat) (allowed : Asids τ → τ → Prop) :
    Asids τ → Prop
  | boot (onlineHpt : Nat → Nat) (nextAsid : Nat) (taskAsid context : τ → Nat) (first : τ) :
      AsidRun pgd kernPgd allowed (boot kernPgd onlineHpt nextAsid taskAsid context first)
  | pgfault {s : Asids τ} (run : AsidRun pgd kernPgd allowed s) (vpn2 : Nat) :
      AsidRun pgd kernPgd allowed (s.pgfault pgd kernPgd vpn2).2
  | switch {s : Asids τ} (run : AsidRun pgd kernPgd allowed s) {t : τ} (fits : allowed s t) :
      AsidRun pgd kernPgd allowed (s.switchTo t)

namespace AsidRun

variable {τ : Type*} [DecidableEq τ] {pgd : τ → Nat} {kernPgd : Nat} {s : Asids τ}

theorem kept (run : AsidRun pgd kernPgd Registered s) : AsidKept pgd kernPgd s := by
  induction run with
  | boot onlineHpt nextAsid taskAsid context first =>
    obtain ⟨assigned, -, same⟩ := asidFlush_spec pgd kernPgd
      (s := { onlineHpt, nextAsid, onlineTasks := fun _ => none, taskAsid, trapframe := fun _ => asidInvalid, context
              current := first, entryHi := asidInvalid }) fun a t found => by cases found
    refine ⟨assigned, ?_, .inl ?_⟩
    · rw [Asids.boot, same.entryHi, same.trapframe]
    · rw [Asids.boot, same.trapframe]
      show field asidInvalid = asidInvalid
      decide
  | pgfault _ vpn2 ih => exact ih.pgfault vpn2
  | switch _ fits ih => exact ih.switchTo fits

/-- As long as tasks are registered when they go on, each runs on its own directory;
a task that is not registered does not. -/
theorem ownDirectory (own : Function.Injective pgd) (some : ∀ t, pgd t ≠ 0) (user : ∀ t, pgd t ≠ kernPgd)
    (run : AsidRun pgd kernPgd Registered s) :
    Isolated pgd s ∧ ∀ t, Isolated pgd (s.switchTo t) ↔ Registered s t :=
  ⟨run.kept.isolated, run.kept.switchTo_isolated own some user⟩

/-- Each of the first tasks faults once and has its own ASID. -/
theorem allGiven {k : Nat} (few : k ≤ 254) :
    ∃ s, AsidRun (fun t => t + 2) 1 (fun _ _ => True) s ∧ s.nextAsid = k + 1 ∧ s.current = k ∧
      s.entryHi = s.trapframe k ∧ (∀ t, k ≤ t → field (s.trapframe t) = asidInvalid) ∧
      ∀ t, t < k → field (s.trapframe t) = t + 1 := by
  induction k with
  | zero =>
    obtain ⟨-, next, same⟩ := asidFlush_spec (fun t : Nat => t + 2) 1
      (s := { onlineHpt := fun _ => 0, nextAsid := 0, onlineTasks := fun _ => none, taskAsid := fun _ => 0
              trapframe := fun _ => asidInvalid, context := fun _ => 0, current := 0, entryHi := asidInvalid })
      fun a t found => by cases found
    refine ⟨_, .boot (fun _ => 0) 0 (fun _ => 0) (fun _ => 0) 0, next, same.current, ?_, fun t _ => ?_, by simp⟩
    · rw [Asids.boot, same.entryHi, same.trapframe]
    · rw [Asids.boot, same.trapframe]
      show field asidInvalid = asidInvalid
      decide
  | succ k ih =>
    obtain ⟨s, run, next, current, saved, invalid, given⟩ := ih (by omega)
    have here : field s.entryHi = asidInvalid := saved ▸ invalid k le_rfl
    have left : s.nextAsid ≠ asidInvalid := by
      rw [next, asidInvalid]
      omega
    obtain ⟨next', -, current', saved', own, others⟩ := pgfault_given (fun t => t + 2) 1 (n := k + 1)
      here (by rw [next, asidInvalid]; omega) 0 (by rw [if_neg left, next])
    rw [current] at saved' own others current'
    have faulted := run.pgfault 0
    obtain ⟨s', def'⟩ : ∃ s', s' = (s.pgfault (fun t => t + 2) 1 0).2 := ⟨_, rfl⟩
    rw [← def'] at faulted next' saved' own others current'
    have switched := faulted.switch (t := k + 1) trivial
    have trapframe : (s'.switchTo (k + 1)).trapframe = s'.trapframe := by
      show Function.update s'.trapframe s'.current s'.entryHi = s'.trapframe
      rw [saved', current', Function.update_eq_self]
    refine ⟨_, switched, next', rfl, rfl, fun t later => ?_, fun t earlier => ?_⟩
    · rw [trapframe, others t (by omega)]
      exact invalid t (by omega)
    · rw [trapframe]
      by_cases last : t = k
      · rw [last, own]
      · rw [others t last]
        exact given t (by omega)

/-- After 255 tasks had an ASID each, the first one goes on with that of the last one. -/
theorem not_ownDirectory :
    ¬ ∀ (pgd : Nat → Nat) (kernPgd : Nat) (s : Asids Nat), Function.Injective pgd → (∀ t, pgd t ≠ 0) →
      (∀ t, pgd t ≠ kernPgd) → AsidRun pgd kernPgd (fun _ _ => True) s → Isolated pgd s := by
  intro claim
  obtain ⟨s, run, next, current, saved, invalid, given⟩ := allGiven (k := 254) le_rfl
  have here : field s.entryHi = asidInvalid := saved ▸ invalid 254 le_rfl
  obtain ⟨-, directory, current', saved', -, others⟩ := pgfault_given (fun t => t + 2) 1 (n := 1)
    here (by rw [next]; decide) 0 (by rw [next]; decide)
  rw [current] at directory current' saved' others
  have faulted := run.pgfault 0
  obtain ⟨s', def'⟩ : ∃ s', s' = (s.pgfault (fun t => t + 2) 1 0).2 := ⟨_, rfl⟩
  rw [← def'] at faulted directory current' saved' others
  have old : field (s'.switchTo 0).entryHi = 1 := by
    show field (Function.update s'.trapframe s'.current s'.entryHi 0) = 1
    rw [saved', current', Function.update_eq_self, others 0 (by decide)]
    exact given 0 (by decide)
  have isolated := claim (fun t => t + 2) 1 _ (fun a b same => by simpa using same) (by simp) (by simp)
    (faulted.switch (t := 0) trivial)
  rw [Isolated, old] at isolated
  rcases isolated with bad | bad
  · cases bad
  · have wrong : s'.onlineHpt 1 = 2 := bad
    rw [directory] at wrong
    cases wrong

/-- Two tasks that have both faulted; the second one runs on its own directory. -/
theorem ownDirectory_two : ∃ s : Asids Nat, AsidRun (fun t => t + 2) 1 Registered s ∧ s.current = 1 ∧ field s.entryHi = 2 ∧
    Isolated (fun t => t + 2) s := by
  obtain ⟨start, def'⟩ : ∃ start : Asids Nat, start = Asids.boot 1 (fun _ => 0) 0 (fun _ => 0) (fun _ => 0) 0 := ⟨_, rfl⟩
  obtain ⟨-, next, same⟩ := asidFlush_spec (fun t : Nat => t + 2) 1
    (s := { onlineHpt := fun _ => 0, nextAsid := 0, onlineTasks := fun _ => none, taskAsid := fun _ => 0
            trapframe := fun _ => asidInvalid, context := fun _ => 0, current := 0, entryHi := asidInvalid })
    fun a t found => by cases found
  rw [← Asids.boot, ← def'] at next same
  have run : AsidRun (fun t => t + 2) 1 Registered start := def' ▸ .boot ..
  have none : field asidInvalid = asidInvalid := by decide
  have invalid : field start.entryHi = asidInvalid := by
    rw [same.entryHi]
    exact none
  obtain ⟨next₁, -, current₁, -, -, others⟩ := pgfault_given (fun t => t + 2) 1 (n := 1) invalid
    (by rw [next]; decide) 0 (by rw [next]; decide)
  have faulted := run.pgfault 0
  obtain ⟨s₁, def₁⟩ : ∃ s₁, s₁ = (start.pgfault (fun t => t + 2) 1 0).2 := ⟨_, rfl⟩
  rw [← def₁] at faulted next₁ current₁ others
  have first : s₁.current = 0 := current₁.trans same.current
  have waiting : field (s₁.trapframe 1) = asidInvalid := by
    rw [others 1 (by rw [same.current]; decide), same.trapframe]
    exact none
  have switched := faulted.switch (t := 1) (.inl waiting)
  have still : field (s₁.switchTo 1).entryHi = asidInvalid := by
    show field (Function.update s₁.trapframe s₁.current s₁.entryHi 1) = asidInvalid
    rw [first, Function.update_of_ne (by decide)]
    exact waiting
  have following : (s₁.switchTo 1).nextAsid = 2 := next₁
  obtain ⟨-, -, current₂, saved₂, given₂, -⟩ := pgfault_given (fun t => t + 2) 1 (n := 2) still
    (by rw [following]; decide) 0 (by rw [following]; decide)
  refine ⟨_, switched.pgfault 0, current₂, ?_,
    (ownDirectory (fun a b same => by simpa using same) (by simp) (by simp) (switched.pgfault 0)).1⟩
  rw [saved₂]
  exact given₂

end AsidRun

end Xv6
