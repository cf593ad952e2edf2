import Xv6.AsidRuns

namespace Xv6

namespace Asids

variable {τ : Type*} [DecidableEq τ] {pgd : τ → Nat} {kernPgd : Nat} {s s' : Asids τ} {faulted : List τ}

/-- `pgtable_bootstrap`, when it has made the directory of the kernel. -/
def pgtableBootstrap (s : Asids τ) (kernPgd : Nat) : Asids τ := { s with onlineTasks := fun _ => none }.asidFlush kernPgd

/-- The table of ASIDs, and the field `asid` of the tasks that have faulted. -/
structure Booked (pgd : τ → Nat) (kernPgd : Nat) (s : Asids τ) (faulted : List τ) : Prop where
  low : asidMin ≤ s.nextAsid
  high : s.nextAsid ≤ asidInvalid
  slot : ∀ a, asidMin ≤ a → a < s.nextAsid →
    ∃ t, s.onlineTasks a = some t ∧ s.taskAsid t = a ∧ s.onlineHpt a = pgd t
  single : ∀ a b t, s.onlineTasks a = some t → s.onlineTasks b = some t → a = b
  empty : ∀ a, s.nextAsid ≤ a → s.onlineTasks a = none
  below : ∀ a, a < asidMin → s.onlineTasks a = none
  invalid : s.onlineHpt asidInvalid = 0
  kernel : s.onlineHpt asidKernel = kernPgd
  known : ∀ a t, s.onlineTasks a = some t → t ∈ faulted
  dropped : ∀ t ∈ faulted, (∀ a, s.onlineTasks a ≠ some t) → s.taskAsid t = asidInvalid

/-- Other code leaves the table alone, and the tasks that have an ASID. -/
structure Elsewhere (faulted : List τ) (s s' : Asids τ) : Prop where
  hpt : s'.onlineHpt = s.onlineHpt
  next : s'.nextAsid = s.nextAsid
  tasks : s'.onlineTasks = s.onlineTasks
  asid : ∀ t ∈ faulted, s'.taskAsid t = s.taskAsid t

/-- The loop of `asid_flush` takes the ASIDs from the tasks in its slots, and from no other task. -/
theorem flushLoop_taskAsid (n i : Nat) (t : τ) :
    (∀ a, i ≤ a → a < i + n → s.onlineTasks a = some t → (s.flushLoop n i).taskAsid t = asidInvalid) ∧
      ((∀ a, i ≤ a → a < i + n → s.onlineTasks a ≠ some t) → (s.flushLoop n i).taskAsid t = s.taskAsid t) := by
  induction n generalizing s i with
  | zero => exact ⟨fun a lower upper => absurd upper (by omega), fun _ => rfl⟩
  | succ n ih =>
    cases found : s.onlineTasks i with
    | none =>
      obtain ⟨taken, kept⟩ := ih (s := s) (i + 1)
      simp only [flushLoop, found]
      refine ⟨fun a lower upper here => taken a ?_ (by omega) here, fun away => kept fun a lower upper => away a (by omega) (by omega)⟩
      by_contra early
      obtain rfl : a = i := by omega
      rw [found] at here
      cases here
    | some u =>
      obtain ⟨taken, kept⟩ := ih (s := { s with
        taskAsid := Function.update s.taskAsid u asidInvalid
        onlineTasks := Function.update s.onlineTasks i none }) (i + 1)
      have later : ∀ a, i + 1 ≤ a → Function.update s.onlineTasks i none a = s.onlineTasks a := fun a lower =>
        Function.update_of_ne (by omega) ..
      simp only [flushLoop, found]
      by_cases again : ∃ a, i + 1 ≤ a ∧ a < i + 1 + n ∧ s.onlineTasks a = some t
      · obtain ⟨a, lower, upper, here⟩ := again
        refine ⟨fun _ _ _ _ => taken a lower upper ((later a lower).trans here), fun away => ?_⟩
        exact absurd here (away a (by omega) (by omega))
      · have rest := kept fun a lower upper here => again ⟨a, lower, upper, (later a lower).symm.trans here⟩
        refine ⟨fun a lower upper here => ?_, fun away => ?_⟩
        · have first : a = i := by
            by_contra other
            exact again ⟨a, by omega, by omega, here⟩
          rw [first, found] at here
          refine rest.trans ?_
          rw [Option.some.inj here]
          exact Function.update_self ..
        · have other : t ≠ u := fun same => away i (by omega) (by omega) (by rw [found, same])
          exact rest.trans (Function.update_of_ne other ..)

/-- A flush empties the table. -/
theorem asidFlush_booked (tasks : ∀ a t, s.onlineTasks a = some t → asidMin ≤ a ∧ a < asidMax)
    (dropped : ∀ t ∈ faulted, (∀ a, s.onlineTasks a ≠ some t) → s.taskAsid t = asidInvalid) :
    Booked pgd kernPgd (s.asidFlush kernPgd) faulted ∧ (s.asidFlush kernPgd).nextAsid = asidMin ∧
      SameTasks s (s.asidFlush kernPgd) := by
  obtain ⟨assigned, first, same⟩ := asidFlush_spec pgd kernPgd tasks
  have none : ∀ a, (s.asidFlush kernPgd).onlineTasks a = .none := by
    intro a
    cases found : (s.asidFlush kernPgd).onlineTasks a with
    | none => rfl
    | some t =>
      obtain ⟨lower, upper, -⟩ := assigned.known a t found
      rw [first] at upper
      omega
  refine ⟨⟨assigned.low, assigned.high, fun a lower upper => ?_, fun a b t left => ?_, fun a _ => none a, fun a _ => none a,
    assigned.unknown asidInvalid (by decide) (none _), assigned.kernel, fun a t found => ?_, fun t member _ => ?_⟩, first, same⟩
  · rw [first] at upper
    omega
  · rw [none] at left
    cases left
  · rw [none] at found
    cases found
  · obtain ⟨taken, kept⟩ := flushLoop_taskAsid (s := { s with
      onlineHpt := Function.update (fun _ => 0) asidKernel kernPgd
      nextAsid := asidMin }) (asidMax - asidMin) asidMin t
    by_cases inside : ∃ a, s.onlineTasks a = some t
    · obtain ⟨a, found⟩ := inside
      obtain ⟨lower, upper⟩ := tasks a t found
      exact taken a lower (by simp only [asidMax, asidMin] at upper ⊢; omega) found
    · have away : ∀ a, s.onlineTasks a ≠ some t := fun a found => inside ⟨a, found⟩
      exact (kept fun a _ _ => away a).trans (dropped t member away)

namespace Booked

theorem start (s : Asids τ) : Booked pgd kernPgd (s.pgtableBootstrap kernPgd) [] :=
  (asidFlush_booked (s := { s with onlineTasks := fun _ => none }) (fun _ _ found => by cases found) (by simp)).1

omit [DecidableEq τ] in
theorem elsewhere (booked : Booked pgd kernPgd s faulted) (other : Elsewhere faulted s s') :
    Booked pgd kernPgd s' faulted := by
  obtain ⟨hpt, next, tasks, asid⟩ := other
  refine ⟨?_, ?_, fun a lower upper => ?_, ?_, ?_, ?_, ?_, ?_, ?_, fun t member away => ?_⟩
  · exact next ▸ booked.low
  · exact next ▸ booked.high
  · obtain ⟨t, found, own, directory⟩ := booked.slot a lower (next ▸ upper)
    exact ⟨t, tasks ▸ found, (asid t (booked.known a t found)).trans own, hpt ▸ directory⟩
  · exact tasks ▸ booked.single
  · exact tasks ▸ next ▸ booked.empty
  · exact tasks ▸ booked.below
  · exact hpt ▸ booked.invalid
  · exact hpt ▸ booked.kernel
  · exact tasks ▸ booked.known
  · exact (asid t member).trans (booked.dropped t member (tasks ▸ away))

/-- A task that has not faulted before gets the next ASID. -/
theorem give (booked : Booked pgd kernPgd s faulted) (fresh : s.current ∉ faulted) (left : s.nextAsid ≠ asidInvalid)
    (trapframe : τ → Nat) :
    Booked pgd kernPgd { s with
      taskAsid := Function.update s.taskAsid s.current s.nextAsid
      nextAsid := (s.nextAsid + 1) % 2 ^ 16
      onlineHpt := Function.update s.onlineHpt s.nextAsid (pgd s.current)
      onlineTasks := Function.update s.onlineTasks s.nextAsid (some s.current)
      trapframe := trapframe } (s.current :: faulted) := by
  have low := booked.low
  have high := booked.high
  have step : (s.nextAsid + 1) % 2 ^ 16 = s.nextAsid + 1 := by
    simp only [asidInvalid] at high
    omega
  -- the slots of the table before belong to other tasks
  have old : ∀ a t, Function.update s.onlineTasks s.nextAsid (some s.current) a = some t →
      a = s.nextAsid ∧ t = s.current ∨ a < s.nextAsid ∧ s.onlineTasks a = some t ∧ t ≠ s.current := by
    intro a t found
    by_cases here : a = s.nextAsid
    · rw [here, Function.update_self] at found
      exact .inl ⟨here, (Option.some.inj found).symm⟩
    · rw [Function.update_of_ne here] at found
      refine .inr ⟨?_, found, fun same => fresh (same ▸ booked.known a t found)⟩
      by_contra above
      rw [booked.empty a (by omega)] at found
      cases found
  simp only [asidMin, asidInvalid] at low high left
  refine ⟨?_, ?_, fun a lower upper => ?_, fun a b t left right => ?_, fun a above => ?_, fun a under => ?_, ?_, ?_,
    fun a t found => ?_, fun t member away => ?_⟩
  · show asidMin ≤ (s.nextAsid + 1) % 2 ^ 16
    rw [step, asidMin]
    omega
  · show (s.nextAsid + 1) % 2 ^ 16 ≤ asidInvalid
    rw [step, asidInvalid]
    omega
  · show ∃ t, Function.update s.onlineTasks s.nextAsid (some s.current) a = some t ∧
      Function.update s.taskAsid s.current s.nextAsid t = a ∧ Function.update s.onlineHpt s.nextAsid (pgd s.current) a = pgd t
    by_cases here : a = s.nextAsid
    · subst here
      exact ⟨s.current, Function.update_self .., Function.update_self .., Function.update_self ..⟩
    · replace upper : a < (s.nextAsid + 1) % 2 ^ 16 := upper
      obtain ⟨t, found, own, directory⟩ := booked.slot a lower (by omega)
      have other : t ≠ s.current := fun same => fresh (same ▸ booked.known a t found)
      rw [Function.update_of_ne here, Function.update_of_ne here]
      exact ⟨t, found, (Function.update_of_ne other ..).trans own, directory⟩
  · rcases old a t left with ⟨rfl, isNew⟩ | ⟨below, found, notNew⟩
    · rcases old b t right with ⟨rfl, -⟩ | ⟨-, -, notNew⟩
      · rfl
      · exact absurd isNew notNew
    · rcases old b t right with ⟨-, isNew⟩ | ⟨-, found', -⟩
      · exact absurd isNew notNew
      · exact booked.single a b t found found'
  · replace above : (s.nextAsid + 1) % 2 ^ 16 ≤ a := above
    exact (Function.update_of_ne (by omega) ..).trans (booked.empty a (by omega))
  · have small : a < 1 := under
    exact (Function.update_of_ne (by omega) ..).trans (booked.below a under)
  · exact (Function.update_of_ne (by rw [asidInvalid]; omega) ..).trans booked.invalid
  · exact (Function.update_of_ne (by rw [asidKernel]; omega) ..).trans booked.kernel
  · rcases old a t found with ⟨-, rfl⟩ | ⟨-, found, -⟩
    · exact List.mem_cons_self ..
    · exact List.mem_cons_of_mem _ (booked.known a t found)
  · have other : t ≠ s.current := fun same => away s.nextAsid (by rw [same]; exact Function.update_self ..)
    refine (Function.update_of_ne other ..).trans ?_
    refine booked.dropped t ((List.mem_cons.mp member).resolve_left other) fun a found => ?_
    have here : a ≠ s.nextAsid := by
      rintro rfl
      rw [booked.empty _ le_rfl] at found
      cases found
    exact away a ((Function.update_of_ne here ..).trans found)

/-- `handle_pgfault`, with a flush when there is no ASID left. -/
theorem fault (booked : Booked pgd kernPgd s faulted) (fresh : s.current ∉ faulted)
    (invalid : field (s.trapframe s.current) = asidInvalid) :
    Booked pgd kernPgd (s.handlePgfault pgd kernPgd).2 (s.current :: faulted) := by
  rw [field] at invalid
  by_cases exhausted : s.nextAsid = asidInvalid
  · have bounds : ∀ a t, s.onlineTasks a = some t → asidMin ≤ a ∧ a < asidMax := by
      intro a t found
      constructor
      · by_contra under
        rw [booked.below a (Nat.lt_of_not_le under)] at found
        cases found
      · by_contra above
        rw [booked.empty a (exhausted.le.trans (Nat.le_of_not_lt above))] at found
        cases found
    obtain ⟨flushed, first, same⟩ : Booked pgd kernPgd (s.asidFlush kernPgd) faulted ∧ _ ∧ _ :=
      asidFlush_booked bounds booked.dropped
    have given := flushed.give (by rw [same.current]; exact fresh) (by rw [first]; decide)
      (Function.update (s.asidFlush kernPgd).trapframe (s.asidFlush kernPgd).current
        ((s.trapframe s.current ^^^ (s.trapframe s.current &&& enthiAsidMask)) ||| (s.asidFlush kernPgd).nextAsid))
    rw [same.current] at given
    simpa only [handlePgfault, invalid, if_true, exhausted, same.current] using given
  · have given := booked.give fresh exhausted (Function.update s.trapframe s.current
      ((s.trapframe s.current ^^^ (s.trapframe s.current &&& enthiAsidMask)) ||| s.nextAsid))
    simpa only [handlePgfault, invalid, if_true, exhausted, if_false] using given

end Booked

end Asids

open Asids

/-- Runs from `pgtable_bootstrap` on: a task that has not faulted before takes a fault on no ASID, and
between the faults other code runs. -/
inductive FaultRun {τ : Type*} [DecidableEq τ] (pgd : τ → Nat) (kernPgd : Nat) : Asids τ → List τ → Prop
  | bootstrap (s : Asids τ) : FaultRun pgd kernPgd (s.pgtableBootstrap kernPgd) []
  | fault {s : Asids τ} {faulted : List τ} (run : FaultRun pgd kernPgd s faulted) (fresh : s.current ∉ faulted)
      (invalid : field (s.trapframe s.current) = asidInvalid) :
      FaultRun pgd kernPgd (s.handlePgfault pgd kernPgd).2 (s.current :: faulted)
  | elsewhere {s s' : Asids τ} {faulted : List τ} (run : FaultRun pgd kernPgd s faulted)
      (other : Elsewhere faulted s s') : FaultRun pgd kernPgd s' faulted

namespace FaultRun

/-- In every run the table and the tasks agree, before a flush and after it. -/
theorem asidBooked {τ : Type*} [DecidableEq τ] {pgd : τ → Nat} {kernPgd : Nat} {s : Asids τ} {faulted : List τ}
    (run : FaultRun pgd kernPgd s faulted) : Booked pgd kernPgd s faulted := by
  induction run with
  | bootstrap s => exact .start s
  | fault _ fresh invalid ih => exact ih.fault fresh invalid
  | elsewhere _ other ih => exact ih.elsewhere other

/-- Another task goes on, on no ASID. -/
def turn (s : Asids Nat) (t : Nat) : Asids Nat := { s with current := t, trapframe := fun _ => asidInvalid }

/-- It faults, and has the next ASID, or the first one when there is none left. -/
theorem turn_fault {s : Asids Nat} {faulted : List Nat} {n a : Nat} (run : FaultRun (fun t => t + 2) 1 s faulted)
    (fresh : n ∉ faulted) (next : (if s.nextAsid = asidInvalid then asidMin else s.nextAsid) = a) (few : a ≤ 254) :
    ∃ s', FaultRun (fun t => t + 2) 1 s' (n :: faulted) ∧ s'.nextAsid = a + 1 ∧ s'.onlineTasks a = some n := by
  have other : Elsewhere faulted s (turn s n) := ⟨rfl, rfl, rfl, fun _ _ => rfl⟩
  have none : field ((turn s n).trapframe (turn s n).current) = asidInvalid := (by decide : field asidInvalid = asidInvalid)
  refine ⟨_, (run.elsewhere other).fault fresh none, ?_⟩
  have invalid : (turn s n).trapframe (turn s n).current &&& enthiAsidMask = asidInvalid := none
  have given : (if (turn s n).nextAsid = asidInvalid then (turn s n).asidFlush 1 else turn s n).nextAsid = a ∧
      (if (turn s n).nextAsid = asidInvalid then (turn s n).asidFlush 1 else turn s n).current = n := by
    rw [← next]
    by_cases exhausted : s.nextAsid = asidInvalid
    · obtain ⟨-, first, -, same⟩ := flushLoop_spec (s := { turn s n with
        onlineHpt := Function.update (fun _ => 0) asidKernel 1
        nextAsid := asidMin }) (asidMax - asidMin) asidMin
      rw [if_pos exhausted, if_pos (show (turn s n).nextAsid = asidInvalid from exhausted)]
      exact ⟨first, same.current⟩
    · rw [if_neg exhausted, if_neg (show ¬ (turn s n).nextAsid = asidInvalid from exhausted)]
      exact ⟨rfl, rfl⟩
  simp only [handlePgfault, invalid, if_true, given, Function.update_self, and_true]
  omega

/-- Tasks that fault one after the other, as long as there are ASIDs. -/
theorem allFaulted {n : Nat} (few : n ≤ 254) :
    ∃ s : Asids Nat, FaultRun (fun t => t + 2) 1 s (List.range n).reverse ∧ s.nextAsid = n + 1 := by
  induction n with
  | zero =>
    have start : FaultRun (fun t => t + 2) 1 (pgtableBootstrap ⟨fun _ => 0, 0, fun _ => none, fun _ => 0, fun _ => asidInvalid,
      fun _ => 0, 0, 0⟩ 1) [] := .bootstrap _
    obtain ⟨-, next, -⟩ := asidFlush_spec (fun t : Nat => t + 2) 1
      (s := ⟨fun _ => 0, 0, fun _ => none, fun _ => 0, fun _ => asidInvalid, fun _ => 0, 0, 0⟩) fun a t found => by cases found
    exact ⟨_, start, next⟩
  | succ n ih =>
    obtain ⟨s, run, next⟩ := ih (by omega)
    have left : s.nextAsid ≠ asidInvalid := by
      rw [next, asidInvalid]
      omega
    obtain ⟨s', run', next', -⟩ := turn_fault (n := n) run (by simp) (by rw [if_neg left, next]) few
    refine ⟨s', ?_, next'⟩
    rw [List.range_succ, List.reverse_append]
    exact run'

/-- The fault behind the last ASID flushes the table: the first ASID is now that of the last task. -/
theorem asidBooked_flushed : ∃ s : Asids Nat, s.onlineTasks 1 = some 254 ∧
    FaultRun (fun t => t + 2) 1 s (254 :: (List.range 254).reverse) ∧
    Booked (fun t => t + 2) 1 s (254 :: (List.range 254).reverse) := by
  obtain ⟨s, run, next⟩ := allFaulted le_rfl
  obtain ⟨s', run', -, first⟩ := turn_fault (n := 254) run (by simp) (if_pos next) (by decide)
  exact ⟨s', first, run', asidBooked run'⟩

end FaultRun

end Xv6
