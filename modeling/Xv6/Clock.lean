import Xv6.Lib.Fuel
import Xv6.Sched

namespace Xv6

/-- What `handle_clock` adds to COMPARE in a round. -/
def clockStep : BitVec 32 := 0x10000000

/-- The loop of `handle_clock`, while COUNT stays: what it leaves in COMPARE. -/
def clockLoop (count : BitVec 32) : Nat → BitVec 32 → Res (BitVec 32)
  | 0, _ => .error .diverge
  | fuel + 1, cmp =>
    let cmp := cmp + clockStep
    if cmp - count > clockStep then clockLoop count fuel cmp else .ok cmp

/-- No start needs more than sixteen rounds, see `clockLoop_ends`. -/
def handleClock (s : Sched) (cpu : Nat) (compare count : BitVec 32) : Res (BitVec 32 × Sched) := do
  let compare ← clockLoop count 16 compare
  .ok (compare, ← s.genericCpuTick cpu)

theorem clockLoop_far {cmp count : BitVec 32} (far : cmp + clockStep - count > clockStep) (fuel : Nat) :
    clockLoop count (fuel + 1) cmp = clockLoop count fuel (cmp + clockStep) := by
  rw [clockLoop, if_pos far]

theorem clockLoop_near {cmp count : BitVec 32} (near : ¬ cmp + clockStep - count > clockStep) (fuel : Nat) :
    clockLoop count (fuel + 1) cmp = .ok (cmp + clockStep) := by
  rw [clockLoop, if_neg near]

theorem clockLoop_fueled (count : BitVec 32) : Fueled (clockLoop count) (.error .diverge) where
  zero _ := rfl
  stable n := by
    induction n with
    | zero => exact fun _ done => absurd rfl done
    | succ n ih =>
      intro cmp done
      by_cases far : cmp + clockStep - count > clockStep
      · rw [clockLoop_far far] at done ⊢
        rw [clockLoop_far far]
        exact ih _ done
      · rw [clockLoop_near far, clockLoop_near far]

/-- How far COMPARE is ahead of COUNT after a round. -/
theorem ahead_step (cmp count : BitVec 32) :
    (cmp + clockStep - count).toNat = ((cmp - count).toNat + 2 ^ 28) % 2 ^ 32 := by
  have step : clockStep.toNat = 268435456 := by decide
  have bound := cmp.isLt
  have bound' := count.isLt
  rw [BitVec.toNat_sub, BitVec.toNat_add, BitVec.toNat_sub, step]
  omega

/-- COMPARE goes on from `d` ahead until it wraps, to the remainder of `d`. -/
theorem clockLoop_wraps (count : BitVec 32) (rounds : Nat) {cmp : BitVec 32} (behind : 0 < (cmp - count).toNat)
    (left : 16 - (cmp - count).toNat / 2 ^ 28 = rounds) :
    ∃ x, clockLoop count rounds cmp = .ok x ∧ (x - count).toNat = (cmp - count).toNat % 2 ^ 28 := by
  have bound := (cmp - count).isLt
  have step := ahead_step cmp count
  induction rounds generalizing cmp with
  | zero => omega
  | succ rounds ih =>
    have far : cmp + clockStep - count > clockStep ↔ 2 ^ 28 < (cmp + clockStep - count).toNat := BitVec.lt_def
    by_cases last : rounds = 0
    · refine ⟨_, clockLoop_near (far.not.mpr ?_) _, ?_⟩
      · omega
      · omega
    · rw [clockLoop_far (far.mpr (by omega))]
      obtain ⟨x, done, ahead⟩ := @ih (cmp + clockStep) (by omega) (by omega) (BitVec.isLt _) (ahead_step _ _)
      exact ⟨x, done, by omega⟩

/-- What the loop leaves: a whole step ahead from COUNT itself, and else the remainder of the way. -/
theorem clockLoop_ends (compare count : BitVec 32) :
    ∃ x, clockLoop count 16 compare = .ok x ∧
      (x - count).toNat = if compare = count then 2 ^ 28 else (compare - count).toNat % 2 ^ 28 := by
  have step := ahead_step compare count
  by_cases here : compare = count
  · subst here
    rw [BitVec.sub_self compare, BitVec.toNat_zero] at step
    have near : ¬ compare + clockStep - compare > clockStep := by
      rw [gt_iff_lt, BitVec.lt_def, step]
      decide
    refine ⟨_, clockLoop_near near 15, ?_⟩
    rw [if_pos rfl, step]
    decide
  · have behind : 0 < (compare - count).toNat := by
      rw [Nat.pos_iff_ne_zero]
      intro zero
      exact here (by simpa [BitVec.sub_eq_iff_eq_add] using BitVec.eq_of_toNat_eq (y := 0) zero)
    obtain ⟨x, done, ahead⟩ := clockLoop_wraps count _ behind rfl
    have enough : 16 - (compare - count).toNat / 2 ^ 28 ≤ 16 := Nat.sub_le _ _
    refine ⟨x, ?_, by rw [if_neg here, ahead]⟩
    rw [(clockLoop_fueled count).more enough (by rw [done]; nofun), done]

/-- The loop comes to an end, and leaves COMPARE ahead of COUNT by at most one step. -/
def Rearms (compare count : BitVec 32) : Prop :=
  ∃ rounds x, (∀ fuel, rounds ≤ fuel → clockLoop count fuel compare = .ok x) ∧
    0 < (x - count).toNat ∧ (x - count).toNat ≤ 2 ^ 28

/-- The loop always comes to an end, but stops at COUNT when a whole number of steps is missing. -/
theorem handleClock_rearms (compare count : BitVec 32) :
    (∃ x, ∀ fuel, 16 ≤ fuel → clockLoop count fuel compare = .ok x) ∧
    (Rearms compare count ↔ compare = count ∨ (compare - count).toNat % 2 ^ 28 ≠ 0) := by
  obtain ⟨x, done, ahead⟩ := clockLoop_ends compare count
  have always : ∀ fuel, 16 ≤ fuel → clockLoop count fuel compare = .ok x := by
    intro fuel enough
    rw [(clockLoop_fueled count).more enough (by rw [done]; nofun), done]
  refine ⟨⟨x, always⟩, ?_⟩
  constructor
  · rintro ⟨rounds, y, ends, positive, -⟩
    have same : Except.ok y = (Except.ok x : Res (BitVec 32)) := by
      rw [← ends (max rounds 16) (Nat.le_max_left ..), ← always (max rounds 16) (Nat.le_max_right ..)]
    obtain rfl : y = x := Except.ok.inj same
    by_contra missing
    rw [not_or, not_not] at missing
    rw [if_neg missing.1, missing.2] at ahead
    omega
  · intro condition
    refine ⟨16, x, always, ?_, ?_⟩
    · split at ahead
      · omega
      · rename_i other
        have rest := condition.resolve_left other
        omega
    · split at ahead
      · omega
      · omega

/-- One step is missing: COMPARE is left at COUNT. -/
theorem handleClock_stops_at_count : ¬ ∀ compare count : BitVec 32, Rearms compare count := by
  intro always
  have condition := (handleClock_rearms 0xf0000000 0).2.mp (always _ _)
  exact absurd condition (by decide)

end Xv6
