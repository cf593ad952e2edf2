import Mathlib.Data.Nat.Init
import Mathlib.Order.Basic
import Mathlib.Tactic.ByContra

namespace Xv6

variable {σ ρ : Type*}

/-- A loop that runs on fuel: without fuel it answers `out`, and more fuel does
not change any other answer. -/
structure Fueled (E : Nat → σ → ρ) (out : ρ) : Prop where
  zero : ∀ s, E 0 s = out
  stable : ∀ n s, E n s ≠ out → E (n + 1) s = E n s

/-- From `s` the loop gets to `t`, in at least one round. -/
def Segment (E : Nat → σ → ρ) (s t : σ) : Prop := ∃ c, 0 < c ∧ ∀ n, E (n + c) s = E n t

theorem Segment.one {E : Nat → σ → ρ} {s t : σ} (step : ∀ n, E (n + 1) s = E n t) : Segment E s t :=
  ⟨1, by decide, step⟩

theorem Segment.trans {E : Nat → σ → ρ} {s t u : σ} (first : Segment E s t) (second : Segment E t u) :
    Segment E s u := by
  obtain ⟨c, positive, run⟩ := first
  obtain ⟨d, -, run'⟩ := second
  refine ⟨d + c, by omega, fun n => ?_⟩
  rw [← Nat.add_assoc, run, run']

theorem Fueled.more {E : Nat → σ → ρ} {out : ρ} (fueled : Fueled E out) {n m : Nat} {s : σ} (le : n ≤ m)
    (done : E n s ≠ out) : E m s = E n s := by
  induction m, le using Nat.le_induction with
  | base => rfl
  | succ m _ ih => rw [fueled.stable m s (ih ▸ done), ih]

/-- Two runs that come to an end have the same answer. -/
theorem Fueled.same {E : Nat → σ → ρ} {out : ρ} (fueled : Fueled E out) {n m : Nat} {s : σ}
    (left : E n s ≠ out) (right : E m s ≠ out) : E n s = E m s := by
  rcases Nat.le_total n m with le | le
  · exact (fueled.more le left).symm
  · exact fueled.more le right

theorem Segment.answer {E : Nat → σ → ρ} {out r : ρ} (fueled : Fueled E out) {s t : σ} (segment : Segment E s t)
    (different : r ≠ out) : (∃ n, E n s = r) ↔ ∃ n, E n t = r := by
  obtain ⟨c, -, run⟩ := segment
  constructor
  · rintro ⟨n, done⟩
    have same := fueled.more (Nat.le_add_right n c) (done ▸ different)
    exact ⟨n, by rw [← run, same, done]⟩
  · rintro ⟨n, done⟩
    exact ⟨n + c, by rw [run, done]⟩

/-- A loop that can always go on never comes to an end. -/
theorem Fueled.runs_out {E : Nat → σ → ρ} {out : ρ} (fueled : Fueled E out) (I : σ → Prop)
    (progress : ∀ s, I s → ∃ t, Segment E s t ∧ I t) (n : Nat) {s : σ} (start : I s) : E n s = out := by
  induction n using Nat.strongRecOn generalizing s with
  | ind n ih =>
    obtain ⟨t, ⟨c, positive, run⟩, next⟩ := progress s start
    by_cases enough : c ≤ n
    · have back : n - c + c = n := by omega
      rw [← back, run]
      exact ih (n - c) (by omega) next
    · by_contra done
      have longer := fueled.more (Nat.le_of_not_le enough) done
      have short := run 0
      rw [Nat.zero_add, fueled.zero, longer] at short
      exact done short

end Xv6
