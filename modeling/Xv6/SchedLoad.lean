import Xv6.SchedRuns

namespace Xv6.Sched

/-- `sched_enqueue_minload` puts the task on a queue with the least payload. -/
def LeastLoaded (s : Sched) (t : Nat) : Prop :=
  ∃ s' cpu, s.schedEnqueueMinload t = .ok s' ∧ (s'.se t).rq = some cpu ∧ cpu < nrCpus ∧
    ∀ c, c < nrCpus → (s.rq cpu).payload ≤ (s.rq c).payload

/-- The payloads of two queues differ by one at most. -/
def Balanced (s : Sched) : Prop := ∀ c d, c < nrCpus → d < nrCpus → (s.rq c).payload ≤ (s.rq d).payload + 1

/-- A run of `n` calls of `sched_enqueue_minload` from empty queues. -/
inductive MinloadRun : Nat → Sched → Prop
  | start {s : Sched} : (∀ c, c < nrCpus → (s.rq c).payload = 0) → MinloadRun 0 s
  | enqueue {n t : Nat} {s s' : Sched} : MinloadRun n s → s.schedEnqueueMinload t = .ok s' → MinloadRun (n + 1) s'

/-- The loop keeps the queue with the largest payload. -/
theorem payload_le_minload (s : Sched) {n c : Nat} (bound : c < n) : (s.rq c).payload ≤ (s.rq (s.minload n)).payload := by
  induction n with
  | zero => omega
  | succ n ih =>
    rw [minload]
    by_cases last : c = n
    · subst last
      split <;> omega
    · have before := ih (by omega)
      split <;> omega

/-- It stays with the first queue, when no payload is larger. -/
theorem minload_eq_zero (s : Sched) {n : Nat} (first : ∀ c, c < n → (s.rq c).payload ≤ (s.rq 0).payload) : s.minload n = 0 := by
  induction n with
  | zero => rfl
  | succ n ih =>
    have last := first n (Nat.lt_succ_self n)
    rw [minload, ih fun c bound => first c (by omega), if_neg (by omega)]

theorem schedEnqueueMinload_rq {s s' : Sched} {t : Nat} (done : s.schedEnqueueMinload t = .ok s') :
    (s'.se t).rq = some (s.minload nrCpus) ∧ ∀ c, (s'.rq c).payload =
      if c = s.minload nrCpus then (s.rq c).payload + 1 else (s.rq c).payload := by
  by_cases out : (s.se t).rq = none
  · rw [schedEnqueueMinload, schedEnqueue_eq _ out, Except.ok.injEq] at done
    subst done
    refine ⟨by simp [enqueued_se], fun c => ?_⟩
    by_cases here : c = s.minload nrCpus
    · subst here
      simp [enqueued, setRq, setPayload]
    · simp [enqueued, setRq, setPayload, here]
  · rw [schedEnqueueMinload, schedEnqueue, if_neg out] at done
    cases done

theorem leastLoaded_iff {s : Sched} {t : Nat} (out : (s.se t).rq = none) :
    s.LeastLoaded t ↔ ∀ c d, c < nrCpus → d < nrCpus → (s.rq c).payload = (s.rq d).payload := by
  constructor
  · rintro ⟨s', cpu, done, queued, -, least⟩ c d cBound dBound
    rw [(schedEnqueueMinload_rq done).1, Option.some.injEq] at queued
    subst queued
    have above := s.payload_le_minload cBound
    have above' := s.payload_le_minload dBound
    have below := least c cBound
    have below' := least d dBound
    omega
  · intro equal
    have done : s.schedEnqueueMinload t = .ok (s.enqueued (s.minload nrCpus) t) := schedEnqueue_eq _ out
    exact ⟨_, _, done, (schedEnqueueMinload_rq done).1, s.minload_bound, fun c bound =>
      le_of_eq (equal _ c s.minload_bound bound)⟩

/-- All calls of a run go to the first queue. -/
theorem MinloadRun.payload {n : Nat} {s : Sched} (run : MinloadRun n s) :
    ∀ c, c < nrCpus → (s.rq c).payload = if c = 0 then n else 0 := by
  induction run with
  | start empty =>
    intro c bound
    rw [empty c bound, ite_self]
  | @enqueue n t s s' _ done ih =>
    have first : s.minload nrCpus = 0 := by
      refine s.minload_eq_zero fun c bound => ?_
      rw [ih c bound, ih 0 (by decide), if_pos rfl]
      split <;> omega
    intro c bound
    rw [(schedEnqueueMinload_rq done).2 c, first, ih c bound]
    by_cases here : c = 0
    · simp [here]
    · simp [here]

theorem MinloadRun.balanced_iff {n : Nat} {s : Sched} (run : MinloadRun n s) : s.Balanced ↔ n ≤ 1 := by
  constructor
  · intro balanced
    have bound := balanced 0 1 (by decide) (by decide)
    rwa [run.payload 0 (by decide), run.payload 1 (by decide), if_pos rfl, if_neg (by decide)] at bound
  · intro few c d cBound dBound
    rw [run.payload c cBound, run.payload d dBound]
    split <;> omega

/-- The queue is a least loaded one exactly when all are loaded alike, so that a run is unbalanced from its second
call on. -/
theorem minload_balances {s s' : Sched} {t n : Nat} (out : (s.se t).rq = none) (run : MinloadRun n s') :
    (s.LeastLoaded t ↔ ∀ c d, c < nrCpus → d < nrCpus → (s.rq c).payload = (s.rq d).payload) ∧ (s'.Balanced ↔ n ≤ 1) :=
  ⟨leastLoaded_iff out, run.balanced_iff⟩

theorem blank_run (t : Nat) : MinloadRun 1 ((blank 0).enqueued 0 t) :=
  .enqueue (.start fun _ _ => rfl) (show (blank 0).schedEnqueueMinload t = _ from schedEnqueue_eq _ rfl)

/-- The first two calls. -/
theorem minload_balances_two : (blank 0).LeastLoaded 5 ∧ ((blank 0).enqueued 0 5).Balanced ∧ ¬ ((blank 0).enqueued 0 5).LeastLoaded 6 := by
  obtain ⟨first, balanced⟩ := minload_balances (s := blank 0) (t := 5) rfl (blank_run 5)
  obtain ⟨second, -⟩ := minload_balances (s := (blank 0).enqueued 0 5) (t := 6) rfl (blank_run 5)
  refine ⟨first.mpr fun _ _ _ _ => rfl, balanced.mpr le_rfl, fun least => ?_⟩
  exact absurd (second.mp least 0 1 (by decide) (by decide)) (by decide)

/-- The second task joins the first, with three queues empty. -/
theorem not_minload_balances : ¬ (∀ (s : Sched) (t : Nat), (s.se t).rq = none → s.LeastLoaded t) ∧
    ¬ ∀ (n : Nat) (s : Sched), MinloadRun n s → s.Balanced := by
  have out : (((blank 0).enqueued 0 5).se 6).rq = none := rfl
  refine ⟨fun always => ?_, fun always => ?_⟩
  · have equal := (leastLoaded_iff out).mp (always _ 6 out) 0 1 (by decide) (by decide)
    exact absurd equal (by decide)
  · have second : ((blank 0).enqueued 0 5).schedEnqueueMinload 6 = .ok (((blank 0).enqueued 0 5).enqueued 0 6) :=
      schedEnqueue_eq _ out
    have run := (blank_run 5).enqueue second
    exact absurd (run.balanced_iff.mp (always _ _ run)) (by decide)

end Xv6.Sched
