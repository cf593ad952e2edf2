import Xv6.Lib.Fifo
import Xv6.SchedSpec
import Mathlib.Data.List.Rotate

namespace Xv6

namespace Sched

/-- The lists after the current task of a CPU was put into the queue `sched_enqueue_minload` picks. -/
def pushed (s : Sched) (Q : Nat → Nat → List Nat) (t : Nat) : Nat → Nat → List Nat :=
  let cpu := s.minload nrCpus
  let i := s.enqueueIndex cpu t
  setQueue Q cpu i (Q cpu i ++ [t])

theorem minload_bound (s : Sched) : s.minload nrCpus < nrCpus := minload_lt (by decide)

/-- `sched`: the current task goes into a queue, and the first task of the line of
the CPU runs, or its idle task when the line is empty. -/
theorem Queues.sched {s : Sched} {Q : Nat → Nat → List Nat} (queues : Queues s Q) {cpu : Nat} (bound : cpu < nrCpus)
    (out : (s.se (s.current cpu)).rq = none) :
    Queues (s.enqueued (s.minload nrCpus) (s.current cpu)) (s.pushed Q (s.current cpu)) ∧
    (((s.enqueued (s.minload nrCpus) (s.current cpu)).line (s.pushed Q (s.current cpu)) cpu = [] ∧
      s.sched cpu = .ok ((s.enqueued (s.minload nrCpus) (s.current cpu)).switchTask cpu (s.idle cpu))) ∨
    ∃ t s₂ s' Q', (s.enqueued (s.minload nrCpus) (s.current cpu)).schedPick cpu = .ok (some t, s₂) ∧
      s₂.schedDequeue t = .ok s' ∧ s.sched cpu = .ok (s'.switchTask cpu t) ∧ Queues (s'.switchTask cpu t) Q' ∧
      (s.enqueued (s.minload nrCpus) (s.current cpu)).line (s.pushed Q (s.current cpu)) cpu = t :: s'.line Q' cpu ∧
      s'.current = s.current ∧ s'.idle = s.idle ∧
      s'.se = Function.update (s.enqueued (s.minload nrCpus) (s.current cpu)).se t
        { (s.enqueued (s.minload nrCpus) (s.current cpu)).se t with rq := none } ∧
      ((s'.rq cpu).run ≠ ((s.enqueued (s.minload nrCpus) (s.current cpu)).rq cpu).run →
        s.pushed Q (s.current cpu) cpu ((s.enqueued (s.minload nrCpus) (s.current cpu)).rq cpu).run = [])) := by
  have queues₁ := queues.enqueue s.minload_bound out
  have enqueue : s.schedEnqueueMinload (s.current cpu) = .ok (s.enqueued (s.minload nrCpus) (s.current cpu)) :=
    schedEnqueue_eq _ out
  refine ⟨queues₁, ?_⟩
  rcases queues₁.pick bound with ⟨empty, none⟩ | ⟨t, s₂, s', Q', pick, dequeue, queues', lines, current, idle, se, -, stay⟩
  · refine .inl ⟨empty, ?_⟩
    rw [Sched.sched, enqueue, Res.ok_bind, none, Res.ok_bind]
    rfl
  · refine .inr ⟨t, s₂, s', Q', pick, dequeue, ?_, ⟨queues'.roles, queues'.ring, queues'.payload, queues'.queued,
      queues'.once⟩, lines, current, idle, se, ?_⟩
    · rw [Sched.sched, enqueue, Res.ok_bind, pick, Res.ok_bind]
      simp only [dequeue, Res.ok_bind]
    · intro moved
      by_contra more
      exact moved (stay more).1

/-- Every task is current on one CPU or in one list, once, and current tasks are
in no list. -/
structure Conserved (tasks : List Nat) (s : Sched) : Prop where
  distinct : ∀ c d, c < nrCpus → d < nrCpus → s.current c = s.current d → c = d
  out : ∀ c, c < nrCpus → (s.se (s.current c)).rq = none
  lists : ∃ Q, Queues s Q ∧ (∀ c d i, c < nrCpus → d < nrCpus → i < 2 → s.current c ∉ Q d i) ∧
    ∀ t ∈ tasks, (∃ c, c < nrCpus ∧ s.current c = t) ∨
      ∃ c i, c < nrCpus ∧ i < 2 ∧ (Q c i).count t = 1 ∧ ∀ d j, d < nrCpus → j < 2 → t ∈ Q d j → d = c ∧ j = i

/-- Conservation in terms of the back pointers of the tasks. -/
theorem conserved_iff {tasks : List Nat} {s : Sched} {Q : Nat → Nat → List Nat} (queues : Queues s Q) :
    Conserved tasks s ↔ (∀ c d, c < nrCpus → d < nrCpus → s.current c = s.current d → c = d) ∧
      (∀ c, c < nrCpus → (s.se (s.current c)).rq = none) ∧
      ∀ t ∈ tasks, (∃ c, c < nrCpus ∧ s.current c = t) ∨ (s.se t).rq ≠ none := by
  constructor
  · rintro ⟨distinct, out, P, queues', -, every⟩
    refine ⟨distinct, out, fun t member => (every t member).imp id ?_⟩
    rintro ⟨c, i, bound, list, once, -⟩
    have inside : t ∈ P c i := List.count_pos_iff.mp (by omega)
    rw [queues'.rq_of_mem bound list inside]
    simp
  · rintro ⟨distinct, out, every⟩
    refine ⟨distinct, out, Q, queues, ?_, fun t member => (every t member).imp id ?_⟩
    · intro c d i cBound dBound list inside
      have known := out c cBound
      rw [queues.rq_of_mem dBound list inside] at known
      cases known
    · intro queued
      obtain ⟨c, known⟩ := Option.ne_none_iff_exists'.mp queued
      obtain ⟨bound, inside⟩ := (queues.queued t c).mp known
      obtain ⟨i, list, inside⟩ : ∃ i, i < 2 ∧ t ∈ Q c i := by
        rcases inside with left | right
        · exact ⟨0, by omega, left⟩
        · exact ⟨1, by omega, right⟩
      refine ⟨c, i, bound, list, List.count_eq_one_of_mem (queues.nodup bound list) inside, ?_⟩
      intro d j dBound jBound there
      exact queues.apart bound list dBound jBound inside there

end Sched

/-- The scheduler right after boot: `sched_init`, each CPU runs its idle task, and
the other tasks are enqueued on any run queue. -/
inductive SchedBoot : Sched → List Nat → Prop
  | init {s : Sched} (idles : ∀ c d, c < nrCpus → d < nrCpus → s.idle c = s.idle d → c = d)
      (current : ∀ c, c < nrCpus → s.current c = s.idle c) (out : ∀ t, (s.se t).rq = none) :
      SchedBoot s.schedInit ((List.range nrCpus).map s.idle)
  | enqueue {s s' : Sched} {tasks : List Nat} {c t : Nat} (boot : SchedBoot s tasks) (bound : c < nrCpus)
      (new : t ∉ tasks) (done : s.schedEnqueue c t = .ok s') : SchedBoot s' (t :: tasks)

/-- The CPUs call `sched` in any order, where `safe` holds. -/
inductive SmpRun (safe : Sched → Nat → Prop) : Sched → List Nat → Prop
  | boot {s : Sched} {tasks : List Nat} (boot : SchedBoot s tasks) : SmpRun safe s tasks
  | sched {s s' : Sched} {tasks : List Nat} {c : Nat} (run : SmpRun safe s tasks) (bound : c < nrCpus)
      (met : safe s c) (done : s.sched c = .ok s') : SmpRun safe s' tasks

/-- The CPU will find a task in its own queue. -/
def FindsTask (s : Sched) (c : Nat) : Prop := (s.rq c).payload ≠ 0 ∨ s.minload nrCpus = c

namespace Sched

theorem initRqs_frame (s : Sched) (n : Nat) :
    (s.initRqs n).se = s.se ∧ (s.initRqs n).current = s.current ∧ (s.initRqs n).idle = s.idle := by
  induction n with
  | zero => exact ⟨rfl, rfl, rfl⟩
  | succ n ih => exact ih

theorem initRqs_rq (s : Sched) {n c : Nat} (bound : c < n) :
    (s.initRqs n).rq c = { run := 0, exhaust := 1, payload := 0 } := by
  induction n with
  | zero => omega
  | succ n ih =>
    by_cases last : c = n
    · simp [initRqs, initRq, last]
    · simpa [initRqs, initRq, last] using ih (by omega)

theorem initRqs_ring (s : Sched) {n c i : Nat} (bound : c < n) (list : i < 2) :
    (s.initRqs n).link.IsRing (.head c i) [] := by
  induction n with
  | zero => omega
  | succ n ih =>
    have keep : ∀ (L : Links SchedNode) (d j : Nat), L.IsRing (.head c i) [] → (d, j) ≠ (c, i) →
        (L.init (.head d j)).IsRing (.head c i) [] := by
      intro L d j ring other
      refine ring.congr (fun y member => Links.init_same _ ?_)
      simp only [List.mem_singleton] at member
      rintro rfl
      cases member
      exact other rfl
    by_cases last : c = n
    · subst last
      obtain rfl | rfl : i = 0 ∨ i = 1 := by omega
      · exact keep _ c 1 (Links.init_ring _ _) (by simp)
      · exact Links.init_ring _ _
    · exact keep _ n 1 (keep _ n 0 (ih (by omega)) (by simp; omega)) (by simp; omega)

theorem schedInit_queues {s : Sched} (out : ∀ t, (s.se t).rq = none) : Queues s.schedInit (fun _ _ => []) := by
  refine ⟨?_, ?_, ?_, ?_, by simp⟩
  · intro c bound
    rw [schedInit, initRqs_rq s bound]
    exact .inl ⟨rfl, rfl⟩
  · intro c i bound list
    exact s.initRqs_ring bound list
  · intro c bound
    rw [schedInit, initRqs_rq s bound]
    rfl
  · intro t c
    rw [schedInit, (s.initRqs_frame nrCpus).1, out]
    simp

theorem enqueued_se (s : Sched) (cpu t : Nat) :
    (s.enqueued cpu t).se = Function.update s.se t { s.se t with rq := some cpu } := rfl

theorem switchTask_se (s : Sched) (cpu t : Nat) : (s.switchTask cpu t).se = s.se := rfl

theorem pushed_mem {s : Sched} {Q : Nat → Nat → List Nat} (queues : Queues s Q) {c u : Nat} (old : Nat) :
    (u ∈ s.pushed Q old c 0 ∨ u ∈ s.pushed Q old c 1) ↔
      (u ∈ Q c 0 ∨ u ∈ Q c 1) ∨ (u = old ∧ c = s.minload nrCpus) := by
  have list : s.enqueueIndex (s.minload nrCpus) old < 2 := queues.enqueueIndex_lt s.minload_bound
  simp only [pushed, setQueue_apply]
  by_cases here : c = s.minload nrCpus
  · rw [← here] at list ⊢
    obtain same | same : s.enqueueIndex c old = 0 ∨ s.enqueueIndex c old = 1 := by omega
    · rw [same]
      simp
      grind
    · rw [same]
      simp
      grind
  · simp [here]

/-- The line is empty after the enqueue exactly when the CPU does not find a task. -/
theorem findsTask_iff {s : Sched} {Q : Nat → Nat → List Nat} (queues : Queues s Q) {c old : Nat} (bound : c < nrCpus)
    (pushed : Queues (s.enqueued (s.minload nrCpus) old) (s.pushed Q old)) :
    FindsTask s c ↔ (s.enqueued (s.minload nrCpus) old).line (s.pushed Q old) c ≠ [] := by
  rw [FindsTask, queues.payload c bound]
  constructor
  · intro finds empty
    have none : ∀ u, ¬ ((u ∈ Q c 0 ∨ u ∈ Q c 1) ∨ (u = old ∧ c = s.minload nrCpus)) := by
      intro u inside
      have member := (pushed.mem_line bound).mpr ((pushed_mem queues _).mpr inside)
      rw [empty] at member
      cases member
    rcases finds with some | here
    · rcases Nat.lt_or_ge 0 (Q c 0).length with first | short
      · obtain ⟨u, inside⟩ := List.exists_mem_of_length_pos first
        exact none u (.inl (.inl inside))
      · obtain ⟨u, inside⟩ := List.exists_mem_of_length_pos (show 0 < (Q c 1).length by omega)
        exact none u (.inl (.inr inside))
    · exact none old (.inr ⟨rfl, here.symm⟩)
  · intro some
    obtain ⟨u, inside⟩ := List.exists_mem_of_ne_nil _ some
    rcases (pushed_mem queues _).mp ((pushed.mem_line bound).mp inside) with (left | right) | ⟨-, here⟩
    · have positive := List.length_pos_of_mem left
      exact .inl (by omega)
    · have positive := List.length_pos_of_mem right
      exact .inl (by omega)
    · exact .inr here.symm

/-- One call of `sched` never fails its assertions, and it conserves the tasks
exactly when the CPU finds a task in its queue. -/
theorem Conserved.sched {tasks : List Nat} {s : Sched} {c : Nat} (conserved : Conserved tasks s) (bound : c < nrCpus) :
    ∃ s', s.sched c = .ok s' ∧ s'.idle = s.idle ∧ (FindsTask s c → Conserved tasks s') ∧
      (s.idle c ∈ tasks → ¬ FindsTask s c → ¬ Conserved tasks s') := by
  obtain ⟨Q, queues, -, -⟩ := conserved.lists
  obtain ⟨distinct, out, every⟩ := (conserved_iff queues).mp conserved
  obtain ⟨queues₁, outcome⟩ := queues.sched bound (out c bound)
  have finds := findsTask_iff queues bound queues₁
  have others : ∀ u, u ≠ s.current c → (s.enqueued (s.minload nrCpus) (s.current c)).se u = s.se u := by
    intro u other
    rw [enqueued_se, Function.update_of_ne other]
  have old : ((s.enqueued (s.minload nrCpus) (s.current c)).se (s.current c)).rq = some (s.minload nrCpus) := by
    rw [enqueued_se, Function.update_self]
  rcases outcome with ⟨empty, run⟩ | ⟨t, s₂, s', Q', -, -, run, queues', lines, current, idle, se, -⟩
  · refine ⟨_, run, rfl, fun found => absurd empty (finds.mp found), fun listed _ broken => ?_⟩
    have now : ((s.enqueued (s.minload nrCpus) (s.current c)).switchTask c (s.idle c)).current c = s.idle c := by
      simp [switchTask]
    have none := broken.out c bound
    rw [now] at none
    rcases every _ listed with ⟨d, dBound, there⟩ | queued
    · by_cases same : d = c
      · rw [same] at there
        rw [switchTask_se, ← there, old] at none
        cases none
      · refine same (broken.distinct d c dBound bound ?_)
        rw [now, ← there]
        simp [switchTask, same, enqueued, setRq, setPayload]
    · have apart : s.idle c ≠ s.current c := by
        intro same
        rw [same, out c bound] at queued
        exact queued rfl
      have kept : ((s.enqueued (s.minload nrCpus) (s.current c)).switchTask c (s.idle c)).se (s.idle c) =
          s.se (s.idle c) := others _ apart
      rw [kept] at none
      exact queued none
  · refine ⟨_, run, idle, fun _ => ?_, fun _ missed => absurd (finds.mpr (by rw [lines]; simp)) missed⟩
    have queuedT : ((s.enqueued (s.minload nrCpus) (s.current c)).se t).rq = some c := by
      refine (queues₁.queued t c).mpr ⟨bound, (queues₁.mem_line bound).mp ?_⟩
      rw [lines]
      exact List.mem_cons_self ..
    have now : ∀ d, (s'.switchTask c t).current d = if d = c then t else s.current d := by
      intro d
      by_cases same : d = c
      · simp [switchTask, same]
      · simp [switchTask, same, current]
    have elsewhere : ∀ d, d < nrCpus → d ≠ c → s.current d ≠ s.current c ∧ s.current d ≠ t := by
      intro d dBound other
      have apart : s.current d ≠ s.current c := fun same => other (distinct d c dBound bound same)
      refine ⟨apart, ?_⟩
      rintro rfl
      rw [others _ apart, out d dBound] at queuedT
      cases queuedT
    have rest : ∀ u, u ≠ t → u ≠ s.current c → (s'.switchTask c t).se u = s.se u := by
      intro u notT notOld
      rw [switchTask_se, se, Function.update_of_ne notT, others u notOld]
    refine (conserved_iff queues').mpr ⟨?_, ?_, ?_⟩
    · intro d e dBound eBound same
      rw [now, now] at same
      by_cases dc : d = c
      · by_cases ec : e = c
        · rw [dc, ec]
        · rw [if_pos dc, if_neg ec] at same
          exact absurd same.symm (elsewhere e eBound ec).2
      · by_cases ec : e = c
        · rw [if_neg dc, if_pos ec] at same
          exact absurd same (elsewhere d dBound dc).2
        · rw [if_neg dc, if_neg ec] at same
          exact distinct d e dBound eBound same
    · intro d dBound
      rw [now]
      by_cases dc : d = c
      · rw [if_pos dc, switchTask_se, se, Function.update_self]
      · rw [if_neg dc, rest _ (elsewhere d dBound dc).2 (elsewhere d dBound dc).1]
        exact out d dBound
    · intro u member
      by_cases isT : u = t
      · exact .inl ⟨c, bound, by rw [now, if_pos rfl, isT]⟩
      · rcases every u member with ⟨d, dBound, there⟩ | queued
        · by_cases dc : d = c
          · right
            rw [switchTask_se, se, Function.update_of_ne isT, ← there, dc, old]
            simp
          · exact .inl ⟨d, dBound, by rw [now, if_neg dc, there]⟩
        · right
          rw [rest u isT (fun same => queued (same ▸ out c bound))]
          exact queued

theorem Conserved.enqueue {tasks : List Nat} {s : Sched} {c t : Nat} (conserved : Conserved tasks s) (bound : c < nrCpus)
    (new : ∀ d, d < nrCpus → s.current d ≠ t) (out : (s.se t).rq = none) : Conserved (t :: tasks) (s.enqueued c t) := by
  obtain ⟨Q, queues, -, -⟩ := conserved.lists
  obtain ⟨distinct, free, every⟩ := (conserved_iff queues).mp conserved
  refine (conserved_iff (queues.enqueue bound out)).mpr ⟨distinct, ?_, ?_⟩
  · intro d dBound
    rw [enqueued_se]
    exact (Function.update_of_ne (new d dBound) ..) ▸ free d dBound
  · intro u member
    rcases List.mem_cons.mp member with rfl | old
    · right
      rw [enqueued_se, Function.update_self]
      simp
    · refine (every u old).imp id (fun queued => ?_)
      have apart : u ≠ t := fun same => queued (same ▸ out)
      rwa [enqueued_se, Function.update_of_ne apart]

end Sched

theorem SchedBoot.bootConserved {s : Sched} {tasks : List Nat} (boot : SchedBoot s tasks) :
    s.Conserved tasks ∧ ∀ c, c < nrCpus → s.current c = s.idle c ∧ s.idle c ∈ tasks := by
  induction boot with
  | @init s idles current out =>
    obtain ⟨se, cur, idle⟩ := s.initRqs_frame nrCpus
    refine ⟨(Sched.conserved_iff (Sched.schedInit_queues out)).mpr ⟨?_, ?_, ?_⟩, ?_⟩
    · intro c d cBound dBound same
      rw [Sched.schedInit, cur, current c cBound, current d dBound] at same
      exact idles c d cBound dBound same
    · intro c bound
      rw [Sched.schedInit, se]
      exact out _
    · intro t member
      obtain ⟨c, inside, rfl⟩ := List.mem_map.mp member
      have bound := List.mem_range.mp inside
      exact .inl ⟨c, bound, by rw [Sched.schedInit, cur, current c bound]⟩
    · intro c bound
      rw [Sched.schedInit, cur, idle]
      exact ⟨current c bound, List.mem_map.mpr ⟨c, List.mem_range.mpr bound, rfl⟩⟩
  | @enqueue s s' tasks c t _ bound new done ih =>
    obtain ⟨conserved, idles⟩ := ih
    have out : (s.se t).rq = none := by
      by_contra queued
      rw [Sched.schedEnqueue, if_neg queued] at done
      cases done
    rw [Sched.schedEnqueue_eq c out] at done
    cases done
    refine ⟨conserved.enqueue bound ?_ out, fun d dBound => ⟨(idles d dBound).1, List.mem_cons_of_mem _ (idles d dBound).2⟩⟩
    intro d dBound same
    exact new (same ▸ (idles d dBound).1 ▸ (idles d dBound).2)

/-- As long as every CPU that calls `sched` finds a task in its own queue, the
tasks are conserved, in any interleaving. -/
theorem SmpRun.conserved {s : Sched} {tasks : List Nat} (run : SmpRun FindsTask s tasks) :
    s.Conserved tasks ∧ ∀ c, c < nrCpus → s.idle c ∈ tasks ∧ ∃ s', s.sched c = .ok s' := by
  have kept : s.Conserved tasks ∧ ∀ c, c < nrCpus → s.idle c ∈ tasks := by
    induction run with
    | boot boot => exact ⟨boot.bootConserved.1, fun c bound => (boot.bootConserved.2 c bound).2⟩
    | sched _ bound met done ih =>
      obtain ⟨s', run, idle, conserved, -⟩ := ih.1.sched bound
      rw [done] at run
      cases run
      exact ⟨conserved met, by rw [idle]; exact ih.2⟩
  refine ⟨kept.1, fun c bound => ⟨kept.2 c bound, ?_⟩⟩
  obtain ⟨s', run, -⟩ := kept.1.sched bound
  exact ⟨s', run⟩

/-- A machine before `sched_init` whose tasks all have the priority `priority`. -/
def Sched.blank (priority : Nat) : Sched :=
  { rq := fun _ => ⟨0, 0, 0⟩
    link := ⟨id, id⟩
    se := fun _ => ⟨none, priority, 0⟩
    state := fun _ => 0
    current := id
    idle := id }

theorem SchedBoot.blank (priority : Nat) : SchedBoot (Sched.blank priority).schedInit ((List.range nrCpus).map id) :=
  SchedBoot.init (s := Sched.blank priority) (fun _ _ _ _ same => same) (fun _ _ => rfl) (fun _ => rfl)

instance (s : Sched) (c : Nat) : Decidable (FindsTask s c) := inferInstanceAs (Decidable (_ ∨ _))

/-- Task 8 waits for CPU 0, task 9 for CPU 1. -/
def Sched.loaded : Sched :=
  let s := (Sched.blank 0).schedInit
  (s.schedEnqueue 0 8 >>= fun s => s.schedEnqueue 1 9).value s

theorem SchedBoot.loaded : SchedBoot Sched.loaded [9, 8, 0, 1, 2, 3] := by
  obtain ⟨s, eight, nine⟩ := Res.bind_eq_ok.mp (Res.eq_value (Sched.blank 0).schedInit
    (x := (Sched.blank 0).schedInit.schedEnqueue 0 8 >>= fun s => s.schedEnqueue 1 9) (by decide +kernel))
  exact ((SchedBoot.blank 0).enqueue (by decide) (by decide) eight).enqueue (by decide) (by decide) nine

/-- CPU `c` calls `sched`. -/
def Sched.turn (s : Sched) (c : Nat) : Sched := (s.sched c).value s

theorem SmpRun.turn {s : Sched} {tasks : List Nat} (run : SmpRun FindsTask s tasks) (c : Nat)
    (finds : c < nrCpus ∧ FindsTask s c ∧ (s.sched c).isOk = true) : SmpRun FindsTask (s.turn c) tasks :=
  run.sched finds.1 finds.2.1 (Res.eq_value s finds.2.2)

/-- CPU 0 goes on with task 8, CPU 1 with task 9, and CPU 0 goes back to its idle task. -/
theorem SmpRun.conserved_turns : ∃ s, SmpRun FindsTask s [9, 8, 0, 1, 2, 3] ∧ (s.current 0 = 0 ∧ s.current 1 = 9) ∧
    (s.Conserved [9, 8, 0, 1, 2, 3] ∧ ∀ c, c < nrCpus → s.idle c ∈ [9, 8, 0, 1, 2, 3] ∧ ∃ s', s.sched c = .ok s') := by
  have start : SmpRun FindsTask _ _ := .boot .loaded
  have run := ((start.turn 0 (by decide +kernel)).turn 1 (by decide +kernel)).turn 0 (by decide +kernel)
  exact ⟨_, run, by decide +kernel, run.conserved⟩

/-- CPU 1 puts its idle task on the queue of CPU 0, and goes on with it. -/
theorem SmpRun.not_conserved : ¬ ∀ s tasks, SmpRun (fun _ _ => True) s tasks → s.Conserved tasks := by
  intro always
  have start : SmpRun (fun _ _ => True) _ _ := .boot (.blank 0)
  obtain ⟨s', done, -, -, broken⟩ := (always _ _ start).sched (show 1 < nrCpus by decide)
  refine broken (by decide) ?_ (always _ _ (.sched start (by decide) trivial done))
  rintro (payload | here)
  · exact payload (by decide)
  · exact absurd here (by decide)

/-- Only CPU 0 runs: it starts with its idle task, and the other tasks are enqueued
on its run queue. `s₀` is the machine before `sched_init`. -/
inductive UniBoot (s₀ : Sched) : Sched → List Nat → Prop
  | init (current : s₀.current 0 = s₀.idle 0) (out : ∀ t, (s₀.se t).rq = none) :
      UniBoot s₀ s₀.schedInit [s₀.idle 0]
  | enqueue {s s' : Sched} {tasks : List Nat} {t : Nat} (boot : UniBoot s₀ s tasks) (new : t ∉ tasks)
      (done : s.schedEnqueue 0 t = .ok s') : UniBoot s₀ s' (t :: tasks)

/-- Clock ticks of CPU 0 from the state `b` on; the last argument lists the tasks
picked, the first one first. -/
inductive UniRun (b : Sched) : Sched → List Nat → Prop
  | boot : UniRun b b []
  | tick {s s' : Sched} {picks : List Nat} (run : UniRun b s picks) (done : s.genericCpuTick 0 = .ok s') :
      UniRun b s' (picks ++ [s'.current 0])

namespace Sched

/-- The scheduler of CPU 0 while the other queues are empty. -/
structure Uni (tasks : List Nat) (s : Sched) (Q : Nat → Nat → List Nat) : Prop where
  queues : Queues s Q
  alone : ∀ c i, c < nrCpus → i < 2 → c ≠ 0 → Q c i = []
  out : (s.se (s.current 0)).rq = none
  every : ∀ t, t ∈ tasks ↔ s.current 0 = t ∨ t ∈ s.line Q 0

theorem minload_alone {s : Sched} (alone : ∀ c, c < nrCpus → c ≠ 0 → (s.rq c).payload = 0) : s.minload nrCpus = 0 := by
  have zero : ∀ n, n ≤ nrCpus → s.minload n = 0 := by
    intro n
    induction n with
    | zero => exact fun _ => rfl
    | succ n ih =>
      intro bound
      rw [minload, ih (by omega)]
      by_cases first : n = 0
      · rw [first, if_neg (by omega)]
      · rw [alone n (by omega) first, if_neg (by omega)]
  exact zero nrCpus (Nat.le_refl _)

theorem Uni.minload {tasks : List Nat} {s : Sched} {Q : Nat → Nat → List Nat} (uni : Uni tasks s Q) :
    s.minload nrCpus = 0 := by
  refine minload_alone (fun c bound other => ?_)
  rw [uni.queues.payload c bound, uni.alone c 0 bound (by omega) other, uni.alone c 1 bound (by omega) other]
  rfl

/-- `sched_tick` touches the slice and the state of a task only. -/
theorem Uni.schedTick {tasks : List Nat} {s : Sched} {Q : Nat → Nat → List Nat} (uni : Uni tasks s Q) :
    Uni tasks (s.schedTick (s.current 0)) Q := by
  have rq : ∀ t, ((s.schedTick (s.current 0)).se t).rq = (s.se t).rq := by
    intro t
    by_cases here : t = s.current 0
    · simp [Sched.schedTick, here]
    · simp [Sched.schedTick, Function.update_of_ne here]
  refine ⟨⟨uni.queues.roles, uni.queues.ring, uni.queues.payload, ?_, uni.queues.once⟩, uni.alone, ?_, uni.every⟩
  · intro t c
    rw [rq]
    exact uni.queues.queued t c
  · exact (rq _).trans uni.out

/-- `sched` on CPU 0: the current task is enqueued and the first of the line is
picked, which is never missing. -/
theorem Uni.sched {tasks : List Nat} {s : Sched} {Q : Nat → Nat → List Nat} (uni : Uni tasks s Q) :
    ∃ t s₂ s' Q', s.schedEnqueueMinload (s.current 0) = .ok (s.enqueued 0 (s.current 0)) ∧
      (s.enqueued 0 (s.current 0)).schedPick 0 = .ok (some t, s₂) ∧ s₂.schedDequeue t = .ok s' ∧
      s.sched 0 = .ok (s'.switchTask 0 t) ∧ Uni tasks (s'.switchTask 0 t) Q' ∧
      (s.enqueued 0 (s.current 0)).line (s.pushed Q (s.current 0)) 0 = t :: (s'.switchTask 0 t).line Q' 0 ∧
      (∀ u, ((s'.switchTask 0 t).se u).slice = (s.se u).slice) ∧
      (∀ u, ((s'.switchTask 0 t).se u).priority = (s.se u).priority) := by
  obtain ⟨queues₁, outcome⟩ := uni.queues.sched (show 0 < nrCpus by decide) uni.out
  have enqueue : s.schedEnqueueMinload (s.current 0) = .ok (s.enqueued 0 (s.current 0)) := by
    rw [schedEnqueueMinload, uni.minload]
    exact schedEnqueue_eq 0 uni.out
  have member := fun u => pushed_mem uni.queues (c := 0) (u := u) (s.current 0)
  rw [uni.minload] at queues₁ outcome
  have lines₁ : ∀ u, u ∈ (s.enqueued 0 (s.current 0)).line (s.pushed Q (s.current 0)) 0 ↔
      u ∈ s.line Q 0 ∨ u = s.current 0 := by
    intro u
    rw [queues₁.mem_line (by decide), member, uni.queues.mem_line (by decide), uni.minload]
    simp
  rcases outcome with ⟨empty, -⟩ | ⟨t, s₂, s', Q', pick, dequeue, run, queues', lines, current, idle, se, -⟩
  · have inside := (lines₁ (s.current 0)).mpr (.inr rfl)
    rw [empty] at inside
    cases inside
  · have slices : ∀ u, ((s'.switchTask 0 t).se u).slice = (s.se u).slice ∧
        ((s'.switchTask 0 t).se u).priority = (s.se u).priority := by
      intro u
      rw [switchTask_se, se, enqueued_se]
      by_cases isT : u = t
      · by_cases isOld : t = s.current 0
        · simp [isT, isOld]
        · simp [isT, isOld]
      · by_cases isOld : u = s.current 0
        · simp [isOld, Function.update_of_ne (isOld ▸ isT : s.current 0 ≠ t)]
        · simp [Function.update_of_ne isT, Function.update_of_ne isOld]
    refine ⟨t, s₂, s', Q', enqueue, pick, dequeue, run, ⟨queues', ?_, ?_, ?_⟩, lines, fun u => (slices u).1,
      fun u => (slices u).2⟩
    · intro c i bound list other
      refine List.eq_nil_iff_forall_not_mem.mpr (fun u inside => ?_)
      have known := queues'.rq_of_mem bound list inside
      rw [switchTask_se, se] at known
      by_cases isT : u = t
      · rw [isT, Function.update_self] at known
        cases known
      · rw [Function.update_of_ne isT] at known
        have there := ((queues₁.queued u c).mp known).2
        rw [pushed_mem uni.queues, uni.alone c 0 bound (by omega) other, uni.alone c 1 bound (by omega) other,
          uni.minload] at there
        simp [other] at there
    · have now : (s'.switchTask 0 t).current 0 = t := by simp [switchTask]
      rw [now, switchTask_se, se, Function.update_self]
    · intro u
      have now : (s'.switchTask 0 t).current 0 = t := by simp [switchTask]
      have inside := lines₁ u
      rw [lines, List.mem_cons] at inside
      rw [uni.every, now]
      constructor
      · rintro (old | queued)
        · exact (inside.mpr (.inr old.symm)).imp Eq.symm id
        · exact (inside.mpr (.inl queued)).imp Eq.symm id
      · rintro (here | later)
        · exact (inside.mp (.inl here.symm)).symm.imp Eq.symm id
        · exact (inside.mp (.inr later)).symm.imp Eq.symm id

/-- One clock tick, with the slice of the task that was current. -/
theorem Uni.tick {tasks : List Nat} {s : Sched} {Q : Nat → Nat → List Nat} (uni : Uni tasks s Q) :
    ∃ t s₁ s₂ s₃ s' Q', (s.schedTick (s.current 0)).schedEnqueueMinload (s.current 0) = .ok s₁ ∧
      s₁.schedPick 0 = .ok (some t, s₂) ∧ s₂.schedDequeue t = .ok s₃ ∧ s' = s₃.switchTask 0 t ∧
      s.genericCpuTick 0 = .ok s' ∧ Uni tasks s' Q' ∧
      s₁.line ((s.schedTick (s.current 0)).pushed Q (s.current 0)) 0 = t :: s'.line Q' 0 ∧
      s₁ = (s.schedTick (s.current 0)).enqueued 0 (s.current 0) ∧
      (∀ u, (s'.se u).slice = ((s.schedTick (s.current 0)).se u).slice) ∧
      (∀ u, (s'.se u).priority = (s.se u).priority) := by
  obtain ⟨t, s₂, s₃, Q', enqueue, pick, dequeue, run, uni', lines, slices, priorities⟩ := uni.schedTick.sched
  refine ⟨t, _, s₂, s₃, _, Q', enqueue, pick, dequeue, rfl, run, uni', lines, rfl, slices, fun u => ?_⟩
  rw [priorities]
  by_cases here : u = s.current 0
  · simp [Sched.schedTick, here]
  · simp [Sched.schedTick, Function.update_of_ne here]

end Sched

theorem UniBoot.uni {s₀ s : Sched} {tasks : List Nat} (boot : UniBoot s₀ s tasks) :
    (∃ Q, s.Uni tasks Q) ∧ (∀ t, (s.se t).slice = (s₀.se t).slice) ∧ ∀ t, (s.se t).priority = (s₀.se t).priority := by
  induction boot with
  | init current out =>
    obtain ⟨se, cur, -⟩ := s₀.initRqs_frame nrCpus
    refine ⟨⟨fun _ _ => [], Sched.schedInit_queues out, fun _ _ _ _ _ => rfl, ?_, ?_⟩, ?_, ?_⟩
    · rw [Sched.schedInit, se]
      exact out _
    · intro t
      rw [Sched.schedInit, cur, current]
      simp [Sched.line, eq_comm]
    · intro t
      rw [Sched.schedInit, se]
    · intro t
      rw [Sched.schedInit, se]
  | @enqueue s s' tasks t _ new done ih =>
    obtain ⟨⟨Q, uni⟩, slices, priorities⟩ := ih
    have out : (s.se t).rq = none := by
      by_contra queued
      rw [Sched.schedEnqueue, if_neg queued] at done
      cases done
    rw [Sched.schedEnqueue_eq 0 out] at done
    cases done
    have queues := uni.queues.enqueue (show 0 < nrCpus by decide) out
    have notCurrent : s.current 0 ≠ t := fun same => new ((uni.every t).mpr (.inl same))
    refine ⟨⟨_, queues, ?_, ?_, ?_⟩, ?_, ?_⟩
    · intro c i bound list other
      rw [Sched.setQueue_apply, if_neg (fun both => other both.1)]
      exact uni.alone c i bound list other
    · rw [Sched.enqueued_se]
      exact (Function.update_of_ne notCurrent ..) ▸ uni.out
    · intro u
      have pushed := Sched.pushed_mem uni.queues (c := 0) (u := u) t
      rw [Sched.pushed, uni.minload] at pushed
      rw [queues.mem_line (by decide), pushed, List.mem_cons, uni.every, uni.queues.mem_line (by decide)]
      show _ ↔ s.current 0 = u ∨ _
      grind
    · intro u
      rw [Sched.enqueued_se, ← slices]
      by_cases here : u = t
      · simp [here]
      · simp [Function.update_of_ne here]
    · intro u
      rw [Sched.enqueued_se, ← priorities]
      by_cases here : u = t
      · simp [here]
      · simp [Function.update_of_ne here]

theorem UniRun.uni {b s : Sched} {tasks picks : List Nat} {Q : Nat → Nat → List Nat} (start : b.Uni tasks Q)
    (run : UniRun b s picks) : ∃ Q', s.Uni tasks Q' := by
  induction run with
  | boot => exact ⟨Q, start⟩
  | tick _ done ih =>
    obtain ⟨P, uni⟩ := ih
    obtain ⟨t, s₁, s₂, s₃, s', Q', -, -, -, -, run, uni', -⟩ := uni.tick
    rw [done] at run
    cases run
    exact ⟨Q', uni'⟩

/-- Each task is the current one or in one of the two lists of CPU 0, once; and a
tick picks a task and fails no assertion. -/
structure UniKept (tasks : List Nat) (s : Sched) : Prop where
  roles : (s.rq 0).run = 0 ∧ (s.rq 0).exhaust = 1 ∨ (s.rq 0).run = 1 ∧ (s.rq 0).exhaust = 0
  lists : ∃ running exhausted : List Nat, s.link.IsRing (.head 0 (s.rq 0).run) (running.map .task) ∧
    s.link.IsRing (.head 0 (s.rq 0).exhaust) (exhausted.map .task) ∧
    (s.rq 0).payload = running.length + exhausted.length ∧ ∀ t ∈ tasks,
      (s.current 0 = t ∧ (s.se t).rq = none ∧ t ∉ running ∧ t ∉ exhausted) ∨
      (s.current 0 ≠ t ∧ (s.se t).rq = some 0 ∧ running.count t + exhausted.count t = 1)
  tick : ∃ t s₁ s₂ s₃, (s.schedTick (s.current 0)).schedEnqueueMinload (s.current 0) = .ok s₁ ∧
    s₁.schedPick 0 = .ok (some t, s₂) ∧ s₂.schedDequeue t = .ok s₃ ∧ s.genericCpuTick 0 = .ok (s₃.switchTask 0 t)

theorem Sched.Uni.kept {tasks : List Nat} {s : Sched} {Q : Nat → Nat → List Nat} (uni : s.Uni tasks Q) :
    UniKept tasks s := by
  have cpu : 0 < nrCpus := by decide
  have roles := uni.queues.roles 0 cpu
  refine ⟨roles, ⟨Q 0 (s.rq 0).run, Q 0 (s.rq 0).exhaust, uni.queues.ring 0 _ cpu (uni.queues.run_lt cpu),
    uni.queues.ring 0 _ cpu (uni.queues.exhaust_lt cpu), ?_, ?_⟩, ?_⟩
  · rw [uni.queues.payload 0 cpu]
    rcases roles with ⟨run, exhaust⟩ | ⟨run, exhaust⟩ <;> rw [run, exhaust]
    exact Nat.add_comm ..
  · intro t member
    by_cases here : s.current 0 = t
    · have none := here ▸ uni.out
      have absent : ∀ i, i < 2 → t ∉ Q 0 i := by
        intro i list inside
        rw [uni.queues.rq_of_mem cpu list inside] at none
        cases none
      exact .inl ⟨here, none, absent _ (uni.queues.run_lt cpu), absent _ (uni.queues.exhaust_lt cpu)⟩
    · have queued := ((uni.every t).mp member).resolve_left here
      have known := (uni.queues.queued t 0).mpr ⟨cpu, (uni.queues.mem_line cpu).mp queued⟩
      refine .inr ⟨here, known, ?_⟩
      have different : (s.rq 0).run ≠ (s.rq 0).exhaust := by
        rcases roles with ⟨run, exhaust⟩ | ⟨run, exhaust⟩ <;> omega
      rcases List.mem_append.mp queued with left | right
      · have apart : t ∉ Q 0 (s.rq 0).exhaust := fun right =>
          different (uni.queues.apart cpu (uni.queues.exhaust_lt cpu) cpu (uni.queues.run_lt cpu) right left).2
        rw [List.count_eq_one_of_mem (uni.queues.nodup cpu (uni.queues.run_lt cpu)) left, List.count_eq_zero.mpr apart]
      · have apart : t ∉ Q 0 (s.rq 0).run := fun left =>
          different (uni.queues.apart cpu (uni.queues.exhaust_lt cpu) cpu (uni.queues.run_lt cpu) right left).2
        rw [List.count_eq_one_of_mem (uni.queues.nodup cpu (uni.queues.exhaust_lt cpu)) right,
          List.count_eq_zero.mpr apart]
  · obtain ⟨t, s₁, s₂, s₃, s', Q', enqueue, pick, dequeue, rfl, run, -⟩ := uni.tick
    exact ⟨t, s₁, s₂, s₃, enqueue, pick, dequeue, run⟩

theorem UniRun.exists_uni {s₀ b s : Sched} {tasks picks : List Nat} (boot : UniBoot s₀ b tasks) (run : UniRun b s picks) :
    ∃ Q, s.Uni tasks Q := by
  obtain ⟨⟨Q, uni⟩, -⟩ := boot.uni
  exact run.uni uni

/-- The scheduler of one CPU conserves the tasks over every run of clock ticks. -/
theorem UniRun.tasksKept {s₀ b s : Sched} {tasks picks : List Nat} (boot : UniBoot s₀ b tasks) (run : UniRun b s picks) :
    UniKept tasks s := by
  obtain ⟨Q, uni⟩ := run.exists_uni boot
  exact uni.kept

/-- Tasks 5 and 6 wait for CPU 0, which has its idle task. -/
def Sched.waiting : Sched :=
  let s := (Sched.blank 3).schedInit
  (s.schedEnqueue 0 5 >>= fun s => s.schedEnqueue 0 6).value s

theorem UniBoot.waiting : UniBoot (Sched.blank 3) Sched.waiting [6, 5, 0] := by
  obtain ⟨s, five, six⟩ := Res.bind_eq_ok.mp (Res.eq_value (Sched.blank 3).schedInit
    (x := (Sched.blank 3).schedInit.schedEnqueue 0 5 >>= fun s => s.schedEnqueue 0 6) (by decide +kernel))
  have idle : UniBoot (Sched.blank 3) _ _ := .init rfl fun _ => rfl
  exact (idle.enqueue (by decide) five).enqueue (by decide) six

/-- A tick of CPU 0. -/
def Sched.ticked (s : Sched) : Sched := (s.genericCpuTick 0).value s

theorem UniRun.ticked {b s : Sched} {picks : List Nat} (run : UniRun b s picks) (t : Nat)
    (next : (s.genericCpuTick 0).isOk = true ∧ s.ticked.current 0 = t) : UniRun b s.ticked (picks ++ [t]) :=
  next.2 ▸ run.tick (Res.eq_value s next.1)

theorem UniRun.waiting : UniRun Sched.waiting Sched.waiting.ticked.ticked.ticked.ticked [5, 6, 0, 5] := by
  have first : UniRun Sched.waiting _ _ := .ticked .boot 5 (by decide +kernel)
  have third := (first.ticked 6 (by decide +kernel)).ticked 0 (by decide +kernel)
  exact third.ticked 5 (by decide +kernel)

/-- Four ticks: both tasks, the idle task and the first task again. -/
theorem UniRun.tasksKept_ticks : ∃ s, UniBoot (Sched.blank 3) Sched.waiting [6, 5, 0] ∧ UniRun Sched.waiting s [5, 6, 0, 5] ∧
    UniKept [6, 5, 0] s := ⟨_, .waiting, .waiting, UniRun.waiting.tasksKept .waiting⟩

namespace Sched

/-- A task whose slice is 0 counts as exhausted, whatever its priority. -/
theorem schedTick_slice {s : Sched} {t : Nat} (zero : (s.se t).slice = 0) (u : Nat) :
    ((s.schedTick t).se u).slice = (s.se u).slice := by
  by_cases here : u = t
  · simp [schedTick, schedExhaust, here, zero]
  · simp [schedTick, Function.update_of_ne here]

/-- With slice 0 the outgoing task goes to the end of the exhausted queue. -/
theorem enqueueIndex_fresh {s : Sched} {t : Nat} (zero : (s.se t).slice = 0) (cpu : Nat) :
    s.enqueueIndex cpu t = (s.rq cpu).exhaust := by
  rw [enqueueIndex, schedExhaust, zero, if_pos (by simp)]

theorem Uni.line_fresh {tasks : List Nat} {s : Sched} {Q : Nat → Nat → List Nat} (uni : Uni tasks s Q) {t : Nat}
    (zero : (s.se t).slice = 0) : (s.enqueued 0 t).line (s.pushed Q t) 0 = s.line Q 0 ++ [t] := by
  have index := enqueueIndex_fresh zero 0
  have different : (s.rq 0).run ≠ (s.rq 0).exhaust := by
    rcases uni.queues.roles 0 (by decide) with ⟨run, exhaust⟩ | ⟨run, exhaust⟩ <;> omega
  have roles : ((s.enqueued 0 t).rq 0).run = (s.rq 0).run ∧ ((s.enqueued 0 t).rq 0).exhaust = (s.rq 0).exhaust := by
    simp [enqueued, setRq, setPayload]
  rw [line, line, roles.1, roles.2, pushed, uni.minload, index, setQueue_apply, setQueue_apply, if_neg (by simp [different]),
    if_pos ⟨rfl, rfl⟩, List.append_assoc]

end Sched

/-- The tasks picked from the state `b` on are those of one queue that holds the
running and the exhausted list, and between two consecutive picks of a task every
other task is picked once. -/
structure PicksFifo (b : Sched) (tasks picks : List Nat) : Prop where
  queue : ∃ running exhausted : List Nat, b.link.IsRing (.head 0 (b.rq 0).run) (running.map .task) ∧
    b.link.IsRing (.head 0 (b.rq 0).exhaust) (exhausted.map .task) ∧
    (∀ t, t ∈ tasks ↔ t ∈ running ++ exhausted ++ [b.current 0]) ∧
    picks = fifoPicks (running ++ exhausted) (b.current 0) picks.length
  round : ∀ (i j t u : Nat), i < j → picks[i]? = some t → picks[j]? = some t →
    (∀ k, i < k → k < j → picks[k]? ≠ some t) → u ∈ tasks → u ≠ t →
    ∃ k, (i < k ∧ k < j ∧ picks[k]? = some u) ∧ ∀ k', i < k' → k' < j → picks[k']? = some u → k' = k

/-- From boot with empty slices the scheduler is a single queue. -/
theorem UniRun.fifo {s₀ b s : Sched} {tasks picks : List Nat} (fresh : ∀ t, (s₀.se t).slice = 0)
    (boot : UniBoot s₀ b tasks) (run : UniRun b s picks) : PicksFifo b tasks picks := by
  obtain ⟨⟨Q, uni⟩, slices, -⟩ := boot.uni
  have cpu : 0 < nrCpus := by decide
  have all : ∀ t, t ∈ tasks ↔ t ∈ b.line Q 0 ++ [b.current 0] := by
    intro t
    rw [uni.every, List.mem_append, List.mem_singleton, eq_comm (a := t)]
    exact or_comm
  have distinct : (b.line Q 0 ++ [b.current 0]).Nodup := by
    have kept := uni.queues
    refine List.nodup_append.mpr ⟨List.nodup_append.mpr ⟨kept.nodup cpu (kept.run_lt cpu),
      kept.nodup cpu (kept.exhaust_lt cpu), ?_⟩, List.nodup_singleton _, ?_⟩
    · rintro t left u right rfl
      have same := (kept.apart cpu (kept.exhaust_lt cpu) cpu (kept.run_lt cpu) right left).2
      rcases kept.roles 0 cpu with ⟨run, exhaust⟩ | ⟨run, exhaust⟩ <;> omega
    · intro t inside u here same
      rw [List.mem_singleton] at here
      have queued := (kept.queued t 0).mpr ⟨cpu, (kept.mem_line cpu).mp inside⟩
      rw [same, here, uni.out] at queued
      cases queued
  -- After `k` ticks the line and the current task are the ones at boot, turned by `k`.
  have turned : (∃ P, s.Uni tasks P ∧ s.line P 0 ++ [s.current 0] = (b.line Q 0 ++ [b.current 0]).rotate picks.length) ∧
      (∀ t, (s.se t).slice = 0) ∧ picks = fifoPicks (b.line Q 0) (b.current 0) picks.length := by
    clear distinct
    induction run with
    | boot => exact ⟨⟨Q, uni, by rw [List.length_nil, List.rotate_zero]⟩, fun t => (slices t).trans (fresh t), rfl⟩
    | @tick s s' picks _ done ih =>
      obtain ⟨⟨P, uniS, line⟩, zero, same⟩ := ih
      obtain ⟨t, s₁, s₂, s₃, s'', P', -, -, -, switch, step, uni', lines, enqueued, slices', -⟩ := uniS.tick
      rw [done] at step
      cases step
      have slice := Sched.schedTick_slice (zero (s.current 0))
      rw [enqueued, uniS.schedTick.line_fresh (by rw [slice]; exact zero _)] at lines
      have lines' : s.line P 0 ++ [s.current 0] = t :: s'.line P' 0 := lines
      have now : s'.current 0 = t := by rw [switch]; simp [Sched.switchTask]
      rw [lines'] at line
      have size : (b.line Q 0 ++ [b.current 0]).length = (b.line Q 0).length + 1 := by simp
      have next : (b.line Q 0 ++ [b.current 0])[picks.length % ((b.line Q 0).length + 1)]? = some t := by
        have head := List.getElem?_rotate (l := b.line Q 0 ++ [b.current 0]) (n := picks.length) (m := 0) (by omega)
        rw [← line, size, Nat.zero_add] at head
        simpa using head.symm
      refine ⟨⟨P', uni', ?_⟩, fun u => ?_, ?_⟩
      · rw [List.length_append, List.length_singleton, ← List.rotate_rotate, ← line, now]
        simp
      · rw [slices', slice]
        exact zero u
      · rw [List.length_append, List.length_singleton, fifoPicks_succ, ← same, next, now]
        rfl
  obtain ⟨-, -, same⟩ := turned
  refine ⟨⟨Q 0 (b.rq 0).run, Q 0 (b.rq 0).exhaust, uni.queues.ring 0 _ cpu (uni.queues.run_lt cpu),
    uni.queues.ring 0 _ cpu (uni.queues.exhaust_lt cpu), all, same⟩, ?_⟩
  intro i j t u order first second between member other
  have bound : j < picks.length := (List.getElem?_eq_some_iff.mp second).1
  rw [same] at first second between ⊢
  exact fifoPicks_between distinct order bound first second between ((all u).mp member) other

/-- Both tasks are picked in their order, then the idle task, and the first task again. -/
theorem UniRun.fifo_ticks : ∃ s, UniBoot (Sched.blank 3) Sched.waiting [6, 5, 0] ∧ UniRun Sched.waiting s [5, 6, 0, 5] ∧
    PicksFifo Sched.waiting [6, 5, 0] [5, 6, 0, 5] :=
  ⟨_, .waiting, .waiting, UniRun.waiting.fifo (fun _ => rfl) .waiting⟩

/-- The clock tick charges the current task: its slice changes. -/
def chargeTick (s : Sched) (charged : Nat → Nat) : Nat → Nat :=
  let t := s.current 0
  if ((s.schedTick t).se t).slice = (s.se t).slice then charged else Function.update charged t (charged t + 1)

/-- The tick exchanged the two queues. -/
def Swapped (s s' : Sched) : Prop := (s'.rq 0).run ≠ (s.rq 0).run

instance (s s' : Sched) : Decidable (Swapped s s') := inferInstanceAs (Decidable (_ ≠ _))

/-- Clock ticks of CPU 0 from the state `b` on, with the number of ticks each task
has been charged since the last exchange of the queues. -/
inductive ChargeRun (b : Sched) : Sched → (Nat → Nat) → Prop
  | boot : ChargeRun b b (fun _ => 0)
  | tick {s s' : Sched} {charged : Nat → Nat} (run : ChargeRun b s charged) (done : s.genericCpuTick 0 = .ok s') :
      ChargeRun b s' (if Swapped s s' then fun _ => 0 else chargeTick s charged)

/-- The design of the scheduler, for a tick in the state `s` that leads to `s'`: a
task that was charged less than its priority is charged once; it goes back to the
running queue until it was charged that often, and then to the exhausted one; and
after an exchange of the queues the tasks start with empty slices. -/
structure TimeSliced (s : Sched) (charged : Nat → Nat) (s' : Sched) : Prop where
  charge : charged (s.current 0) < (s.se (s.current 0)).priority →
    chargeTick s charged (s.current 0) = charged (s.current 0) + 1
  running : chargeTick s charged (s.current 0) < (s.se (s.current 0)).priority →
    (s.schedTick (s.current 0)).enqueueIndex 0 (s.current 0) = (s.rq 0).run
  exhausted : (s.se (s.current 0)).priority ≤ chargeTick s charged (s.current 0) →
    (s.schedTick (s.current 0)).enqueueIndex 0 (s.current 0) = (s.rq 0).exhaust
  replenished : Swapped s s' → (s'.se (s'.current 0)).slice = 0 ∧
    ∀ l : List Nat, s'.link.IsRing (.head 0 (s'.rq 0).run) (l.map .task) → ∀ t ∈ l, (s'.se t).slice = 0

theorem ChargeRun.fresh {s₀ b s : Sched} {tasks : List Nat} {charged : Nat → Nat} (fresh : ∀ t, (s₀.se t).slice = 0)
    (boot : UniBoot s₀ b tasks) (run : ChargeRun b s charged) :
    (∃ Q, s.Uni tasks Q) ∧ (∀ t, (s.se t).slice = 0) ∧ (∀ t, charged t = 0) ∧
      ∀ t, (s.se t).priority = (s₀.se t).priority := by
  induction run with
  | boot =>
    obtain ⟨uni, slices, priorities⟩ := boot.uni
    exact ⟨uni, fun t => (slices t).trans (fresh t), fun _ => rfl, priorities⟩
  | @tick s s' charged _ done ih =>
    obtain ⟨⟨Q, uni⟩, zero, empty, priorities⟩ := ih
    obtain ⟨t, s₁, s₂, s₃, s'', Q', -, -, -, -, step, uni', -, -, slices, priorities'⟩ := uni.tick
    rw [done] at step
    cases step
    have slice := Sched.schedTick_slice (zero (s.current 0))
    refine ⟨⟨Q', uni'⟩, fun u => ?_, fun u => ?_, fun u => (priorities' u).trans (priorities u)⟩
    · rw [slices, slice]
      exact zero u
    · split
      · rfl
      · rw [chargeTick, if_pos (slice _)]
        exact empty u

/-- From boot with empty slices a tick follows the design exactly when the task
that is current has priority 0. -/
theorem ChargeRun.timeSliced_iff {s₀ b s s' : Sched} {tasks : List Nat} {charged : Nat → Nat}
    (fresh : ∀ t, (s₀.se t).slice = 0) (boot : UniBoot s₀ b tasks) (run : ChargeRun b s charged)
    (done : s.genericCpuTick 0 = .ok s') : TimeSliced s charged s' ↔ (s.se (s.current 0)).priority = 0 := by
  obtain ⟨⟨Q, uni⟩, zero, empty, -⟩ := run.fresh fresh boot
  obtain ⟨-, later, -⟩ := (ChargeRun.tick run done).fresh fresh boot
  have slice := Sched.schedTick_slice (zero (s.current 0))
  have uncharged : chargeTick s charged (s.current 0) = 0 := by
    rw [chargeTick, if_pos (slice _)]
    exact empty _
  constructor
  · intro sliced
    by_contra positive
    have charge := sliced.charge (by rw [empty]; omega)
    rw [uncharged, empty] at charge
    cases charge
  · intro none
    refine ⟨fun less => ?_, fun less => ?_, fun _ => ?_, fun _ => ⟨later _, fun _ _ t _ => later t⟩⟩
    · rw [none] at less
      cases less
    · rw [none] at less
      cases less
    · rw [Sched.enqueueIndex_fresh (by rw [slice]; exact zero _)]
      rfl

/-- A tick of the idle task, whose priority is 0. -/
theorem ChargeRun.timeSliced_idle : ∃ (b s' : Sched) (tasks : List Nat), UniBoot (Sched.blank 0) b tasks ∧
    b.genericCpuTick 0 = .ok s' ∧ (TimeSliced b (fun _ => 0) s' ↔ (b.se (b.current 0)).priority = 0) := by
  have boot : UniBoot (Sched.blank 0) _ _ := .init rfl (fun _ => rfl)
  obtain ⟨t, s₁, s₂, s₃, -, -, -, done⟩ := (UniRun.exists_uni boot .boot).choose_spec.kept.tick
  exact ⟨_, _, _, boot, done, ChargeRun.timeSliced_iff (fun _ => rfl) boot .boot done⟩

/-- With priority 1 the idle task is not charged. -/
theorem ChargeRun.not_timeSliced : ¬ ∀ (s₀ b s s' : Sched) (tasks : List Nat) (charged : Nat → Nat),
    (∀ t, (s₀.se t).slice = 0) → UniBoot s₀ b tasks → ChargeRun b s charged → s.genericCpuTick 0 = .ok s' →
      TimeSliced s charged s' := by
  intro always
  have boot : UniBoot (Sched.blank 1) _ _ := .init rfl (fun _ => rfl)
  obtain ⟨t, s₁, s₂, s₃, -, -, -, done⟩ := (UniRun.exists_uni boot .boot).choose_spec.kept.tick
  have charge := (always _ _ _ _ _ _ (fun _ => rfl) boot .boot done).charge
  rw [chargeTick, if_pos] at charge
  · have priority : ((Sched.blank 1).schedInit.se ((Sched.blank 1).schedInit.current 0)).priority = 1 := by
      rw [Sched.schedInit, (Sched.initRqs_frame _ _).1]
      rfl
    have wrong := charge (by rw [priority]; decide)
    cases wrong
  · refine Sched.schedTick_slice ?_ _
    rw [Sched.schedInit, (Sched.initRqs_frame _ _).1]
    rfl

end Xv6
