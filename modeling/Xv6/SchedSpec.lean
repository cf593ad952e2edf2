import Xv6.Sched

namespace Xv6.Sched

/-- The lists of tasks with the list `i` of one CPU replaced. -/
def setQueue (Q : Nat → Nat → List Nat) (cpu i : Nat) (l : List Nat) : Nat → Nat → List Nat :=
  Function.update Q cpu (Function.update (Q cpu) i l)

theorem setQueue_apply (Q : Nat → Nat → List Nat) (cpu i : Nat) (l : List Nat) (d j : Nat) :
    setQueue Q cpu i l d j = if d = cpu ∧ j = i then l else Q d j := by
  by_cases here : d = cpu
  · by_cases same : j = i
    · simp [setQueue, here, same]
    · simp [setQueue, here, same]
  · simp [setQueue, here]

/-- The run queues hold the lists `Q`: each list is a ring behind its head, and a
task knows the queue it is in. -/
structure Queues (s : Sched) (Q : Nat → Nat → List Nat) : Prop where
  roles : ∀ c, c < nrCpus → (s.rq c).run = 0 ∧ (s.rq c).exhaust = 1 ∨ (s.rq c).run = 1 ∧ (s.rq c).exhaust = 0
  ring : ∀ c i, c < nrCpus → i < 2 → s.link.IsRing (.head c i) ((Q c i).map .task)
  payload : ∀ c, c < nrCpus → (s.rq c).payload = (Q c 0).length + (Q c 1).length
  queued : ∀ t c, (s.se t).rq = some c ↔ c < nrCpus ∧ (t ∈ Q c 0 ∨ t ∈ Q c 1)
  once : ∀ t c, c < nrCpus → t ∈ Q c 0 → t ∉ Q c 1

namespace Queues

variable {s : Sched} {Q : Nat → Nat → List Nat}

theorem rq_of_mem (queues : Queues s Q) {c i t : Nat} (cpu : c < nrCpus) (list : i < 2) (member : t ∈ Q c i) :
    (s.se t).rq = some c := by
  refine (queues.queued t c).mpr ⟨cpu, ?_⟩
  obtain rfl | rfl : i = 0 ∨ i = 1 := by omega
  · exact .inl member
  · exact .inr member

/-- A task is in one list only. -/
theorem apart (queues : Queues s Q) {c d i j t : Nat} (cpu : c < nrCpus) (list : i < 2) (cpu' : d < nrCpus)
    (list' : j < 2) (left : t ∈ Q c i) (right : t ∈ Q d j) : d = c ∧ j = i := by
  have same : d = c := by
    have here := queues.rq_of_mem cpu list left
    rw [queues.rq_of_mem cpu' list' right] at here
    exact Option.some.inj here
  subst same
  refine ⟨rfl, ?_⟩
  by_contra other
  obtain ⟨rfl, rfl⟩ | ⟨rfl, rfl⟩ : i = 0 ∧ j = 1 ∨ i = 1 ∧ j = 0 := by omega
  · exact queues.once t d cpu left right
  · exact queues.once t d cpu right left

theorem nodup (queues : Queues s Q) {c i : Nat} (cpu : c < nrCpus) (list : i < 2) : (Q c i).Nodup :=
  (List.nodup_cons.mp (queues.ring c i cpu list).2).2.of_map

/-- The nodes of the other lists. -/
theorem outside (queues : Queues s Q) {c d i j : Nat} (cpu : c < nrCpus) (list : i < 2) (cpu' : d < nrCpus)
    (list' : j < 2) (other : ¬ (d = c ∧ j = i)) {y : SchedNode} (member : y ∈ .head d j :: (Q d j).map .task) :
    y ∉ SchedNode.head c i :: (Q c i).map .task := by
  intro here
  rcases List.mem_cons.mp member with rfl | inside
  · rcases List.mem_cons.mp here with same | inside
    · cases same
      exact other ⟨rfl, rfl⟩
    · simp at inside
  · obtain ⟨t, right, rfl⟩ := List.mem_map.mp inside
    rcases List.mem_cons.mp here with same | left
    · cases same
    · obtain ⟨u, left, same⟩ := List.mem_map.mp left
      cases same
      exact other (queues.apart cpu list cpu' list' left right)

theorem run_lt (queues : Queues s Q) {c : Nat} (cpu : c < nrCpus) : (s.rq c).run < 2 := by
  rcases queues.roles c cpu with ⟨run, -⟩ | ⟨run, -⟩ <;> omega

theorem exhaust_lt (queues : Queues s Q) {c : Nat} (cpu : c < nrCpus) : (s.rq c).exhaust < 2 := by
  rcases queues.roles c cpu with ⟨-, exhaust⟩ | ⟨-, exhaust⟩ <;> omega

theorem enqueueIndex_lt (queues : Queues s Q) {c t : Nat} (cpu : c < nrCpus) : s.enqueueIndex c t < 2 := by
  rw [enqueueIndex]
  split
  · exact queues.exhaust_lt cpu
  · exact queues.run_lt cpu

theorem listEmpty_eq (queues : Queues s Q) {c i : Nat} (cpu : c < nrCpus) (list : i < 2) :
    s.listEmpty (.head c i) = decide (Q c i = []) := by
  have ring := queues.ring c i cpu list
  cases contents : Q c i with
  | nil =>
    rw [contents] at ring
    have next := ring.next_head
    have prev := ring.prev_head
    simp only [List.map_nil, List.nil_append, List.head_cons, List.getLast_singleton] at next prev
    simp [listEmpty, next, prev]
  | cons t rest =>
    rw [contents] at ring
    have next := ring.next_head
    simp only [List.map_cons, List.cons_append, List.head_cons] at next
    simp [listEmpty, next]

theorem firstTask_eq (queues : Queues s Q) {c t : Nat} {rest : List Nat} (cpu : c < nrCpus)
    (contents : Q c (s.rq c).run = t :: rest) : s.firstTask c = .ok t := by
  have ring := queues.ring c _ cpu (queues.run_lt cpu)
  rw [contents] at ring
  have next := ring.next_head
  simp only [List.map_cons, List.cons_append, List.head_cons] at next
  rw [firstTask, next]

end Queues

/-- The state `sched_enqueue` leaves. -/
def enqueued (s : Sched) (cpu t : Nat) : Sched :=
  let i := s.enqueueIndex cpu t
  let s := { s with link := s.link.addBefore (.head cpu i) (.task t) }
  (s.setPayload cpu ((s.rq cpu).payload + 1)).setRq t (some cpu)

theorem schedEnqueue_eq {s : Sched} {t : Nat} (cpu : Nat) (out : (s.se t).rq = none) :
    s.schedEnqueue cpu t = .ok (s.enqueued cpu t) := by
  rw [schedEnqueue, if_pos out, enqueued]

theorem Queues.enqueue {s : Sched} {Q : Nat → Nat → List Nat} (queues : Queues s Q) {cpu t : Nat}
    (bound : cpu < nrCpus) (out : (s.se t).rq = none) :
    Queues (s.enqueued cpu t) (setQueue Q cpu (s.enqueueIndex cpu t) (Q cpu (s.enqueueIndex cpu t) ++ [t])) := by
  have list : s.enqueueIndex cpu t < 2 := queues.enqueueIndex_lt bound
  generalize index : s.enqueueIndex cpu t = i at list ⊢
  have absent : ∀ c j, c < nrCpus → j < 2 → t ∉ Q c j := by
    intro c j cpu' list' member
    rw [queues.rq_of_mem cpu' list' member] at out
    cases out
  have ring := queues.ring cpu i bound list
  have fresh : SchedNode.task t ∉ SchedNode.head cpu i :: (Q cpu i).map .task := by
    simpa using absent cpu i bound list
  have link : (s.enqueued cpu t).link = s.link.addBefore (.head cpu i) (.task t) := by
    rw [enqueued, index]
    rfl
  refine ⟨?_, ?_, ?_, ?_, ?_⟩
  · intro c bound'
    have roles := queues.roles c bound'
    by_cases here : c = cpu
    · subst here
      simpa [enqueued, setRq, setPayload] using roles
    · simpa [enqueued, setRq, setPayload, here] using roles
  · intro c j bound' list'
    rw [link, setQueue_apply]
    split
    · rename_i here
      obtain ⟨rfl, rfl⟩ := here
      rw [List.map_append]
      exact ring.addBefore_head fresh
    · rename_i other
      refine (queues.ring c j bound' list').congr (fun y member => ?_)
      refine Links.addBefore_same ring (List.mem_cons_self ..) (queues.outside bound list bound' list' other member) ?_
      rintro rfl
      simp [absent c j bound' list'] at member
  · intro c bound'
    have payload := queues.payload c bound'
    simp only [setQueue_apply]
    by_cases here : c = cpu
    · subst here
      obtain rfl | rfl : i = 0 ∨ i = 1 := by omega
      all_goals
        simp [enqueued, setRq, setPayload, payload]
        omega
    · simp [enqueued, setRq, setPayload, here, payload]
  · intro u c
    simp only [setQueue_apply]
    by_cases same : u = t
    · subst same
      have known : ((s.enqueued cpu u).se u).rq = some cpu := by simp [enqueued, setRq]
      rw [known, Option.some.injEq]
      constructor
      · rintro rfl
        refine ⟨bound, ?_⟩
        obtain rfl | rfl : i = 0 ∨ i = 1 := by omega
        · simp
        · simp
      · rintro ⟨bound', member⟩
        by_contra other
        have apart : c ≠ cpu := fun same => other same.symm
        simp [apart, absent c 0 bound' (by omega), absent c 1 bound' (by omega)] at member
    · have known : ((s.enqueued cpu t).se u).rq = (s.se u).rq := by
        simp [enqueued, setRq, setPayload, Function.update_of_ne same]
      rw [known, queues.queued]
      refine and_congr_right (fun bound' => or_congr ?_ ?_) <;> split
      · rename_i here
        simp [here.1, here.2, same]
      · rfl
      · rename_i here
        simp [here.1, here.2, same]
      · rfl
  · intro u c bound'
    simp only [setQueue_apply]
    by_cases same : u = t
    · subst same
      by_cases here : c = cpu
      · subst here
        obtain rfl | rfl : i = 0 ∨ i = 1 := by omega
        · simp [absent c 1 bound' (by omega)]
        · simp [absent c 0 bound' (by omega)]
      · simp [here, absent c 0 bound' (by omega)]
    · have old := queues.once u c bound'
      by_cases here : c = cpu
      · subst here
        obtain rfl | rfl : i = 0 ∨ i = 1 := by omega
        · simpa [same] using old
        · simpa [same] using old
      · simpa [here] using old

/-- The roles of the two queues may be exchanged at any time. -/
theorem Queues.swap {s : Sched} {Q : Nat → Nat → List Nat} (queues : Queues s Q) (cpu : Nat) :
    Queues (s.swapQueues cpu) Q where
  roles c bound := by
    have roles := queues.roles c bound
    by_cases here : c = cpu
    · subst here
      simpa [swapQueues, or_comm, and_comm] using roles
    · simpa [swapQueues, here] using roles
  ring := queues.ring
  payload c bound := by
    have payload := queues.payload c bound
    by_cases here : c = cpu
    · subst here
      simpa [swapQueues] using payload
    · simpa [swapQueues, here] using payload
  queued := queues.queued
  once := queues.once

/-- The state `sched_dequeue` leaves. -/
def dequeued (s : Sched) (cpu t : Nat) : Sched :=
  let s := s.setPayload cpu ((s.rq cpu).payload - 1)
  { s with link := s.link.delInit (.task t) }.setRq t none

theorem schedDequeue_eq {s : Sched} {cpu t : Nat} (known : (s.se t).rq = some cpu) :
    s.schedDequeue t = .ok (s.dequeued cpu t) := by
  rw [schedDequeue, known]
  rfl

theorem Queues.dequeue {s : Sched} {Q : Nat → Nat → List Nat} (queues : Queues s Q) {cpu i t : Nat} {rest : List Nat}
    (bound : cpu < nrCpus) (list : i < 2) (contents : Q cpu i = t :: rest) :
    Queues (s.dequeued cpu t) (setQueue Q cpu i rest) := by
  have here : t ∈ Q cpu i := by simp [contents]
  have ring := queues.ring cpu i bound list
  have nodup := queues.nodup bound list
  rw [contents] at nodup
  have gone : t ∉ rest := (List.nodup_cons.mp nodup).1
  have link : (s.dequeued cpu t).link = s.link.delInit (.task t) := rfl
  refine ⟨?_, ?_, ?_, ?_, ?_⟩
  · intro c bound'
    have roles := queues.roles c bound'
    by_cases same : c = cpu
    · subst same
      simpa [dequeued, setRq, setPayload] using roles
    · simpa [dequeued, setRq, setPayload, same] using roles
  · intro c j bound' list'
    rw [link, setQueue_apply]
    split
    · rename_i same
      obtain ⟨rfl, rfl⟩ := same
      rw [contents] at ring
      have entered : s.link.IsRing (.head c j) ([] ++ SchedNode.task t :: rest.map .task) := ring
      exact entered.delInit
    · rename_i other
      refine (queues.ring c j bound' list').congr (fun y member => ?_)
      exact Links.delInit_same ring (by simp [contents]) (queues.outside bound list bound' list' other member)
  · intro c bound'
    have payload := queues.payload c bound'
    simp only [setQueue_apply]
    by_cases same : c = cpu
    · subst same
      obtain rfl | rfl : i = 0 ∨ i = 1 := by omega
      all_goals
        rw [contents, List.length_cons] at payload
        simp [dequeued, setRq, setPayload, payload]
        try omega
    · simp [dequeued, setRq, setPayload, same, payload]
  · intro u c
    simp only [setQueue_apply]
    by_cases same : u = t
    · subst same
      have known : ((s.dequeued cpu u).se u).rq = none := by simp [dequeued, setRq]
      rw [known]
      refine iff_of_false (by simp) ?_
      rintro ⟨bound', member⟩
      have only : ∀ j, j < 2 → u ∈ (if c = cpu ∧ j = i then rest else Q c j) → False := by
        intro j list' member
        split at member
        · exact gone member
        · rename_i other
          exact other (queues.apart bound list bound' list' here member)
      rcases member with left | right
      · exact only 0 (by omega) left
      · exact only 1 (by omega) right
    · have known : ((s.dequeued cpu t).se u).rq = (s.se u).rq := by
        simp [dequeued, setRq, setPayload, Function.update_of_ne same]
      rw [known, queues.queued]
      refine and_congr_right (fun bound' => or_congr ?_ ?_) <;> split
      · rename_i at'
        rw [at'.1, at'.2, contents]
        simp [same]
      · rfl
      · rename_i at'
        rw [at'.1, at'.2, contents]
        simp [same]
      · rfl
  · intro u c bound'
    have old := queues.once u c bound'
    simp only [setQueue_apply]
    by_cases same : c = cpu
    · subst same
      obtain rfl | rfl : i = 0 ∨ i = 1 := by omega
      · rw [contents] at old
        simpa using fun member => old (List.mem_cons_of_mem _ member)
      · rw [contents] at old
        simpa using fun member inRest => old member (List.mem_cons_of_mem _ inRest)
    · simpa [same] using old

/-- The tasks of a CPU: the running queue, then the exhausted one. -/
def line (s : Sched) (Q : Nat → Nat → List Nat) (cpu : Nat) : List Nat :=
  Q cpu (s.rq cpu).run ++ Q cpu (s.rq cpu).exhaust

theorem minload_lt {s : Sched} {n : Nat} (positive : 0 < n) : s.minload n < n := by
  induction n with
  | zero => omega
  | succ n ih =>
    rw [minload]
    split
    · omega
    · by_cases zero : n = 0
      · rw [zero, minload]
        omega
      · have below := ih (by omega)
        omega

theorem Queues.mem_line {s : Sched} {Q : Nat → Nat → List Nat} (queues : Queues s Q) {c t : Nat} (cpu : c < nrCpus) :
    t ∈ s.line Q c ↔ t ∈ Q c 0 ∨ t ∈ Q c 1 := by
  rw [line, List.mem_append]
  rcases queues.roles c cpu with ⟨run, exhaust⟩ | ⟨run, exhaust⟩ <;> rw [run, exhaust]
  exact or_comm

/-- `sched_pick` and `sched_dequeue` take the first task of the line. -/
theorem Queues.pick {s : Sched} {Q : Nat → Nat → List Nat} (queues : Queues s Q) {cpu : Nat} (bound : cpu < nrCpus) :
    (s.line Q cpu = [] ∧ s.schedPick cpu = .ok (none, s)) ∨
      ∃ t s₁ s' Q', s.schedPick cpu = .ok (some t, s₁) ∧ s₁.schedDequeue t = .ok s' ∧ Queues s' Q' ∧
        s.line Q cpu = t :: s'.line Q' cpu ∧ s'.current = s.current ∧ s'.idle = s.idle ∧
        s'.se = Function.update s.se t { s.se t with rq := none } ∧
        (Q cpu (s.rq cpu).run = [] → (s'.rq cpu).run = (s.rq cpu).exhaust ∧ (s'.rq cpu).exhaust = (s.rq cpu).run) ∧
        (Q cpu (s.rq cpu).run ≠ [] → (s'.rq cpu).run = (s.rq cpu).run ∧ (s'.rq cpu).exhaust = (s.rq cpu).exhaust) := by
  have runEmpty := queues.listEmpty_eq bound (queues.run_lt bound)
  have exhaustEmpty := queues.listEmpty_eq bound (queues.exhaust_lt bound)
  -- Once the running queue `i` is not empty its head is taken out.
  have step : ∀ s₁ : Sched, Queues s₁ Q → s₁.se = s.se → ∀ t rest, Q cpu (s₁.rq cpu).run = t :: rest →
      s₁.firstTask cpu = .ok t ∧ s₁.schedDequeue t = .ok (s₁.dequeued cpu t) ∧
      Queues (s₁.dequeued cpu t) (setQueue Q cpu (s₁.rq cpu).run rest) ∧
      s₁.line Q cpu = t :: (s₁.dequeued cpu t).line (setQueue Q cpu (s₁.rq cpu).run rest) cpu := by
    intro s₁ queues₁ same t rest contents
    have known := queues₁.rq_of_mem bound (queues₁.run_lt bound) (by simp [contents] : t ∈ Q cpu (s₁.rq cpu).run)
    refine ⟨queues₁.firstTask_eq bound contents, schedDequeue_eq known,
      queues₁.dequeue bound (queues₁.run_lt bound) contents, ?_⟩
    have roles : (s₁.rq cpu).exhaust ≠ (s₁.rq cpu).run := by
      rcases queues₁.roles cpu bound with ⟨run, exhaust⟩ | ⟨run, exhaust⟩ <;> omega
    simp [line, contents, setQueue_apply, dequeued, setRq, setPayload, roles]
  cases running : Q cpu (s.rq cpu).run with
  | cons t rest =>
    obtain ⟨first, dequeue, queues', lines⟩ := step s queues rfl t rest running
    refine .inr ⟨t, s, _, _, ?_, dequeue, queues', lines, rfl, rfl, rfl, by simp, fun _ => ?_⟩
    · rw [schedPick, runEmpty, running]
      simp [first]
    · simp [dequeued, setRq, setPayload]
  | nil =>
    cases waiting : Q cpu (s.rq cpu).exhaust with
    | nil =>
      refine .inl ⟨by rw [line, running, waiting]; rfl, ?_⟩
      rw [schedPick, runEmpty, exhaustEmpty, running, waiting]
      simp
    | cons t rest =>
      have swapped : ((s.swapQueues cpu).rq cpu).run = (s.rq cpu).exhaust := by simp [swapQueues]
      obtain ⟨first, dequeue, queues', lines⟩ := step (s.swapQueues cpu) (queues.swap cpu) rfl t rest
        (by rw [swapped]; exact waiting)
      refine .inr ⟨t, s.swapQueues cpu, _, _, ?_, dequeue, queues', ?_, rfl, rfl, rfl, fun _ => ?_, by simp⟩
      · rw [schedPick, runEmpty, exhaustEmpty, running, waiting]
        simp [first]
      · rw [← lines, line, line, swapped]
        simp [swapQueues, running]
      · simp [dequeued, setRq, setPayload, swapQueues]

end Xv6.Sched
