import Xv6.Machine

namespace Xv6

/-- `NR_CPUS` -/
def nrCpus : Nat := 4

def taskYielding : Nat := 0x400

/-- `struct sched_entity`, less its list node. `rq` is the CPU of the run queue. -/
structure SchedEntity where
  rq : Option Nat
  priority : Nat
  slice : Nat

/-- `struct cpu_run_queue`, less its list heads. It counts objects in memory, so
that `payload` does not wrap. -/
structure CpuRunQueue where
  run : Nat
  exhaust : Nat
  payload : Nat

/-- The list nodes of the scheduler: the two heads of each run queue and the node
inside each task. -/
inductive SchedNode
  | head (cpu i : Nat)
  | task (t : Nat)
  deriving DecidableEq, Repr

/-- The run queues, what the scheduler keeps in the tasks, and the current task
and the idle task of each CPU. -/
structure Sched where
  rq : Nat → CpuRunQueue
  link : Links SchedNode
  se : Nat → SchedEntity
  state : Nat → Nat
  current : Nat → Nat
  idle : Nat → Nat

namespace Sched

def schedExhaust (s : Sched) (t : Nat) : Bool := decide ((s.se t).slice ≤ (s.se t).priority)

def initRq (s : Sched) (cpu : Nat) : Sched :=
  { s with
    rq := Function.update s.rq cpu { run := 0, exhaust := 1, payload := 0 }
    link := (s.link.init (.head cpu 0)).init (.head cpu 1) }

def initRqs (s : Sched) : Nat → Sched
  | 0 => s
  | n + 1 => (s.initRqs n).initRq n

def schedInit (s : Sched) : Sched := s.initRqs nrCpus

def setRq (s : Sched) (t : Nat) (rq : Option Nat) : Sched :=
  { s with se := Function.update s.se t { s.se t with rq := rq } }

def setPayload (s : Sched) (cpu payload : Nat) : Sched :=
  { s with rq := Function.update s.rq cpu { s.rq cpu with payload := payload } }

/-- The list a task is put in. -/
def enqueueIndex (s : Sched) (cpu t : Nat) : Nat :=
  if s.schedExhaust t then (s.rq cpu).exhaust else (s.rq cpu).run

def schedEnqueue (s : Sched) (cpu t : Nat) : Res Sched :=
  if (s.se t).rq = none then
    let i := s.enqueueIndex cpu t
    let s := { s with link := s.link.addBefore (.head cpu i) (.task t) }
    .ok ((s.setPayload cpu ((s.rq cpu).payload + 1)).setRq t (some cpu))
  else .error .assertion

/-- The queue `sched_enqueue_minload` settles on: the first with the largest
payload, among the queues below `n`. -/
def minload (s : Sched) : Nat → Nat
  | 0 => 0
  | n + 1 => if (s.rq n).payload > (s.rq (s.minload n)).payload then n else s.minload n

def schedEnqueueMinload (s : Sched) (t : Nat) : Res Sched := s.schedEnqueue (s.minload nrCpus) t

def schedDequeue (s : Sched) (t : Nat) : Res Sched :=
  match (s.se t).rq with
  | none => .error .assertion
  | some cpu =>
    let s := s.setPayload cpu ((s.rq cpu).payload - 1)
    .ok ({ s with link := s.link.delInit (.task t) }.setRq t none)

def listEmpty (s : Sched) (n : SchedNode) : Bool := n == s.link.next n && n == s.link.prev n

def swapQueues (s : Sched) (cpu : Nat) : Sched :=
  let tmp := s.rq cpu
  { s with rq := Function.update s.rq cpu { tmp with run := tmp.exhaust, exhaust := tmp.run } }

/-- The task behind the head of the running queue; a list head is no task. -/
def firstTask (s : Sched) (cpu : Nat) : Res Nat :=
  match s.link.next (.head cpu (s.rq cpu).run) with
  | .task t => .ok t
  | .head _ _ => .error .wild

def schedPick (s : Sched) (cpu : Nat) : Res (Option Nat × Sched) :=
  if s.listEmpty (.head cpu (s.rq cpu).run) then
    if s.listEmpty (.head cpu (s.rq cpu).exhaust) then .ok (none, s)
    else do
      let s := s.swapQueues cpu
      .ok (some (← s.firstTask cpu), s)
  else do .ok (some (← s.firstTask cpu), s)

/-- Always yields, so that the result is not needed. `slice` is an unsigned int. -/
def schedTick (s : Sched) (t : Nat) : Sched :=
  let slice := if s.schedExhaust t then (s.se t).slice else ((s.se t).slice + 1) % 2 ^ 32
  { s with
    se := Function.update s.se t { s.se t with slice := slice }
    state := Function.update s.state t (s.state t ||| taskYielding) }

/-- `switch_task`, less the register contents. -/
def switchTask (s : Sched) (cpu newtask : Nat) : Sched :=
  { s with current := Function.update s.current cpu newtask }

def sched (s : Sched) (cpu : Nat) : Res Sched := do
  let s ← s.schedEnqueueMinload (s.current cpu)
  let (newtask, s) ← s.schedPick cpu
  match newtask with
  | none => .ok (s.switchTask cpu (s.idle cpu))
  | some t => do
    let s ← s.schedDequeue t
    .ok (s.switchTask cpu t)

/-- `generic_cpu_tick`, less the tick counter of the CPU. -/
def genericCpuTick (s : Sched) (cpu : Nat) : Res Sched := (s.schedTick (s.current cpu)).sched cpu

end Sched

end Xv6
