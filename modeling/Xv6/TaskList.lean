import Xv6.Machine

namespace Xv6

/-- `HASH_LIST_SIZE` -/
def hashListSize : Nat := 32

def hashListOrder : Nat := 5

def goldenRatioPrime32 : Nat := 0x9e370001

def pidIdle : Int := 0
def pidInit : Int := 1

/-- The product is one of unsigned longs, and stored into an unsigned int. -/
def hash32 (pid bits : Nat) : Nat := (pid * goldenRatioPrime32 % 2 ^ 64 % 2 ^ 32) >>> (32 - bits)

def pidHash (pid : Int) : Nat := hash32 (pid % 2 ^ 32).toNat hashListOrder

/-- What the process lists use of a task. Processes are the tasks with `tid` 0. -/
structure Task where
  tid : Int
  pid : Int
  parent : Nat
  firstChild : Option Nat
  numChild : Nat
  numSibling : Nat

/-- The list nodes: the heads of the global list and of the hash lists, and the
nodes inside a task. -/
inductive TaskNode
  | procList
  | hashList (i : Nat)
  | proc (t : Nat)
  | hash (t : Nat)
  | sib (t : Nat)
  deriving DecidableEq, Repr

/-- The process lists, the tasks and `initproc`. `proc_num` counts objects in
memory, so that it does not wrap. -/
structure TaskSet where
  link : Links TaskNode
  task : Nat → Task
  procNum : Nat
  initproc : Option Nat

namespace TaskSet

def setTask (s : TaskSet) (t : Nat) (v : Task) : TaskSet := { s with task := Function.update s.task t v }

def initHashLists (L : Links TaskNode) : Nat → Links TaskNode
  | 0 => L
  | n + 1 => (initHashLists L n).init (.hashList n)

def tasklistInit (s : TaskSet) : TaskSet :=
  { s with link := initHashLists (s.link.init .procList) hashListSize }

/-- `next_sib_task`; a node of another kind is inside no task. -/
def nextSibTask (s : TaskSet) (t : Nat) : Res Nat :=
  match s.link.next (.sib t) with
  | .sib u => .ok u
  | _ => .error .wild

/-- `for (i = 0; i < limit; ++i) { change(t); t = next_sib_task(t); }` with an int
`i`, which overflows when the fuel is used up. The limit is read in each round. -/
def eachSibling (limit : TaskSet → Nat) (change : TaskSet → Nat → TaskSet) :
    Nat → Nat → Nat → TaskSet → Res (Nat × TaskSet)
  | 0, _, _, _ => .error .overflow
  | fuel + 1, i, t, s =>
    if i < limit s then do
      let s := change s t
      let t ← s.nextSibTask t
      eachSibling limit change fuel (i + 1) t s
    else .ok (t, s)

def numSiblingOf (t : Nat) (s : TaskSet) : Nat := (s.task t).numSibling

def setNumSibling (s : TaskSet) (t n : Nat) : TaskSet := s.setTask t { s.task t with numSibling := n % 2 ^ 32 }

def incSibling (s : TaskSet) (t : Nat) : TaskSet := s.setNumSibling t ((s.task t).numSibling + 1)
def decSibling (s : TaskSet) (t : Nat) : TaskSet := s.setNumSibling t ((s.task t).numSibling + 2 ^ 32 - 1)

def setParent (s : TaskSet) (t parent : Nat) : TaskSet := s.setTask t { s.task t with parent := parent }
def setFirstChild (s : TaskSet) (t : Nat) (child : Option Nat) : TaskSet :=
  s.setTask t { s.task t with firstChild := child }
def setNumChild (s : TaskSet) (t n : Nat) : TaskSet := s.setTask t { s.task t with numChild := n % 2 ^ 32 }

/-- `add_process` hangs the process below its parent. -/
def addChild (s : TaskSet) (proc parent : Nat) : Res TaskSet :=
  if parent = proc then .ok s
  else
    match (s.task parent).firstChild with
    | none => .ok ((s.setFirstChild parent (some proc)).setNumSibling proc 1)
    | some fchild => do
      let (_, s) ← eachSibling (numSiblingOf fchild) incSibling (intMax + 1) 0 fchild s
      let s := { s with link := s.link.addBefore (.sib fchild) (.sib proc) }
      .ok (s.setNumSibling proc (s.task fchild).numSibling)

/-- The two list insertions of `add_process`. -/
def addNodes (s : TaskSet) (proc : Nat) : TaskSet :=
  let hash := pidHash (s.task proc).pid
  { s with link := (s.link.addBefore .procList (.proc proc)).addBefore (.hashList hash) (.hash proc) }

def addProcess (s : TaskSet) (proc parent : Nat) : Res TaskSet :=
  if (s.task proc).tid ≠ 0 ∨ (s.task parent).tid ≠ 0 then .error .assertion
  else do
    let s ← ((s.addNodes proc).setParent proc parent).addChild proc parent
    let s := s.setNumChild parent ((s.task parent).numChild + 1)
    .ok { s with procNum := s.procNum + 1 }

/-- The two list deletions of `remove_process`. -/
def delNodes (s : TaskSet) (proc : Nat) : TaskSet :=
  { s with link := (s.link.delInit (.proc proc)).delInit (.hash proc) }

/-- `remove_process` moves the first child of the parent on when it is `proc`. -/
def passFirstChild (s : TaskSet) (proc parent : Nat) : Res TaskSet :=
  if (s.task parent).firstChild = some proc then
    if s.link.next (.sib proc) = .sib proc ∧ s.link.prev (.sib proc) = .sib proc then
      .ok (s.setFirstChild parent none)
    else do
      .ok (s.setFirstChild parent (some (← s.nextSibTask proc)))
  else .ok s

/-- `remove_process` gives the children of the process to init. -/
def giveChildren (s : TaskSet) (proc init : Nat) : Res TaskSet :=
  let ichild := (s.task init).firstChild
  let nrIsibs := ichild.elim 0 (fun c => (s.task c).numSibling)
  match (s.task proc).firstChild with
  | none => .ok s
  | some child => do
    let nrSibs := (s.task child).numSibling
    let (child, s) ← eachSibling (fun _ => nrSibs)
      (fun s t => (s.setParent t init).setNumSibling t (nrSibs + nrIsibs)) (intMax + 1) 0 child s
    match ichild with
    | none => .ok (s.setFirstChild init (some child))
    | some ichild => do
      let (ichild, s) ← eachSibling (fun _ => nrIsibs) (fun s t => s.setNumSibling t (nrSibs + nrIsibs))
        (intMax + 1) 0 ichild s
      .ok { s with link := s.link.concat (.sib child) (.sib ichild) }

def removeProcess (s : TaskSet) (proc : Nat) : Res TaskSet :=
  if (s.task proc).tid ≠ 0 then .error .assertion
  else if (s.task proc).pid = pidIdle ∨ (s.task proc).pid = pidInit then .error .assertion
  else do
    let s := s.delNodes proc
    let parent := (s.task proc).parent
    let s ← s.passFirstChild proc parent
    let s := s.setNumChild parent ((s.task parent).numChild + 2 ^ 32 - 1)
    let (_, s) ← eachSibling (numSiblingOf proc) decSibling (intMax + 1) 0 proc s
    let s := { s with link := s.link.delInit (.sib proc) }
    match s.initproc with
    | none => .error .wild
    | some init => do
      let s ← s.giveChildren proc init
      .ok { s with procNum := s.procNum - 1 }

end TaskSet

end Xv6
