import Xv6.Tlb

namespace Xv6

def asidKernel : Nat := 0x00
def asidMin : Nat := 0x01
def asidInvalid : Nat := 0xff
def asidMax : Nat := 0xff

/-- `asid_task_set`, with the fields of the tasks that ASIDs are about: `asid`, the
ENTRYHI in the trapframe and in the context, and the ENTRYHI of the processor. -/
structure Asids (τ : Type*) where
  onlineHpt : Nat → Nat
  nextAsid : Nat
  onlineTasks : Nat → Option τ
  taskAsid : τ → Nat
  trapframe : τ → Nat
  context : τ → Nat
  current : τ
  entryHi : Nat

namespace Asids

variable {τ : Type*} [DecidableEq τ]

/-- The loop of `asid_flush`: the `n` ASIDs from `i` on. -/
def flushLoop (s : Asids τ) : Nat → Nat → Asids τ
  | 0, _ => s
  | n + 1, i =>
    match s.onlineTasks i with
    | some t =>
      flushLoop { s with
        taskAsid := Function.update s.taskAsid t asidInvalid
        onlineTasks := Function.update s.onlineTasks i none } n (i + 1)
    | none => flushLoop s n (i + 1)

/-- `asid_flush` -/
def asidFlush (s : Asids τ) (kernPgd : Nat) : Asids τ :=
  flushLoop { s with
    onlineHpt := Function.update (fun _ => 0) asidKernel kernPgd
    nextAsid := asidMin } (asidMax - asidMin) asidMin

/-- `handle_pgfault`, where `pgd` is the directory of the mm of each task. -/
def handlePgfault (s : Asids τ) (pgd : τ → Nat) (kernPgd : Nat) : Int × Asids τ :=
  let entryhi := s.trapframe s.current
  let asid := entryhi &&& enthiAsidMask
  let entryhi := entryhi ^^^ asid
  if asid = asidInvalid then
    let s := if s.nextAsid = asidInvalid then s.asidFlush kernPgd else s
    let asid := s.nextAsid
    (0, { s with
      taskAsid := Function.update s.taskAsid s.current asid
      nextAsid := (asid + 1) % 2 ^ 16
      onlineHpt := Function.update s.onlineHpt asid (pgd s.current)
      onlineTasks := Function.update s.onlineTasks asid (some s.current)
      trapframe := Function.update s.trapframe s.current (entryhi ||| asid) })
  else (-1, s)

/-- The part of `SAVE_SOME` that stores ENTRYHI. -/
def saveSome (s : Asids τ) : Asids τ := { s with trapframe := Function.update s.trapframe s.current s.entryHi }

/-- The part of `RESTORE_SOME` that loads ENTRYHI. -/
def restoreSome (s : Asids τ) : Asids τ := { s with entryHi := s.trapframe s.current }

/-- The context switch saves and loads ENTRYHI too. -/
def switchContext (s : Asids τ) (next : τ) : Asids τ :=
  let context := Function.update s.context s.current s.entryHi
  { s with context := context, entryHi := context next, current := next }

/-- The current task misses in the TLB at an address of the page pair `vpn2`,
which the processor puts into ENTRYHI, and goes on after the handler. -/
def pgfault (s : Asids τ) (pgd : τ → Nat) (kernPgd vpn2 : Nat) : Int × Asids τ :=
  let s := { s with entryHi := (vpn2 <<< (pgshift + 1)) ||| (s.entryHi &&& enthiAsidMask) }
  let (retcode, s) := s.saveSome.handlePgfault pgd kernPgd
  (retcode, s.restoreSome)

/-- The current task traps, and another one goes on in user mode. -/
def switchTo (s : Asids τ) (next : τ) : Asids τ := (s.saveSome.switchContext next).restoreSome

end Asids

end Xv6
