import Xv6.BranchSpec
import Xv6.WriteSpec

namespace Xv6

def regV0 : Fin 32 := 2
def regA0 : Fin 32 := 4
def regA1 : Fin 32 := 5
def regA2 : Fin 32 := 6
def regA3 : Fin 32 := 7

def nrSyscalls : Nat := 256
def nrsysWrite : Nat := 6

/-- The handlers in `__syscalls`. -/
inductive Syscall
  | sysWrite
  deriving DecidableEq, Repr

/-- `__syscalls`: what is in a slot. The other slots are NULL. -/
def syscalls (i : Nat) : Option Syscall := if i = nrsysWrite then some .sysWrite else none

def crEc : BitVec 64 := 0x7c

def exccode (cause : BitVec 64) : BitVec 64 := (cause &&& crEc) >>> 2

def ecInt : BitVec 64 := 0
def ecTlbl : BitVec 64 := 2
def ecTlbs : BitVec 64 := 3
def ecSys : BitVec 64 := 8
def ecBp : BitVec 64 := 9

/-- `R_CODE` -/
def rCode (insn : BitVec 32) : BitVec 32 := insn >>> 6 &&& 0xfffff

namespace Trapframe

/-- The arguments of `write`. -/
def writeFd (tf : Trapframe) : Int := ((tf.gpr regA0).setWidth 32).toInt
def writeBuf (tf : Trapframe) : Nat := (tf.gpr regA1).toNat
def writeLen (tf : Trapframe) : Nat := (tf.gpr regA2).toNat

/-- The frame with the results of `write`. -/
def setResults (tf : Trapframe) (w : WriteResult) : Trapframe :=
  (tf.setGpr regA3 (BitVec.ofInt 64 w.errno)).setGpr regV0 (BitVec.ofInt 64 w.result)

end Trapframe

namespace Mm

/-- `sys_write`, less what the UART gets. -/
def sysWrite (k : Mm) (stack : Nat → UInt8) (tf : Trapframe) : Res (Trapframe × Mm) := do
  let (w, k) ← k.doWrite stack tf.writeFd tf.writeBuf tf.writeLen
  .ok (tf.setResults w, k)

/-- `handle_sys`. What is behind the array is not known, and a NULL slot is no function. -/
def handleSys (k : Mm) (stack : Nat → UInt8) (tf : Trapframe) : Res (Trapframe × Mm) :=
  if (tf.gpr regV0).toNat < nrSyscalls then
    match syscalls (tf.gpr regV0).toNat with
    | some .sysWrite => k.sysWrite stack tf
    | none => .error .wild
  else .error .wild

/-- `handle_bp` -/
def handleBp (readInsn : BitVec 64 → BitVec 32) (tf : Trapframe) : Res (Int × Trapframe) :=
  let victim := if tf.cp0Cause &&& crBd ≠ 0 then tf.cp0Epc + 4 else tf.cp0Epc
  if rCode (readInsn victim) = 0 then do .ok (0, ← skipVictim readInsn tf) else .ok (-1, tf)

/-- `handle_exception`, over `handle_int` and `handle_pgfault` and what `read_insn` finds in memory. -/
def handleException (handleInt handlePgfault : Trapframe → Mm → Res (Int × Trapframe × Mm))
    (readInsn : BitVec 64 → BitVec 32) (k : Mm) (stack : Nat → UInt8) (tf : Trapframe) : Res (Trapframe × Mm) :=
  let code := exccode tf.cp0Cause
  if code = ecInt then do
    let (retcode, tf, k) ← handleInt tf k
    if retcode = 0 then .ok (tf, k) else .error .panic
  else if code = ecBp then do
    let (retcode, tf) ← handleBp readInsn tf
    if retcode = 0 then .ok (tf, k) else .error .panic
  else if code = ecSys then do
    let (tf, k) ← k.handleSys stack tf
    .ok (← skipVictim readInsn tf, k)
  else if code = ecTlbl ∨ code = ecTlbs then do
    let (retcode, tf, k) ← handlePgfault tf k
    if retcode = 0 then .ok (tf, k) else .error .panic
  else .error .panic

end Mm

/-- Where the instruction is that the frame is about: at EPC, or in the delay slot of the instruction at EPC. The branches on
the conditions of a coprocessor, at which `branch_target` panics, are left out. -/
inductive Victim
  | plain
  | branch (b : Branch)
  | jump (b : Jump)

namespace Victim

def Fetched (readInsn : BitVec 64 → BitVec 32) (tf : Trapframe) : Victim → Prop
  | plain => tf.cp0Cause &&& crBd = 0
  | branch b => tf.cp0Cause &&& crBd ≠ 0 ∧ readInsn tf.cp0Epc = b.encode
  | jump b => tf.cp0Cause &&& crBd ≠ 0 ∧ readInsn tf.cp0Epc = b.encode ∧ b.Legal

/-- Where the architecture goes on behind the instruction. -/
def next (gpr : Fin 32 → BitVec 64) (pc : BitVec 64) : Victim → BitVec 64
  | plain => pc + 4
  | branch b => b.next gpr pc
  | jump b => b.next gpr pc

/-- The register that the branch links to. -/
def link : Victim → Option (Fin 32)
  | plain => none
  | branch b => if b.links then some 31 else none
  | jump (.jal _) => some 31
  | jump (.jalr _ rd _) => some rd
  | jump _ => none

/-- The code follows the architecture, though it finds `gpr'` where the branch had `gpr`. -/
def Survives (gpr gpr' : Fin 32 → BitVec 64) (pc : BitVec 64) : Victim → Prop
  | plain => True
  | branch (.beq _ rs rt o) | branch (.bne _ rs rt o) => (gpr' rs = gpr' rt ↔ gpr rs = gpr rt) ∨ o = 1
  | branch (.blez _ rs o) | branch (.bgtz _ rs o) => (gpr' rs = 0 ↔ (gpr rs).toInt ≤ 0) ∨ o = 1
  | branch (.bltz _ rs o) | branch (.bgez _ rs o) | branch (.bltzal _ rs o) | branch (.bgezal _ rs o) =>
    Branch.Harmless gpr rs o
  | jump (.j _) | jump (.jal _) => pc.toNat % 2 ^ 28 + 4 < 2 ^ 28
  | jump (.jr rs _) | jump (.jalr rs _ _) => gpr' rs = gpr rs

theorem survives_branch (gpr gpr' : Fin 32 → BitVec 64) (pc : BitVec 64) (b : Branch) :
    (branch b).Survives gpr gpr' pc ↔ (b.codeTaken gpr' = true ↔ b.Taken gpr) ∨ b.offset = 1 := by
  cases b with
  | beq likely rs rt o => simp [Survives, Branch.codeTaken, Branch.Taken, Branch.offset]
  | bne likely rs rt o => simp [Survives, Branch.codeTaken, Branch.Taken, Branch.offset, not_iff_not]
  | blez likely rs o => simp [Survives, Branch.codeTaken, Branch.Taken, Branch.offset]
  | bgtz likely rs o =>
    have flipped : (0 < gpr' rs ↔ 0 < (gpr rs).toInt) ↔ (gpr' rs = 0 ↔ (gpr rs).toInt ≤ 0) := by
      have positive : 0 < gpr' rs ↔ ¬ gpr' rs = 0 := BitVec.pos_iff_ne_zero _
      rw [positive, ← not_le, not_iff_not]
    simp only [Survives, Branch.codeTaken, Branch.Taken, Branch.offset, decide_eq_true_eq, gt_iff_lt, flipped]
  | bltz likely rs o => simp [Survives, Branch.Harmless, Branch.codeTaken, Branch.Taken, Branch.offset]
  | bgez likely rs o => simp [Survives, Branch.Harmless, Branch.codeTaken, Branch.Taken, Branch.offset]
  | bltzal likely rs o => simp [Survives, Branch.Harmless, Branch.codeTaken, Branch.Taken, Branch.offset]
  | bgezal likely rs o => simp [Survives, Branch.Harmless, Branch.codeTaken, Branch.Taken, Branch.offset]

variable {readInsn : BitVec 64 → BitVec 32} {tf tf' : Trapframe} {v : Victim}

/-- What `skip_victim` makes of a frame in which only registers were changed. -/
theorem skipVictim_spec (fetched : v.Fetched readInsn tf) (gpr' : Fin 32 → BitVec 64) :
    ∃ tf', skipVictim readInsn { tf with gpr := gpr' } = .ok tf' ∧ (∀ r, v.link ≠ some r → tf'.gpr r = gpr' r) ∧
      (tf'.cp0Epc = v.next tf.gpr tf.cp0Epc ↔ v.Survives tf.gpr gpr' tf.cp0Epc) := by
  have other : ∀ (d : Fin 32) (x : BitVec 64) (r : Fin 32), d ≠ r → Function.update gpr' d x r = gpr' r :=
    fun d x r different => Function.update_of_ne (Ne.symm different) x gpr'
  cases v with
  | plain =>
    refine ⟨{ tf with gpr := gpr', cp0Epc := tf.cp0Epc + 4 }, if_neg (not_not.mpr fetched), fun _ _ => rfl, ?_⟩
    simp [next, Survives]
  | branch b =>
    obtain ⟨slot, insn⟩ := fetched
    have run : skipVictim readInsn { tf with gpr := gpr' } = .ok { tf with
        gpr := b.codeRegisters gpr' tf.cp0Epc
        cp0Epc := if b.codeTaken gpr' then tf.cp0Epc + 4 + 4 * b.offset.signExtend 64 else tf.cp0Epc + 8 } := by
      rw [skipVictim, if_pos slot, Branch.branchTarget_eq insn, Res.ok_bind]
    refine ⟨_, run, fun r apart => ?_, ?_⟩
    · cases b with
      | bgezal likely rs o => exact other 31 _ r fun same => apart (same ▸ rfl)
      | _ => rfl
    · simp only [next, survives_branch, Branch.next, ← @target_eq_next tf.cp0Epc b.offset]
      by_cases code : b.codeTaken gpr' = true <;> by_cases taken : b.Taken tf.gpr <;> simp [code, taken, eq_comm]
  | jump b =>
    obtain ⟨slot, insn, legal⟩ := fetched
    have run : skipVictim readInsn { tf with gpr := gpr' } =
        .ok { tf with gpr := b.codeRegisters gpr' tf.cp0Epc, cp0Epc := b.codeNext gpr' tf.cp0Epc } := by
      rw [skipVictim, if_pos slot, Jump.branchTarget_eq legal insn, Res.ok_bind]
    refine ⟨_, run, fun r apart => ?_, ?_⟩
    · cases b with
      | jal index => exact other 31 _ r fun same => apart (same ▸ rfl)
      | jalr rs rd hint => exact other rd _ r fun same => apart (same ▸ rfl)
      | _ => rfl
    · cases b with
      | j index => exact Jump.next_iff 2 index
      | jal index => exact Jump.next_iff 3 index
      | _ => exact Iff.rfl

end Victim

namespace Mm

open PageMem

variable {k : Mm} {root buf : Nat} {r : Dirs} {l : List Nat} {B : Heap.Slabs} {areas : List (Nat × VmArea)}
variable {fd : Int} {stack : Nat → UInt8}

/-- `do_write` does not copy to the NULL it gets when there is no room for its buffer. -/
def WriteReturns (k : Mm) (fd : Int) (buf : Nat) : Prop :=
  buf ≤ xusegEnd → fd = stdoutFileno ∨ fd = stderrFileno → k.heap.HasRoom ∨ k.userRead buf = none

theorem kfree_null (h : Heap) : h.kfree 0 = .ok h := if_pos rfl

/-- Without room a terminal is written to from NULL, unless the user has nothing at the address. -/
theorem writeFd_null (pgd : k.pgd ≠ 0) (accepted : buf ≤ xusegEnd) (known : fd = stdoutFileno ∨ fd = stderrFileno) :
    (∃ w k', k.writeFd stack fd buf 0 = .ok (w, k')) ↔ k.userRead buf = none := by
  have some : nrPagesSpanned buf maxWriteLen ≠ 0 := by
    have limit : xusegEnd < 2 ^ 48 := by decide
    have size : maxWriteLen = 1024 := rfl
    rw [nrPagesSpanned_eq (by omega) (by omega)]
    omega
  rw [userRead_none, writeFd, if_pos known]
  constructor
  · rintro ⟨w, k', done⟩
    obtain ⟨copied, run, -⟩ := Res.bind_eq_ok.mp done
    by_contra mapped
    rw [copyFromUvm, if_pos ⟨accepted, some, .inr ⟨rfl, mapped⟩⟩] at run
    cases run
  · intro unmapped
    have noWild : ¬ (buf ≤ xusegEnd ∧ nrPagesSpanned buf maxWriteLen ≠ 0 ∧
        (k.pgd = 0 ∨ (0 : Nat) = 0 ∧ k.heap.pm.uvaddrToKvaddr k.pgd buf ≠ 0)) := by
      rintro ⟨-, -, none | ⟨-, mapped⟩⟩
      · exact pgd none
      · exact mapped unmapped
    obtain ⟨ret, k₁, run⟩ : ∃ ret k₁, k.copyFromUvm buf 0 maxWriteLen = .ok (ret, k₁) := by
      rw [copyFromUvm, if_neg noWild]
      exact ⟨_, _, if_neg fun long => absurd long.2.2 (by decide)⟩
    have failed := (copyFromUvm_null accepted some run).1
    rw [run, Res.ok_bind]
    exact ⟨_, _, if_pos failed⟩

/-- `do_write` stops when there is no room for its buffer and something to copy. -/
theorem doWrite_returns_iff (kept : k.Kept root r l B areas) (base : k.heap.pm.highmemBasePfn ≠ 0) (len : Nat) :
    (∃ w k', k.doWrite stack fd buf len = .ok (w, k')) ↔ k.WriteReturns fd buf := by
  by_cases accepted : buf ≤ xusegEnd
  · have entered : ¬ ¬ buf ≤ xusegEnd := not_not.mpr accepted
    rcases Heap.kmalloc_buf kept.heap with ⟨bare, h', run, same⟩ | ⟨kbuf, h', l', B', x, i, run, room, served, chunk⟩
    · by_cases known : fd = stdoutFileno ∨ fd = stderrFileno
      · have pgd : ({ k with heap := h' } : Mm).pgd ≠ 0 := by
          rw [show ({ k with heap := h' } : Mm).pgd = k.pgd from rfl, kept.pgd]
          exact k.heap.pm.kvaddr_pos root
        have reads : ({ k with heap := h' } : Mm).userRead buf = k.userRead buf := by
          rw [userRead, userRead, same]
        have null := @writeFd_null { k with heap := h' } buf fd stack pgd accepted known
        rw [reads] at null
        rw [WriteReturns, show (buf ≤ xusegEnd → fd = stdoutFileno ∨ fd = stderrFileno → k.heap.HasRoom ∨ k.userRead buf = none) ↔
          k.userRead buf = none by simp [accepted, known, bare], ← null]
        simp only [doWrite, if_neg entered, run, Res.ok_bind]
        constructor
        · rintro ⟨w, k', done⟩
          obtain ⟨⟨w', k₁⟩, switch, -⟩ := Res.bind_eq_ok.mp done
          exact ⟨w', k₁, switch⟩
        · rintro ⟨w, k₁, switch⟩
          rw [switch]
          simp only [Res.ok_bind, kfree_null]
          exact ⟨_, _, rfl⟩
      · refine iff_of_true ?_ fun _ here => absurd here known
        simp only [doWrite, if_neg entered, run, Res.ok_bind, Mm.writeFd, if_neg known, kfree_null]
        exact ⟨_, _, rfl⟩
    · refine iff_of_true ?_ fun _ _ => .inl room
      by_cases known : fd = stdoutFileno ∨ fd = stderrFileno
      · rcases @doWrite_spec _ _ _ _ _ _ _ _ stack kept base accepted known len with ⟨bare, -⟩ | ⟨-, w, k', done, -⟩
        · exact absurd room bare
        · exact ⟨w, k', done⟩
      · obtain ⟨h'', freed⟩ := chunk.kfree_written served.kept (show maxWriteLen ≤ 1024 by decide) fun _ _ => rfl
        simp only [doWrite, if_neg entered, run, Res.ok_bind, Mm.writeFd, if_neg known]
        rw [show h'.kfree kbuf = .ok h'' from freed]
        exact ⟨_, _, rfl⟩
  · refine iff_of_true ?_ fun here => absurd here accepted
    simp only [doWrite, if_pos accepted]
    exact ⟨_, _, rfl⟩

/-- The frame comes back at the instruction behind the system call, with its registers, but for the results and the
register that a branch before it links to. -/
def Resumes (k : Mm) (stack : Nat → UInt8) (handleInt handlePgfault : Trapframe → Mm → Res (Int × Trapframe × Mm))
    (readInsn : BitVec 64 → BitVec 32) (tf : Trapframe) (v : Victim) : Prop :=
  ∃ tf' k', k.handleException handleInt handlePgfault readInsn stack tf = .ok (tf', k') ∧
    tf'.cp0Epc = v.next tf.gpr tf.cp0Epc ∧ ∀ x, x ≠ regV0 → x ≠ regA3 → v.link ≠ some x → tf'.gpr x = tf.gpr x

variable {handleInt handlePgfault : Trapframe → Mm → Res (Int × Trapframe × Mm)}
variable {readInsn : BitVec 64 → BitVec 32} {tf : Trapframe} {v : Victim}

theorem handleException_eq (sys : exccode tf.cp0Cause = ecSys) :
    k.handleException handleInt handlePgfault readInsn stack tf =
      k.handleSys stack tf >>= fun out => skipVictim readInsn out.1 >>= fun tf => .ok (tf, out.2) := by
  rw [handleException, sys, if_neg (by decide), if_neg (by decide), if_pos rfl]

/-- A number without a handler leads out of the kernel. -/
theorem handleSys_eq : k.handleSys stack tf =
    if (tf.gpr regV0).toNat = nrsysWrite then k.sysWrite stack tf else .error .wild := by
  rw [handleSys, syscalls]
  by_cases write : (tf.gpr regV0).toNat = nrsysWrite
  · rw [if_pos write, if_pos write, write]
    exact if_pos (by decide)
  · rw [if_neg write, if_neg write]
    exact ite_self _

/-- Only the registers of a frame are changed by the system call. -/
theorem setResults_eq (tf : Trapframe) (w : WriteResult) : tf.setResults w = { tf with gpr := (tf.setResults w).gpr } := rfl

theorem setResults_gpr (tf : Trapframe) (w : WriteResult) {x : Fin 32} (noV0 : x ≠ regV0) (noA3 : x ≠ regA3) :
    (tf.setResults w).gpr x = tf.gpr x := by
  rw [Trapframe.setResults, Trapframe.setGpr, Trapframe.setGpr]
  simp only [Function.update_of_ne noV0, Function.update_of_ne noA3]

/-- The registers that `write` leaves in the frame, by what the user has when it is called. -/
def writeRegs (k : Mm) (tf : Trapframe) : Fin 32 → BitVec 64 := (tf.setResults (k.written tf.writeFd tf.writeBuf)).gpr

/-- A system call comes back where it should exactly when it is `write`, `write` comes to an end, and the branch before
it does not suffer from being read off the registers that `write` leaves. -/
theorem handleException_resumes (kept : k.Kept root r l B areas) (base : k.heap.pm.highmemBasePfn ≠ 0)
    (sys : exccode tf.cp0Cause = ecSys) (fetched : v.Fetched readInsn tf) (stack : Nat → UInt8)
    (handleInt handlePgfault : Trapframe → Mm → Res (Int × Trapframe × Mm)) :
    ((∃ call, syscalls (tf.gpr regV0).toNat = some call) ∧ k.Resumes stack handleInt handlePgfault readInsn tf v) ↔
      (tf.gpr regV0).toNat = nrsysWrite ∧ k.WriteReturns tf.writeFd tf.writeBuf ∧
        v.Survives tf.gpr (k.writeRegs tf) tf.cp0Epc := by
  have registered : (∃ call, syscalls (tf.gpr regV0).toNat = some call) ↔ (tf.gpr regV0).toNat = nrsysWrite := by
    rw [syscalls]
    by_cases write : (tf.gpr regV0).toNat = nrsysWrite
    · exact iff_of_true ⟨_, if_pos write⟩ write
    · rw [if_neg write]
      simp [write]
  rw [registered, ← doWrite_returns_iff kept base tf.writeLen]
  refine and_congr_right fun write => ?_
  rw [Resumes, handleException_eq sys, handleSys_eq, if_pos write, sysWrite]
  constructor
  · rintro ⟨tf', k', done, epc, -⟩
    obtain ⟨⟨tf₁, k₁⟩, wrote, rest⟩ := Res.bind_eq_ok.mp done
    obtain ⟨⟨w, k₂⟩, run, same⟩ := Res.bind_eq_ok.mp wrote
    obtain ⟨rfl, rfl⟩ := Prod.mk.inj (Except.ok.inj same)
    refine ⟨⟨w, k₂, run⟩, ?_⟩
    rw [writeRegs, ← doWrite_written kept base run]
    obtain ⟨tf₂, skipped, -, survives⟩ := Victim.skipVictim_spec fetched (tf.setResults w).gpr
    rw [← setResults_eq] at skipped
    obtain ⟨tf₃, skipped', same⟩ := Res.bind_eq_ok.mp rest
    obtain rfl : tf₂ = tf₃ := Except.ok.inj (skipped.symm.trans skipped')
    obtain ⟨rfl, -⟩ := Prod.mk.inj (Except.ok.inj same)
    exact survives.mp epc
  · rintro ⟨⟨w, k₂, run⟩, survive⟩
    rw [writeRegs, ← doWrite_written kept base run] at survive
    obtain ⟨tf₂, skipped, others, survives⟩ := Victim.skipVictim_spec fetched (tf.setResults w).gpr
    rw [← setResults_eq] at skipped
    refine ⟨tf₂, k₂, ?_, survives.mpr survive, fun x noV0 noA3 noLink => ?_⟩
    · simp only [run, Res.ok_bind, skipped]
    · rw [others x noLink, setResults_gpr tf w noV0 noA3]

/-- The frame of a system call with its number and its first two arguments. -/
def sysFrame (v0 a0 a1 cause : BitVec 64) : Trapframe where
  gpr x := if x = regV0 then v0 else if x = regA0 then a0 else if x = regA1 then a1 else 0
  lo := 0
  hi := 0
  cp0Status := 0
  cp0Cause := cause
  cp0Badvaddr := 0
  cp0Epc := 0x120000010
  cp0Entryhi := 0

/-- `write` of two characters in the delay slot of a branch on its error number. A3 is 0 before and behind it. -/
theorem handleException_resumes_write :
    ∃ (k : Mm) (stack : Nat → UInt8) (readInsn : BitVec 64 → BitVec 32),
      k.Resumes stack (fun _ _ => .error .panic) (fun _ _ => .error .panic) readInsn
        (sysFrame 6 1 0x4000 (crBd ||| 0x20)) (.branch (.blez false regA3 2)) := by
  obtain ⟨k, root, r, l, B, areas, kept, base, room, bytes⟩ := userHi
  have fetched : (Victim.branch (.blez false regA3 2)).Fetched (fun _ => (Branch.blez false regA3 2).encode)
      (sysFrame 6 1 0x4000 (crBd ||| 0x20)) := ⟨by decide, rfl⟩
  have size : bufsiz = 1024 := rfl
  have mapped : ∀ i < bufsiz, k.userRead (0x4000 + i) ≠ none := fun i inside => by
    rw [bytes i (by omega)]
    exact Option.some_ne_none _
  have written : (k.written stdoutFileno 0x4000).errno = 0 := by
    rw [Mm.written, if_neg (by decide), if_neg (by decide), if_pos mapped]
    rfl
  have zero : k.writeRegs (sysFrame 6 1 0x4000 (crBd ||| 0x20)) regA3 = 0 := by
    show BitVec.ofInt 64 (k.written stdoutFileno 0x4000).errno = 0
    rw [written]
    rfl
  refine ⟨k, fun _ => 0, _, ((handleException_resumes kept base (by decide) fetched _ _ _).mpr ⟨by decide, fun _ _ => .inl room,
    .inl ?_⟩).2⟩
  rw [zero]
  exact iff_of_true rfl (by decide)

/-- The system call 0 is reserved: its slot is NULL. -/
theorem not_handleException_resumes : ¬ ∀ (k : Mm) (stack : Nat → UInt8)
    (handleInt handlePgfault : Trapframe → Mm → Res (Int × Trapframe × Mm)) (readInsn : BitVec 64 → BitVec 32)
    (tf : Trapframe) (v : Victim) (root : Nat) (r : Dirs) (l : List Nat) (B : Heap.Slabs) (areas : List (Nat × VmArea)),
    k.Kept root r l B areas → k.heap.pm.highmemBasePfn ≠ 0 → k.heap.HasRoom → tf.gpr 0 = 0 → exccode tf.cp0Cause = ecSys →
    v.Fetched readInsn tf →
    (∃ call, syscalls (tf.gpr regV0).toNat = some call) ∧ k.Resumes stack handleInt handlePgfault readInsn tf v := by
  intro always
  obtain ⟨k, root, r, l, B, areas, kept, base, room, -⟩ := userHi
  obtain ⟨⟨call, found⟩, -⟩ := always k (fun _ => 0) (fun _ _ => .error .panic) (fun _ _ => .error .panic) (fun _ => 0)
    (sysFrame 0 0 0 0x20) .plain root r l B areas kept base room rfl (by decide) (show _ = _ by decide)
  have empty : syscalls ((sysFrame 0 0 0 0x20).gpr regV0).toNat = none := by decide
  rw [empty] at found
  cases found

end Mm

end Xv6
