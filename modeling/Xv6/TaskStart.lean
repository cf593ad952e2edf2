import Xv6.SwitchContext
import Xv6.Asid

namespace Xv6.Asm

/-- `KSTACK_SIZE` -/
def kstackSize : BitVec 64 := 8192

/-- `kstacktop` -/
def kstacktop (kstack : BitVec 64) : BitVec 64 := kstack + kstackSize - tfSize

/-- `task_setup_kstack`, of the stack that `kmalloc` gave: where the context is. -/
def taskSetupKstack (kstack : BitVec 64) : BitVec 64 := kstack + kstackSize - tfSize

/-- A frame after `memset`. -/
def zeroFrame : Trapframe := ⟨fun _ => 0, 0, 0, 0, 0, 0, 0, 0⟩

/-- `task_init_trapframe`: the frame below `sp`, over what the registers Status and Cause hold. -/
def taskInitTrapframe (status cause : BitVec 32) (initThreadUnion : BitVec 64) : Trapframe :=
  Trapframe.setGpr { zeroFrame with
    cp0Status := status.signExtend 64
    cp0Cause := cause.signExtend 64
    cp0Entryhi := BitVec.ofNat 64 asidInvalid } gp initThreadUnion

/-- `task_bootstrap_context`, for a task whose frame is at `tf`. -/
def taskBootstrapContext (status cause : BitVec 32) (initThreadUnion forkret tf : BitVec 64) : Trapframe :=
  (((({ zeroFrame with cp0Status := status.signExtend 64, cp0Cause := cause.signExtend 64 }.setGpr a0 tf).setGpr ra
    forkret).setGpr sp tf).setGpr gp initThreadUnion)

/-- `set_task_user`; the constants are ints, whose complements are negative. -/
def setTaskUser (tf : Trapframe) : Trapframe :=
  { tf with cp0Status := tf.cp0Status &&& ~~~0x10000000 &&& ~~~0x1f ||| (0x10 ||| 2 ||| 0x00800000 ||| 0x20) }

/-- `set_task_enable_intr` -/
def setTaskEnableIntr (tf : Trapframe) : Trapframe := { tf with cp0Status := tf.cp0Status ||| 1 }

/-- `set_task_startsp` -/
def setTaskStartsp (startsp : BitVec 64) (tf : Trapframe) : Trapframe := tf.setGpr sp startsp

/-- `set_task_main_args` -/
def setTaskMainArgs (argc : BitVec 32) (argv : BitVec 64) (tf : Trapframe) : Trapframe :=
  (tf.setGpr a0 (argc.signExtend 64)).setGpr a1 argv

/-- `set_task_entry` -/
def setTaskEntry (entry : BitVec 64) (tf : Trapframe) : Trapframe := { tf with cp0Epc := entry }

/-- The member of the frame that is `i` doublewords behind its start. -/
def frameSlot (tf : Trapframe) (i : Nat) : BitVec 64 :=
  if bound : i < 32 then tf.gpr ⟨i, bound⟩
  else if i = 32 then tf.lo
  else if i = 33 then tf.hi
  else if i = 34 then tf.cp0Status
  else if i = 35 then tf.cp0Cause
  else if i = 36 then tf.cp0Badvaddr
  else if i = 37 then tf.cp0Epc
  else tf.cp0Entryhi

/-- The memory with a frame stored at `b`. -/
def writeFrame (m : BitVec 64 → BitVec 64) (b : BitVec 64) (tf : Trapframe) : BitVec 64 → BitVec 64 :=
  fun a => if (a - b).toNat % 8 = 0 ∧ (a - b).toNat < 312 then frameSlot tf ((a - b).toNat / 8) else m a

/-- A change of the frame at `b`. -/
def updateFrame (m : BitVec 64 → BitVec 64) (b : BitVec 64) (f : Trapframe → Trapframe) : BitVec 64 → BitVec 64 :=
  writeFrame m b (f (frameAt m b))

/-- `task_early_init`, what it does to the kernel stack: the frame, the context and the user's mode. -/
def taskEarlyInit (m : BitVec 64 → BitVec 64) (kstack : BitVec 64) (status cause : BitVec 32)
    (initThreadUnion forkret : BitVec 64) : BitVec 64 → BitVec 64 :=
  let ctx := taskSetupKstack kstack
  let tf := ctx - tfSize
  let m := writeFrame m tf (taskInitTrapframe status cause initThreadUnion)
  let m := writeFrame m ctx (taskBootstrapContext status cause initThreadUnion forkret tf)
  let m := updateFrame m tf setTaskUser
  updateFrame m tf setTaskEnableIntr

/-- What `initproc_init` does to the trap frame then. -/
def initprocFrame (m : BitVec 64 → BitVec 64) (kstack startsp : BitVec 64) (argc : BitVec 32) (argv entry : BitVec 64) : BitVec 64 → BitVec 64 :=
  let tf := taskSetupKstack kstack - tfSize
  let m := updateFrame m tf (setTaskStartsp startsp)
  let m := updateFrame m tf (setTaskMainArgs argc argv)
  updateFrame m tf (setTaskEntry entry)

section Frames

variable {m : BitVec 64 → BitVec 64} {b a : BitVec 64} {tf : Trapframe} {f : Trapframe → Trapframe}

theorem writeFrame_slot {i : Nat} (bound : i < 39) : writeFrame m b tf (b + BitVec.ofNat 64 (8 * i)) = frameSlot tf i := by
  have offset : (b + BitVec.ofNat 64 (8 * i) - b).toNat = 8 * i := by
    rw [BitVec.add_comm, BitVec.add_sub_cancel, BitVec.toNat_ofNat]
    omega
  rw [writeFrame, offset, if_pos ⟨by omega, by omega⟩, Nat.mul_div_cancel_left i (by decide)]

/-- A doubleword of the frame, by its distance. -/
theorem inFrame_iff : InFrame b a ↔ (a - b).toNat % 8 = 0 ∧ (a - b).toNat < 312 := by
  constructor
  · rintro ⟨i, bound, rfl⟩
    rw [BitVec.add_comm, BitVec.add_sub_cancel, BitVec.toNat_ofNat]
    omega
  · rintro ⟨eights, within⟩
    refine ⟨(a - b).toNat / 8, by omega, ?_⟩
    rw [show 8 * ((a - b).toNat / 8) = (a - b).toNat by omega, BitVec.ofNat_toNat, BitVec.setWidth_eq, BitVec.add_comm,
      BitVec.sub_add_cancel]

theorem writeFrame_outside (outside : ¬ InFrame b a) : writeFrame m b tf a = m a :=
  if_neg fun inside => outside (inFrame_iff.mpr inside)

@[simp] theorem frameAt_writeFrame : frameAt (writeFrame m b tf) b = tf := by
  have slot : ∀ i < 39, writeFrame m b tf (b + BitVec.ofNat 64 (8 * i)) = frameSlot tf i := fun i bound => writeFrame_slot bound
  have gprs : (frameAt (writeFrame m b tf) b).gpr = tf.gpr := by
    funext r
    exact (slot r.val (by omega)).trans (dif_pos r.isLt)
  have specials : frameAt (writeFrame m b tf) b = { tf with gpr := (frameAt (writeFrame m b tf) b).gpr } := by
    simp only [frameAt, Trapframe.mk.injEq]
    exact ⟨trivial, slot 32 (by decide), slot 33 (by decide), slot 34 (by decide), slot 35 (by decide), slot 36 (by decide),
      slot 37 (by decide), slot 38 (by decide)⟩
  rw [specials, gprs]

@[simp] theorem frameAt_updateFrame : frameAt (updateFrame m b f) b = f (frameAt m b) := frameAt_writeFrame

theorem updateFrame_outside (outside : ¬ InFrame b a) : updateFrame m b f a = m a := writeFrame_outside outside

end Frames

section NewTask

variable {m : BitVec 64 → BitVec 64} {kstack initThreadUnion forkret startsp argv entry a : BitVec 64} {status cause argc : BitVec 32}

/-- The frame of a new task lies below its context. -/
theorem frame_below_context (inFrame : InFrame (taskSetupKstack kstack - tfSize) a) : ¬ InFrame (taskSetupKstack kstack) a := by
  rw [inFrame_iff] at *
  rw [taskSetupKstack, kstackSize, tfSize] at *
  bv_omega

theorem context_above_frame (inFrame : InFrame (taskSetupKstack kstack) a) : ¬ InFrame (taskSetupKstack kstack - tfSize) a :=
  fun below => frame_below_context below inFrame

/-- The trap frame of a new task. -/
theorem initprocFrame_frame : frameAt (initprocFrame (taskEarlyInit m kstack status cause initThreadUnion forkret) kstack startsp
    argc argv entry) (taskSetupKstack kstack - tfSize) =
    setTaskEntry entry (setTaskMainArgs argc argv (setTaskStartsp startsp
      (setTaskEnableIntr (setTaskUser (taskInitTrapframe status cause initThreadUnion))))) := by
  have frame : frameAt (writeFrame (writeFrame m (taskSetupKstack kstack - tfSize) (taskInitTrapframe status cause initThreadUnion))
      (taskSetupKstack kstack) (taskBootstrapContext status cause initThreadUnion forkret (taskSetupKstack kstack - tfSize)))
      (taskSetupKstack kstack - tfSize) = taskInitTrapframe status cause initThreadUnion :=
    (frameAt_congr fun a inside => writeFrame_outside (frame_below_context inside)).trans frameAt_writeFrame
  simp only [initprocFrame, taskEarlyInit, frameAt_updateFrame, frame]

/-- Its context, which the later changes leave alone. -/
theorem initprocFrame_context : frameAt (initprocFrame (taskEarlyInit m kstack status cause initThreadUnion forkret) kstack startsp
    argc argv entry) (taskSetupKstack kstack) =
    taskBootstrapContext status cause initThreadUnion forkret (taskSetupKstack kstack - tfSize) := by
  have context : frameAt (writeFrame (writeFrame m (taskSetupKstack kstack - tfSize) (taskInitTrapframe status cause initThreadUnion))
      (taskSetupKstack kstack) (taskBootstrapContext status cause initThreadUnion forkret (taskSetupKstack kstack - tfSize)))
      (taskSetupKstack kstack) = taskBootstrapContext status cause initThreadUnion forkret (taskSetupKstack kstack - tfSize) :=
    frameAt_writeFrame
  refine (frameAt_congr fun a inside => ?_).trans context
  have outside := context_above_frame inside
  simp only [initprocFrame, taskEarlyInit, updateFrame_outside outside]

end NewTask

end Xv6.Asm
