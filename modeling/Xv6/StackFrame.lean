import Xv6.Asm
import Mathlib.Data.Fintype.Basic
import Mathlib.Tactic.FinCases

namespace Xv6.Asm

/-- `TF_SIZE` -/
def tfSize : BitVec 64 := 312

open Insn

/-- `get_saved_sp`, over the address of the array `kernelsp`. -/
def getSavedSp (kernelsp : BitVec 64) : List Insn :=
  [ mfc0 k0 .ebase,
    andi k0 k0 0x3ff,
    dsll k0 k0 3,
    ldSymbol k1 kernelsp k0 ]

/-- `SAVE_SOME` until the frame is allocated; the branch goes to the label `8`, over `get_saved_sp`. -/
def allocFrame (kernelsp : BitVec 64) : List Insn :=
  [ mfc0 k0 .status,
    andi k0 k0 0x18,
    beqz k0 4,
    move k1 sp ] ++
  getSavedSp kernelsp ++
  [ move k0 sp,
    dsubu sp k1 tfSize ]

/-- The rest of `SAVE_SOME`. -/
def saveSome : List Insn :=
  [ sd k0 0x0e8 sp,
    sd zero 0x000 sp,
    sd v0 0x010 sp,
    sd v1 0x018 sp,
    sd a0 0x020 sp,
    sd a1 0x028 sp,
    sd a2 0x030 sp,
    sd a3 0x038 sp,
    mfc0 v1 .status,
    sd v1 0x110 sp,
    mfc0 v1 .cause,
    sd v1 0x118 sp,
    dmfc0 v1 .epc,
    sd v1 0x128 sp,
    dmfc0 v1 .entryhi,
    sd v1 0x130 sp,
    dmfc0 v1 .badvaddr,
    sd v1 0x120 sp,
    sd t0 0x040 sp,
    sd t1 0x048 sp,
    sd t9 0x0c8 sp,
    sd gp 0x0e0 sp,
    sd ra 0x0f8 sp ]

def saveAt : List Insn := [ sd AT 0x008 sp ]

def saveTemp : List Insn :=
  [ mfhi v1,
    sd t2 0x050 sp,
    sd t3 0x058 sp,
    sd t4 0x060 sp,
    sd v1 0x108 sp,
    mflo v1,
    sd t5 0x068 sp,
    sd t6 0x070 sp,
    sd t7 0x078 sp,
    sd t8 0x0c0 sp,
    sd v1 0x100 sp ]

def saveStatic : List Insn :=
  [ sd s0 0x080 sp,
    sd s1 0x088 sp,
    sd s2 0x090 sp,
    sd s3 0x098 sp,
    sd s4 0x0a0 sp,
    sd s5 0x0a8 sp,
    sd s6 0x0b0 sp,
    sd s7 0x0b8 sp,
    sd s8 0x0f0 sp ]

/-- `SAVE_ALL` -/
def saveAll (kernelsp : BitVec 64) : List Insn := allocFrame kernelsp ++ (saveSome ++ saveAt ++ saveTemp ++ saveStatic)

def restoreTemp : List Insn :=
  [ ld t8 0x108 sp,
    ld t2 0x050 sp,
    ld t3 0x058 sp,
    ld t4 0x060 sp,
    mthi t8,
    ld t8 0x100 sp,
    ld t5 0x068 sp,
    ld t6 0x070 sp,
    ld t7 0x078 sp,
    mtlo t8,
    ld t8 0x0c0 sp ]

def restoreStatic : List Insn :=
  [ ld s0 0x080 sp,
    ld s1 0x088 sp,
    ld s2 0x090 sp,
    ld s3 0x098 sp,
    ld s4 0x0a0 sp,
    ld s5 0x0a8 sp,
    ld s6 0x0b0 sp,
    ld s7 0x0b8 sp,
    ld s8 0x0f0 sp ]

def restoreAt : List Insn := [ ld AT 0x008 sp ]

def restoreSome : List Insn :=
  [ mfc0 a0 .status,
    li v1 0xff00,
    ori a0 a0 0x1f,
    xori a0 a0 0x1f,
    mtc0 a0 .status,
    and a0 a0 v1,
    ld v0 0x110 sp,
    nor v1 zero v1,
    and v0 v0 v1,
    or v0 v0 a0,
    mtc0 v0 .status,
    ld v1 0x128 sp,
    mtc0 v1 .epc,
    ld ra 0x0f8 sp,
    ld gp 0x0e0 sp,
    ld v1 0x130 sp,
    dmtc0 v1 .entryhi,
    ld t9 0x0c8 sp,
    ld t0 0x040 sp,
    ld t1 0x048 sp,
    ld a3 0x038 sp,
    ld a2 0x030 sp,
    ld a1 0x028 sp,
    ld a0 0x020 sp,
    ld v1 0x018 sp,
    ld v0 0x010 sp ]

def restoreSp : List Insn := [ ld sp 0x0e8 sp ]

/-- `RESTORE_ALL_AND_RET`, up to its `eret`. -/
def restoreAll : List Insn := restoreTemp ++ restoreStatic ++ restoreAt ++ restoreSome ++ restoreSp

/-- What `handle_exception_entry` does between `SAVE_ALL` and the call of `handle_exception`. -/
def enterHandler : List Insn :=
  [ mfc0 k0 .status,
    ori k0 k0 0x1f,
    xori k0 k0 0x1f,
    mtc0 k0 .status,
    move a0 sp ]

/-- The trap frame in the memory at `b`. -/
def frameAt (m : BitVec 64 → BitVec 64) (b : BitVec 64) : Trapframe where
  gpr r := m (b + BitVec.ofNat 64 (8 * r.val))
  lo := m (b + 0x100)
  hi := m (b + 0x108)
  cp0Status := m (b + 0x110)
  cp0Cause := m (b + 0x118)
  cp0Badvaddr := m (b + 0x120)
  cp0Epc := m (b + 0x128)
  cp0Entryhi := m (b + 0x130)

/-- The doublewords of the trap frame at `b`. -/
def InFrame (b a : BitVec 64) : Prop := ∃ i < 39, a = b + BitVec.ofNat 64 (8 * i)

theorem InFrame.of_offset {b offset : BitVec 64} (aligned : Aligned offset) (within : offset.toNat < 312) :
    InFrame b (b + offset) := by
  refine ⟨offset.toNat / 8, by omega, ?_⟩
  have whole : 8 * (offset.toNat / 8) = offset.toNat := by
    simp only [Aligned] at aligned
    omega
  rw [whole, BitVec.ofNat_toNat, BitVec.setWidth_eq]

/-- The trap frame depends on its doublewords only. -/
theorem frameAt_congr {m m' : BitVec 64 → BitVec 64} {b : BitVec 64} (same : ∀ a, InFrame b a → m' a = m a) :
    frameAt m' b = frameAt m b := by
  have at_offset : ∀ offset : BitVec 64, Aligned offset ∧ offset.toNat < 312 → m' (b + offset) = m (b + offset) :=
    fun offset slot => same _ (InFrame.of_offset slot.1 slot.2)
  simp only [frameAt, Trapframe.mk.injEq]
  refine ⟨funext fun r => same _ ⟨r.val, by omega, rfl⟩, ?_, ?_, ?_, ?_, ?_, ?_, ?_⟩ <;> exact at_offset _ (by decide)

namespace Core

/-- Where `kernelsp` has the entry of the processor. -/
def savedSpSlot (s : Core) (kernelsp : BitVec 64) : BitVec 64 := kernelsp + (s.ebase.signExtend 64 &&& 0x3ff#64) <<< 3

/-- Where the trap frame goes: on the kernel stack of the task if the processor was in user mode. -/
def entryStack (s : Core) (kernelsp : BitVec 64) : BitVec 64 :=
  if s.status &&& 0x18#32 = 0#32 then s.gpr sp
  else s.mem (s.savedSpSlot kernelsp)

/-- The registers as a trap frame at `b`; the two registers of the kernel are not saved. -/
def saved (s : Core) (b : BitVec 64) : Trapframe where
  gpr r := if r = k0 ∨ r = k1 then s.mem (b + BitVec.ofNat 64 (8 * r.val)) else s.gpr r
  lo := s.lo
  hi := s.hi
  cp0Status := s.status.signExtend 64
  cp0Cause := s.cause.signExtend 64
  cp0Badvaddr := s.badvaddr
  cp0Epc := s.epc
  cp0Entryhi := s.entryhi

/-- The state behind `SAVE_ALL`, of which the frame at `b` is kept. -/
structure SavedIn (s s' : Core) (b : BitVec 64) : Prop where
  frame : frameAt s'.mem b = s.saved b
  outside : ∀ a, ¬ InFrame b a → s'.mem a = s.mem a
  base : s'.gpr sp = b
  zero : s'.gpr zero = s.gpr zero
  status : s'.status = s.status
  ebase : s'.ebase = s.ebase

/-- The state behind `RESTORE_ALL`: the registers are those of the frame, but for the two of the kernel, and the
interrupt mask stays. -/
structure RestoredFrom (w : BitVec 64 → BitVec 64) (s s' : Core) (tf : Trapframe) : Prop where
  gpr : ∀ r, r ≠ Asm.zero → r ≠ k0 → r ≠ k1 → s'.gpr r = tf.gpr r
  zero : s'.gpr Asm.zero = s.gpr Asm.zero
  lo : s'.lo = tf.lo
  hi : s'.hi = tf.hi
  status : s'.status = tf.cp0Status.setWidth 32 &&& ~~~0xff00#32 ||| s.status &&& 0xff00#32
  epc : s'.epc = w tf.cp0Epc
  entryhi : s'.entryhi = tf.cp0Entryhi
  ebase : s'.ebase = s.ebase
  mem : s'.mem = s.mem

variable {w : BitVec 64 → BitVec 64} {s : Core} {kernelsp : BitVec 64}

/-- A mask without the sign does not see the extension. -/
theorem signExtend_and_setWidth (x mask : BitVec 32) : x.signExtend 64 &&& mask.setWidth 64 = (x &&& mask).setWidth 64 := by
  ext i bound
  by_cases low : i < 32
  · simp [BitVec.getElem_signExtend, low]
  · simp [BitVec.getElem_signExtend, low, BitVec.getLsbD_of_ge mask i (by omega)]

theorem userMode_iff (x : BitVec 32) : x.signExtend 64 &&& 0x18#64 = 0#64 ↔ x &&& 0x18#32 = 0#32 := by
  rw [show 0x18#64 = (0x18 : BitVec 32).setWidth 64 from rfl, signExtend_and_setWidth]
  constructor
  · intro none
    have narrow := congrArg (BitVec.setWidth 32) none
    simpa using narrow
  · intro none
    rw [show x &&& 24 = 0#32 from none]
    rfl

/-- The registers when the frame is allocated. -/
def allocated (s : Core) (kernelsp : BitVec 64) : Core :=
  { s with gpr := fun r => if r = sp then s.entryStack kernelsp - tfSize else if r = k0 then s.gpr sp
    else if r = k1 then s.entryStack kernelsp else s.gpr r }

theorem savedSpSlot_aligned (array : Aligned kernelsp) : Aligned (s.savedSpSlot kernelsp) := by
  refine (aligned_add ?_).mpr array
  simp only [Aligned, BitVec.toNat_shiftLeft, Nat.shiftLeft_eq]
  omega

/-- The frame is allocated below the stack that the mode asks for. -/
theorem allocFrame_spec {rest : List Insn} (array : Aligned kernelsp) :
    s.run w (allocFrame kernelsp ++ rest) = run w rest (s.allocated kernelsp) := by
  have word : Aligned (kernelsp + (s.ebase.signExtend 64 &&& 0x3ff#64) <<< 3) := savedSpSlot_aligned (s := s) array
  by_cases mode : s.status &&& 0x18#32 = 0#32
  · have zeroed := (userMode_iff s.status).mpr mode
    simp [run, allocFrame, getSavedSp, List.cons_append, List.nil_append, exec, step, cp0, set, branch, setWidth_signExtend, zeroed]
    congr 1
    simp [allocated, entryStack, mode]
    funext r
    simp [Function.update_apply]
    grind
  · have nonzero : ¬ s.status.signExtend 64 &&& 0x18#64 = 0#64 := fun none => mode ((userMode_iff s.status).mp none)
    simp [run, allocFrame, getSavedSp, List.cons_append, List.nil_append, exec, step, cp0, set, branch, setWidth_signExtend, nonzero, load, word]
    congr 1
    simp [allocated, entryStack, savedSpSlot, mode]
    funext r
    simp [Function.update_apply]
    grind

/-- What `SAVE_ALL` stores in the frame, in its order. -/
def savedSlots (s : Core) : List (BitVec 64 × BitVec 64) :=
  [(0x0e8, s.gpr k0), (0x000, s.gpr zero), (0x010, s.gpr v0), (0x018, s.gpr v1), (0x020, s.gpr a0), (0x028, s.gpr a1),
    (0x030, s.gpr a2), (0x038, s.gpr a3), (0x110, s.status.signExtend 64), (0x118, s.cause.signExtend 64), (0x128, s.epc),
    (0x130, s.entryhi), (0x120, s.badvaddr), (0x040, s.gpr t0), (0x048, s.gpr t1), (0x0c8, s.gpr t9), (0x0e0, s.gpr gp),
    (0x0f8, s.gpr ra), (0x008, s.gpr AT), (0x050, s.gpr t2), (0x058, s.gpr t3), (0x060, s.gpr t4), (0x108, s.hi),
    (0x068, s.gpr t5), (0x070, s.gpr t6), (0x078, s.gpr t7), (0x0c0, s.gpr t8), (0x100, s.lo), (0x080, s.gpr s0),
    (0x088, s.gpr s1), (0x090, s.gpr s2), (0x098, s.gpr s3), (0x0a0, s.gpr s4), (0x0a8, s.gpr s5), (0x0b0, s.gpr s6),
    (0x0b8, s.gpr s7), (0x0f0, s.gpr s8)]

theorem saveFrame_run (aligned : Aligned (s.gpr sp)) :
    s.run w (saveSome ++ saveAt ++ saveTemp ++ saveStatic) =
      some { s with gpr := Function.update s.gpr v1 s.lo, mem := updates s.mem (offsets (s.gpr sp) s.savedSlots) } := by
  have blocks : saveSome ++ saveAt ++ saveTemp ++ saveStatic =
      stores sp [(0x0e8, k0), (0x000, zero), (0x010, v0), (0x018, v1), (0x020, a0), (0x028, a1), (0x030, a2), (0x038, a3)] ++
        mfc0 v1 .status :: (stores sp [(0x110, v1)] ++ mfc0 v1 .cause :: (stores sp [(0x118, v1)] ++
        dmfc0 v1 .epc :: (stores sp [(0x128, v1)] ++ dmfc0 v1 .entryhi :: (stores sp [(0x130, v1)] ++
        dmfc0 v1 .badvaddr :: (stores sp [(0x120, v1), (0x040, t0), (0x048, t1), (0x0c8, t9), (0x0e0, gp), (0x0f8, ra),
          (0x008, AT)] ++
        mfhi v1 :: (stores sp [(0x050, t2), (0x058, t3), (0x060, t4), (0x108, v1)] ++
        mflo v1 :: (stores sp [(0x068, t5), (0x070, t6), (0x078, t7), (0x0c0, t8), (0x100, v1), (0x080, s0), (0x088, s1),
          (0x090, s2), (0x098, s3), (0x0a0, s4), (0x0a8, s5), (0x0b0, s6), (0x0b8, s7), (0x0f0, s8)] ++ []))))))) := rfl
  rw [blocks, run_stores, run_mfc0, run_stores, run_mfc0, run_stores, run_dmfc0, run_stores, run_dmfc0, run_stores, run_dmfc0, run_stores,
    run_mfhi, run_stores, run_mflo, run_stores, run_nil]
  · simp [set, cp0, setWidth_signExtend, offsets, savedSlots]
  all_goals first | exact aligned | decide

theorem offset_injective (b : BitVec 64) : Function.Injective (b + ·) := fun _ _ same => BitVec.add_right_inj b |>.mp same

theorem savedSlots_distinct (s : Core) : (s.savedSlots.map Prod.fst).Nodup := by
  simp only [savedSlots, List.map_cons, List.map_nil]
  decide +kernel

theorem savedSlots_keys (s : Core) : ∀ offset ∈ s.savedSlots.map Prod.fst, Aligned offset ∧ offset.toNat < 312 := by
  simp only [savedSlots, List.map_cons, List.map_nil, List.forall_mem_cons, Aligned]
  simp

/-- Every register but those of the kernel has its place in the frame. -/
theorem savedSlots_gpr (s : Core) {r : Fin 32} (notK0 : r ≠ k0) (notK1 : r ≠ k1) :
    (BitVec.ofNat 64 (8 * r.val), if r = sp then s.gpr k0 else s.gpr r) ∈ s.savedSlots := by
  fin_cases r <;> first | exact absurd rfl notK0 | exact absurd rfl notK1 | simp [savedSlots]

theorem savedSlots_free (s : Core) {r : Fin 32} (kernel : r = k0 ∨ r = k1) :
    BitVec.ofNat 64 (8 * r.val) ∉ s.savedSlots.map Prod.fst := by
  simp only [savedSlots, List.map_cons, List.map_nil]
  rcases kernel with rfl | rfl <;> decide

section Slots

variable (s) (b : BitVec 64)

/-- The memory with the frame. -/
def withFrame : BitVec 64 → BitVec 64 := updates s.mem (offsets b s.savedSlots)

variable {s} {b}

theorem withFrame_slot {offset v : BitVec 64} (member : (offset, v) ∈ s.savedSlots) : s.withFrame b (b + offset) = v :=
  updates_map_of_mem (offset_injective b) s.savedSlots_distinct member

theorem withFrame_of_not_key {a : BitVec 64} (absent : ∀ offset ∈ s.savedSlots.map Prod.fst, a ≠ b + offset) :
    s.withFrame b a = s.mem a := by
  refine updates_of_not_mem fun member => ?_
  rw [offsets, List.map_map] at member
  obtain ⟨p, inside, rfl⟩ := List.mem_map.mp member
  exact absent p.1 (List.mem_map_of_mem inside) rfl

theorem withFrame_outside {a : BitVec 64} (outside : ¬ InFrame b a) : s.withFrame b a = s.mem a :=
  withFrame_of_not_key fun offset member same => by
    obtain ⟨eights, within⟩ := s.savedSlots_keys offset member
    exact outside (same ▸ InFrame.of_offset eights within)

/-- The registers are found in the frame, with the stack pointer from where it was put by. -/
theorem frameAt_withFrame : frameAt (s.withFrame b) b = saved { s with gpr := Function.update s.gpr sp (s.gpr k0) } b := by
  have special : (0x100, s.lo) ∈ s.savedSlots ∧ (0x108, s.hi) ∈ s.savedSlots ∧
      (0x110, s.status.signExtend 64) ∈ s.savedSlots ∧ (0x118, s.cause.signExtend 64) ∈ s.savedSlots ∧
      (0x120, s.badvaddr) ∈ s.savedSlots ∧ (0x128, s.epc) ∈ s.savedSlots ∧ (0x130, s.entryhi) ∈ s.savedSlots := by
    simp [savedSlots]
  obtain ⟨lo, hi, status, cause, badvaddr, epc, entryhi⟩ := special
  simp only [frameAt, saved, Trapframe.mk.injEq]
  refine ⟨funext fun r => ?_, withFrame_slot lo, withFrame_slot hi, withFrame_slot status, withFrame_slot cause,
    withFrame_slot badvaddr, withFrame_slot epc, withFrame_slot entryhi⟩
  by_cases kernel : r = k0 ∨ r = k1
  · rw [if_pos kernel]
    refine withFrame_of_not_key fun offset member same => s.savedSlots_free kernel ?_
    rwa [offset_injective b same]
  · obtain ⟨notK0, notK1⟩ := not_or.mp kernel
    rw [if_neg kernel, withFrame_slot (s.savedSlots_gpr notK0 notK1), Function.update_apply]

end Slots

/-- `SAVE_ALL` makes a trap frame of the registers, below the stack that the mode asks for. -/
theorem saveAll_spec (aligned : Aligned (s.entryStack kernelsp)) (array : Aligned kernelsp) :
    ∃ s', s.run w (saveAll kernelsp) = some s' ∧ s.SavedIn s' (s.entryStack kernelsp - tfSize) := by
  have base : (s.allocated kernelsp).gpr sp = s.entryStack kernelsp - tfSize := rfl
  have frame : Aligned ((s.allocated kernelsp).gpr sp) := by
    rw [base]
    exact (aligned_sub (by decide)).mpr aligned
  refine ⟨_, (allocFrame_spec array).trans (saveFrame_run frame), ?_, fun a outside => ?_, rfl, rfl, rfl, rfl⟩
  · refine (frameAt_withFrame (s := s.allocated kernelsp)).trans ?_
    simp only [saved, Trapframe.mk.injEq]
    refine ⟨funext fun r => ?_, rfl, rfl, rfl, rfl, rfl, rfl, rfl⟩
    by_cases kernel : r = k0 ∨ r = k1
    · rw [if_pos kernel, if_pos kernel]
      rfl
    · obtain ⟨notK0, notK1⟩ := not_or.mp kernel
      rw [if_neg kernel, if_neg kernel]
      by_cases stack : r = sp
      · rw [stack, Function.update_self]
        rfl
      · rw [Function.update_of_ne stack]
        simp only [allocated, if_neg stack, if_neg notK0, if_neg notK1]
  · exact withFrame_outside (s := s.allocated kernelsp) outside

/-- The mask of the interrupts keeps its place, and the bits that are cleared before do not count. -/
theorem mergedStatus (old : BitVec 64) (status : BitVec 32) :
    (old &&& ~~~(0#64 ||| 0xff00#64) ||| ((status.signExtend 64 ||| 0x1f#64) ^^^ 0x1f#64) &&& 0xff00#64).setWidth 32 =
      old.setWidth 32 &&& ~~~0xff00#32 ||| status &&& 0xff00#32 := by
  have apart : ∀ i : Fin 32, (0x1f#64).getLsbD i = true → (0xff00#32).getLsbD i = false := by decide
  have narrow : ∀ i : Fin 32, (0xff00#64).getLsbD i = (0xff00#32).getLsbD i := by decide
  apply BitVec.eq_of_getLsbD_eq
  intro i low
  have disjoint := apart ⟨i, low⟩
  have mask := narrow ⟨i, low⟩
  have bound : i < 64 := by omega
  simp only at disjoint mask
  simp only [BitVec.getLsbD_setWidth, BitVec.getLsbD_or, BitVec.getLsbD_and, BitVec.getLsbD_xor, BitVec.getLsbD_not,
    BitVec.getLsbD_signExtend, BitVec.getLsbD_zero, Bool.false_or, low, bound, mask, decide_true, Bool.true_and, if_true]
  cases flags : (0x1f#64).getLsbD i
  · simp
  · simp [disjoint flags]

/-- Setting bits and flipping them clears them. -/
theorem clearedStatus (status : BitVec 32) :
    ((status.signExtend 64 ||| 0x1f#64) ^^^ 0x1f#64).setWidth 32 = status &&& ~~~0x1f#32 := by
  have narrow : ∀ i : Fin 32, (0x1f#64).getLsbD i = (0x1f#32).getLsbD i := by decide
  apply BitVec.eq_of_getLsbD_eq
  intro i low
  have mask := narrow ⟨i, low⟩
  simp only at mask
  simp only [BitVec.getLsbD_setWidth, BitVec.getLsbD_or, BitVec.getLsbD_and, BitVec.getLsbD_xor, BitVec.getLsbD_not,
    BitVec.getLsbD_signExtend, low, show i < 64 by omega, mask, decide_true, Bool.true_and, if_true]
  cases (0x1f#32).getLsbD i <;> simp

section Restore

variable {rest : List Insn} {b : BitVec 64} {slot : BitVec 64 → BitVec 64}

theorem restoreTemp_run (base : s.gpr sp = b) (memory : ∀ offset, s.mem (b + offset) = slot offset) (aligned : Aligned b) :
    s.run w (restoreTemp ++ rest) = run w rest { s with
      gpr := updates s.gpr [(t8, slot 0x108), (t2, slot 0x050), (t3, slot 0x058), (t4, slot 0x060),
        (t8, slot 0x100), (t5, slot 0x068), (t6, slot 0x070), (t7, slot 0x078), (t8, slot 0x0c0)]
      lo := slot 0x100
      hi := slot 0x108 } := by
  have blocks : restoreTemp ++ rest = loads sp [(t8, 0x108), (t2, 0x050), (t3, 0x058), (t4, 0x060)] ++
      mthi t8 :: (loads sp [(t8, 0x100), (t5, 0x068), (t6, 0x070), (t7, 0x078)] ++
        mtlo t8 :: (loads sp [(t8, 0x0c0)] ++ rest)) := rfl
  rw [blocks]
  refine Eq.trans (run_loads base memory aligned (by decide) (by decide)) ?_
  rw [run_mthi]
  refine Eq.trans (run_loads base memory aligned (by decide) (by decide)) ?_
  rw [run_mtlo]
  refine Eq.trans (run_loads base memory aligned (by decide) (by decide)) ?_
  rfl

theorem restoreStatic_run (base : s.gpr sp = b) (memory : ∀ offset, s.mem (b + offset) = slot offset) (aligned : Aligned b) :
    s.run w (restoreStatic ++ (restoreAt ++ rest)) = run w rest { s with
      gpr := updates s.gpr [(s0, slot 0x080), (s1, slot 0x088), (s2, slot 0x090), (s3, slot 0x098), (s4, slot 0x0a0),
        (s5, slot 0x0a8), (s6, slot 0x0b0), (s7, slot 0x0b8), (s8, slot 0x0f0), (AT, slot 0x008)] } := by
  have blocks : restoreStatic ++ (restoreAt ++ rest) = loads sp [(s0, 0x080), (s1, 0x088), (s2, 0x090), (s3, 0x098), (s4, 0x0a0),
      (s5, 0x0a8), (s6, 0x0b0), (s7, 0x0b8), (s8, 0x0f0), (AT, 0x008)] ++ rest := rfl
  rw [blocks]
  exact run_loads base memory aligned (by decide) (by decide)

/-- The part of `RESTORE_SOME` that restores Status: it clobbers three registers. -/
theorem restoreStatus_run (base : s.gpr sp = b) (memory : ∀ offset, s.mem (b + offset) = slot offset) (aligned : Aligned b)
    (zeroed : s.gpr zero = 0#64) :
    ∃ clobbered, (∀ p ∈ clobbered, p.1 ∈ [v0, v1, a0]) ∧ s.run w (restoreSome.take 11 ++ rest) = run w rest { s with
      gpr := updates s.gpr clobbered
      status := (slot 0x110).setWidth 32 &&& ~~~0xff00#32 ||| s.status &&& 0xff00#32 } := by
  have blocks : restoreSome.take 11 ++ rest = mfc0 a0 .status :: li v1 0xff00 :: ori a0 a0 0x1f :: xori a0 a0 0x1f ::
      mtc0 a0 .status :: and a0 a0 v1 :: (loads sp [(v0, 0x110)] ++ nor v1 zero v1 :: and v0 v0 v1 :: or v0 v0 a0 ::
        mtc0 v0 .status :: rest) := rfl
  rw [blocks, run_mfc0, run_li, run_ori, run_xori, run_mtc0_status, run_and]
  have status : ((s.cp0 .status).setWidth 32).signExtend 64 = s.status.signExtend 64 := by rw [cp0, setWidth_signExtend]
  rw [status]
  obtain ⟨x, name⟩ : ∃ x, x = s.status.signExtend 64 := ⟨_, rfl⟩
  rw [← name]
  refine ⟨[(a0, x), (v1, 0xff00), (a0, x ||| 0x1f), (a0, (x ||| 0x1f) ^^^ 0x1f), (a0, ((x ||| 0x1f) ^^^ 0x1f) &&& 0xff00),
    (v0, slot 0x110), (v1, ~~~(0#64 ||| 0xff00)), (v0, slot 0x110 &&& ~~~(0#64 ||| 0xff00)),
    (v0, slot 0x110 &&& ~~~(0#64 ||| 0xff00) ||| ((x ||| 0x1f) ^^^ 0x1f) &&& 0xff00)], ?_, ?_⟩
  · simp
  refine Eq.trans (run_loads base memory aligned (by decide) (by decide)) ?_
  rw [run_nor, run_and, run_or, run_mtc0_status]
  have merged := mergedStatus (slot 0x110) s.status
  rw [← name] at merged
  simp only [set, Fin.reduceEq, if_false, zero, v0, v1, a0, List.map_cons, List.map_nil, updates_cons, updates_nil,
    Function.update_self, ne_eq, not_false_eq_true, Function.update_of_ne] at *
  rw [zeroed, ← merged]
  rfl

theorem restoreSome_run (base : s.gpr sp = b) (memory : ∀ offset, s.mem (b + offset) = slot offset) (aligned : Aligned b)
    (zeroed : s.gpr zero = 0#64) :
    ∃ clobbered, (∀ p ∈ clobbered, p.1 ∈ [v0, v1, a0]) ∧ s.run w (restoreSome ++ restoreSp) = some { s with
      gpr := updates s.gpr (clobbered ++ [(ra, slot 0x0f8), (gp, slot 0x0e0), (v1, slot 0x130), (t9, slot 0x0c8), (t0, slot 0x040),
        (t1, slot 0x048), (a3, slot 0x038), (a2, slot 0x030), (a1, slot 0x028), (a0, slot 0x020), (v1, slot 0x018),
        (v0, slot 0x010), (sp, slot 0x0e8)])
      status := (slot 0x110).setWidth 32 &&& ~~~0xff00#32 ||| s.status &&& 0xff00#32
      epc := w (slot 0x128)
      entryhi := slot 0x130 } := by
  have blocks : restoreSome ++ restoreSp = restoreSome.take 11 ++ (loads sp [(v1, 0x128)] ++ mtc0 v1 .epc ::
      (loads sp [(ra, 0x0f8), (gp, 0x0e0), (v1, 0x130)] ++ dmtc0 v1 .entryhi ::
        (loads sp [(t9, 0x0c8), (t0, 0x040), (t1, 0x048), (a3, 0x038), (a2, 0x030), (a1, 0x028), (a0, 0x020), (v1, 0x018),
          (v0, 0x010)] ++ [ld sp 0x0e8 sp]))) := rfl
  obtain ⟨rest, tail⟩ : ∃ rest, rest = loads sp [(v1, 0x128)] ++ mtc0 v1 .epc ::
      (loads sp [(ra, 0x0f8), (gp, 0x0e0), (v1, 0x130)] ++ dmtc0 v1 .entryhi ::
        (loads sp [(t9, 0x0c8), (t0, 0x040), (t1, 0x048), (a3, 0x038), (a2, 0x030), (a1, 0x028), (a0, 0x020), (v1, 0x018),
          (v0, 0x010)] ++ [ld sp 0x0e8 sp])) := ⟨_, rfl⟩
  obtain ⟨clobbered, within, run⟩ := @restoreStatus_run w s rest b slot base memory aligned zeroed
  have stays : updates s.gpr clobbered sp = b := by
    rw [updates_of_not_mem, base]
    intro member
    obtain ⟨p, inside, same⟩ := List.mem_map.mp member
    have := within p inside
    rw [same] at this
    revert this
    decide
  refine ⟨clobbered ++ [(v1, slot 0x128)], ?_, ?_⟩
  · intro p member
    rcases List.mem_append.mp member with old | new
    · exact within p old
    · rw [List.mem_singleton.mp new]
      simp
  rw [blocks, ← tail, run, tail]
  refine Eq.trans (run_loads stays memory aligned (by decide) (by decide)) ?_
  rw [run_mtc0_epc]
  refine Eq.trans (run_loads stays memory aligned (by decide) (by decide)) ?_
  rw [run_dmtc0]
  refine Eq.trans (run_loads stays memory aligned (by decide) (by decide)) ?_
  refine Eq.trans (run_ld_slot stays memory aligned (by decide)) ?_
  rw [run_nil, updates_append, updates_append]
  rfl

/-- `RESTORE_ALL` takes the registers from the trap frame that sp points to. -/
theorem restoreAll_spec (aligned : Aligned (s.gpr sp)) (zeroed : s.gpr zero = 0#64) :
    ∃ s', s.run w restoreAll = some s' ∧ s.RestoredFrom w s' (frameAt s.mem (s.gpr sp)) := by
  obtain ⟨b, base⟩ : ∃ b, s.gpr sp = b := ⟨_, rfl⟩
  rw [base] at aligned ⊢
  obtain ⟨slot, memory⟩ : ∃ slot : BitVec 64 → BitVec 64, ∀ offset, s.mem (b + offset) = slot offset := ⟨_, fun _ => rfl⟩
  have code : restoreAll = restoreTemp ++ (restoreStatic ++ (restoreAt ++ (restoreSome ++ restoreSp))) := rfl
  have temp := @restoreTemp_run w s (restoreStatic ++ (restoreAt ++ (restoreSome ++ restoreSp))) b slot base memory aligned
  rw [code, temp]
  obtain ⟨t, atT⟩ : ∃ t : Core, t = { s with
      gpr := updates s.gpr [(t8, slot 0x108), (t2, slot 0x050), (t3, slot 0x058), (t4, slot 0x060),
        (t8, slot 0x100), (t5, slot 0x068), (t6, slot 0x070), (t7, slot 0x078), (t8, slot 0x0c0)]
      lo := slot 0x100
      hi := slot 0x108 } := ⟨_, rfl⟩
  have baseT : t.gpr sp = b := by rw [atT]; exact base
  have memoryT : ∀ offset, t.mem (b + offset) = slot offset := by rw [atT]; exact memory
  rw [← atT, restoreStatic_run baseT memoryT aligned]
  obtain ⟨u, atU⟩ : ∃ u : Core, u = { t with
      gpr := updates t.gpr [(s0, slot 0x080), (s1, slot 0x088), (s2, slot 0x090), (s3, slot 0x098), (s4, slot 0x0a0),
        (s5, slot 0x0a8), (s6, slot 0x0b0), (s7, slot 0x0b8), (s8, slot 0x0f0), (AT, slot 0x008)] } := ⟨_, rfl⟩
  have baseU : u.gpr sp = b := by rw [atU]; exact baseT
  have memoryU : ∀ offset, u.mem (b + offset) = slot offset := by rw [atU]; exact memoryT
  have zeroedU : u.gpr zero = 0#64 := by rw [atU, atT]; exact zeroed
  obtain ⟨clobbered, within, run⟩ := restoreSome_run (w := w) baseU memoryU aligned zeroedU
  have keep : ∀ (f : Fin 32 → BitVec 64) (r : Fin 32), r ∉ [v0, v1, a0] → updates f clobbered r = f r := by
    intro f r other
    refine updates_of_not_mem fun member => other ?_
    obtain ⟨p, inside, rfl⟩ := List.mem_map.mp member
    exact within p inside
  rw [← atU, run]
  refine ⟨_, rfl, ?_⟩
  constructor
  case gpr =>
    intro r notZero notK0 notK1
    show _ = s.mem (b + BitVec.ofNat 64 (8 * r.val))
    rw [memory, updates_append, atU, atT]
    fin_cases r <;> first | exact absurd rfl notZero | exact absurd rfl notK0 | exact absurd rfl notK1 | simp [keep]
  case zero =>
    rw [updates_append, atU, atT]
    simp [keep]
  all_goals first | rfl | simp [frameAt, memory, atU, atT]

end Restore

/-- The handler runs with the exception bits cleared, in the kernel's mode, and gets the frame. -/
theorem enterHandler_spec :
    ∃ s', s.run w enterHandler = some s' ∧ s'.gpr a0 = s.gpr sp ∧ s'.gpr sp = s.gpr sp ∧ s'.gpr zero = s.gpr zero ∧
      s'.status = s.status &&& ~~~0x1f#32 ∧ s'.mem = s.mem ∧ s'.ebase = s.ebase := by
  have status : ((s.cp0 .status).setWidth 32).signExtend 64 = s.status.signExtend 64 := by rw [cp0, setWidth_signExtend]
  rw [enterHandler, run_mfc0, run_ori, run_xori, run_mtc0_status, run_move, run_nil, status]
  exact ⟨_, rfl, rfl, rfl, rfl, clearedStatus s.status, rfl, rfl⟩

end Core

end Xv6.Asm
