import Xv6.Branch
import Mathlib.Data.BitVec

namespace Xv6

/-- A register number as a field. -/
def regBits (r : Fin 32) : BitVec 5 := BitVec.ofNat 5 r

def iWord (op : BitVec 6) (rs : Fin 32) (rt : BitVec 5) (imm : BitVec 16) : BitVec 32 := op ++ regBits rs ++ rt ++ imm

def rWord (op : BitVec 6) (rs rt rd : Fin 32) (shift : BitVec 5) (func : BitVec 6) : BitVec 32 :=
  iWord op rs (regBits rt) (regBits rd ++ shift ++ func)

def jWord (op : BitVec 6) (index : BitVec 26) : BitVec 32 := op ++ index

/-- The conditional branches of MIPS64, each plain or likely. -/
inductive Branch
  | beq (likely : Bool) (rs rt : Fin 32) (offset : BitVec 16)
  | bne (likely : Bool) (rs rt : Fin 32) (offset : BitVec 16)
  | blez (likely : Bool) (rs : Fin 32) (offset : BitVec 16)
  | bgtz (likely : Bool) (rs : Fin 32) (offset : BitVec 16)
  | bltz (likely : Bool) (rs : Fin 32) (offset : BitVec 16)
  | bgez (likely : Bool) (rs : Fin 32) (offset : BitVec 16)
  | bltzal (likely : Bool) (rs : Fin 32) (offset : BitVec 16)
  | bgezal (likely : Bool) (rs : Fin 32) (offset : BitVec 16)

namespace Branch

def encode : Branch → BitVec 32
  | beq likely rs rt offset => iWord (if likely then 0x14 else 0x04) rs (regBits rt) offset
  | bne likely rs rt offset => iWord (if likely then 0x15 else 0x05) rs (regBits rt) offset
  | blez likely rs offset => iWord (if likely then 0x16 else 0x06) rs 0 offset
  | bgtz likely rs offset => iWord (if likely then 0x17 else 0x07) rs 0 offset
  | bltz likely rs offset => iWord 0x01 rs (if likely then 0x02 else 0x00) offset
  | bgez likely rs offset => iWord 0x01 rs (if likely then 0x03 else 0x01) offset
  | bltzal likely rs offset => iWord 0x01 rs (if likely then 0x12 else 0x10) offset
  | bgezal likely rs offset => iWord 0x01 rs (if likely then 0x13 else 0x11) offset

def offset : Branch → BitVec 16
  | beq _ _ _ o | bne _ _ _ o | blez _ _ o | bgtz _ _ o | bltz _ _ o | bgez _ _ o | bltzal _ _ o | bgezal _ _ o => o

/-- When the architecture takes the branch. Registers are compared with zero as signed numbers. -/
def Taken (gpr : Fin 32 → BitVec 64) : Branch → Prop
  | beq _ rs rt _ => gpr rs = gpr rt
  | bne _ rs rt _ => gpr rs ≠ gpr rt
  | blez _ rs _ => (gpr rs).toInt ≤ 0
  | bgtz _ rs _ => 0 < (gpr rs).toInt
  | bltz _ rs _ | bltzal _ rs _ => (gpr rs).toInt < 0
  | bgez _ rs _ | bgezal _ rs _ => 0 ≤ (gpr rs).toInt

instance (gpr : Fin 32 → BitVec 64) : (b : Branch) → Decidable (b.Taken gpr)
  | beq _ _ _ _ => inferInstanceAs (Decidable (_ = _))
  | bne _ _ _ _ => inferInstanceAs (Decidable (_ ≠ _))
  | blez _ _ _ => inferInstanceAs (Decidable (_ ≤ _))
  | bgtz _ _ _ => inferInstanceAs (Decidable (_ < _))
  | bltz _ _ _ => inferInstanceAs (Decidable (_ < _))
  | bgez _ _ _ => inferInstanceAs (Decidable (_ ≤ _))
  | bltzal _ _ _ => inferInstanceAs (Decidable (_ < _))
  | bgezal _ _ _ => inferInstanceAs (Decidable (_ ≤ _))

/-- The linking forms write register 31 whether or not the branch is taken. -/
def links : Branch → Bool
  | bltzal _ _ _ | bgezal _ _ _ => true
  | _ => false

/-- Where the architecture goes on behind the delay slot. -/
def next (gpr : Fin 32 → BitVec 64) (pc : BitVec 64) (b : Branch) : BitVec 64 :=
  if b.Taken gpr then pc + 4 + 4 * b.offset.signExtend 64 else pc + 8

/-- The registers after the branch. -/
def registers (gpr : Fin 32 → BitVec 64) (pc : BitVec 64) (b : Branch) : Fin 32 → BitVec 64 :=
  if b.links then Function.update gpr 31 (pc + 8) else gpr

/-- `branch_target` does what the architecture does. -/
def Emulated (readInsn : BitVec 64 → BitVec 32) (tf : Trapframe) (pc : BitVec 64) (b : Branch) : Prop :=
  branchTarget readInsn tf pc = .ok (b.next tf.gpr pc, { tf with gpr := b.registers tf.gpr pc })

/-- The register that is compared with zero is not negative, or the branch leads behind its delay slot. -/
def Harmless (gpr : Fin 32 → BitVec 64) (rs : Fin 32) (offset : BitVec 16) : Prop := 0 ≤ (gpr rs).toInt ∨ offset = 1

/-- The branches that `branch_target` gets right. -/
def Sound (gpr : Fin 32 → BitVec 64) (pc : BitVec 64) : Branch → Prop
  | beq _ _ _ _ | bne _ _ _ _ => True
  | blez _ rs o | bgtz _ rs o | bltz _ rs o | bgez _ rs o | bgezal _ rs o => Harmless gpr rs o
  | bltzal _ rs o => Harmless gpr rs o ∧ gpr 31 = pc + 8

end Branch

/-- A number put together from two words. -/
theorem toNat_append_eq {n m : Nat} (x : BitVec n) (y : BitVec m) : (x ++ y).toNat = x.toNat * 2 ^ m + y.toNat := by
  rw [BitVec.toNat_append, ← Nat.shiftLeft_add_eq_or_of_lt y.isLt, Nat.shiftLeft_eq]

/-- Shifting and masking reads a field. -/
theorem field_toNat (insn : BitVec 32) {m : BitVec 32} (shift : Nat) {k : Nat} (ones : m.toNat = 2 ^ k - 1) :
    (insn >>> shift &&& m).toNat = insn.toNat / 2 ^ shift % 2 ^ k := by
  rw [BitVec.toNat_and, BitVec.toNat_ushiftRight, ones, Nat.shiftRight_eq_div_pow, Nat.and_two_pow_sub_one_eq_mod]

theorem regField_val (insn : BitVec 32) (shift : Nat) : (regField insn shift : Nat) = insn.toNat / 2 ^ shift % 32 := by
  rw [regField, Fin.val_ofNat, field_toNat insn shift (k := 5) rfl]
  exact Nat.mod_mod _ _

theorem regBits_toNat (r : Fin 32) : (regBits r).toNat = r := by
  have small := r.isLt
  rw [regBits, BitVec.toNat_ofNat]
  omega

section Fields

variable (op : BitVec 6) (rs : Fin 32) (rt : BitVec 5) (imm : BitVec 16)

theorem iWord_toNat : (iWord op rs rt imm).toNat = op.toNat * 2 ^ 26 + rs * 2 ^ 21 + rt.toNat * 2 ^ 16 + imm.toNat := by
  simp only [iWord, toNat_append_eq, regBits_toNat]
  ring

theorem iWord_bounds : op.toNat < 2 ^ 6 ∧ (rs : Nat) < 2 ^ 5 ∧ rt.toNat < 2 ^ 5 ∧ imm.toNat < 2 ^ 16 :=
  ⟨op.isLt, rs.isLt, rt.isLt, imm.isLt⟩

@[simp] theorem opcode_iWord : opcode (iWord op rs rt imm) = op.setWidth 32 := by
  have bounds := iWord_bounds op rs rt imm
  apply BitVec.eq_of_toNat_eq
  rw [opcode, field_toNat _ _ (k := 6) rfl, iWord_toNat, BitVec.toNat_setWidth]
  omega

@[simp] theorem iRs_iWord : iRs (iWord op rs rt imm) = rs := by
  have bounds := iWord_bounds op rs rt imm
  apply Fin.ext
  rw [iRs, regField_val, iWord_toNat]
  omega

@[simp] theorem iRt_iWord (r : Fin 32) : iRt (iWord op rs (regBits r) imm) = r := by
  have bounds := iWord_bounds op rs (regBits r) imm
  apply Fin.ext
  rw [iRt, regField_val, iWord_toNat, regBits_toNat]
  omega

@[simp] theorem iFunc_iWord : iFunc (iWord op rs rt imm) = rt.setWidth 32 := by
  have bounds := iWord_bounds op rs rt imm
  apply BitVec.eq_of_toNat_eq
  rw [iFunc, field_toNat _ _ (k := 5) rfl, iWord_toNat, BitVec.toNat_setWidth]
  omega

@[simp] theorem iOffset_iWord : iOffset (iWord op rs rt imm) = imm := by
  have bounds := iWord_bounds op rs rt imm
  have low := field_toNat (iWord op rs rt imm) 0 (m := 0xffff) (k := 16) rfl
  apply BitVec.eq_of_toNat_eq
  rw [BitVec.ushiftRight_zero, iWord_toNat] at low
  rw [iOffset, iImmediate, BitVec.toNat_setWidth, low]
  omega

end Fields

theorem iIoffset_eq (insn : BitVec 32) : iIoffset insn = 4 * (iOffset insn).signExtend 64 := by
  apply BitVec.eq_of_toNat_eq
  rw [iIoffset, BitVec.toNat_shiftLeft, Nat.shiftLeft_eq, BitVec.toNat_mul, Nat.mul_comm]
  rfl

/-- The branch leads behind its delay slot exactly when its offset is one instruction. -/
theorem target_eq_next {pc : BitVec 64} {offset : BitVec 16} :
    pc + 4 + 4 * offset.signExtend 64 = pc + 8 ↔ offset = 1 := by
  have eight : pc + 8 = pc + 4 + 4 := by
    rw [BitVec.add_assoc]
    rfl
  rw [eight, add_right_inj]
  refine ⟨fun same => ?_, fun one => by rw [one]; rfl⟩
  have number := congrArg BitVec.toNat same
  rw [BitVec.toNat_mul, BitVec.toNat_signExtend] at number
  have small := offset.isLt
  apply BitVec.eq_of_toNat_eq
  split_ifs at number <;> simp at number ⊢ <;> omega

variable {readInsn : BitVec 64 → BitVec 32} {tf : Trapframe} {pc : BitVec 64}

/-- An instruction that is no jump goes to the second half of `branch_target`. -/
theorem branchTarget_iWord {op : BitVec 6} {rs : Fin 32} {rt : BitVec 5} {imm : BitVec 16}
    (fetched : readInsn pc = iWord op rs rt imm) (noJump : op ≠ 0 ∧ op ≠ 2 ∧ op ≠ 3) :
    branchTarget readInsn tf pc =
      conditionalTarget tf rs (pc + 4 + 4 * imm.signExtend 64) (pc + 8) (iWord op rs rt imm) := by
  have wide : ∀ k : BitVec 6, op ≠ k → op.setWidth 32 ≠ k.setWidth 32 := by
    intro k other same
    have number := congrArg BitVec.toNat same
    have bounds := And.intro op.isLt k.isLt
    rw [BitVec.toNat_setWidth, BitVec.toNat_setWidth] at number
    exact other (BitVec.eq_of_toNat_eq (by omega))
  have special : op.setWidth 32 ≠ opSpecial := wide 0 noJump.1
  have jump : op.setWidth 32 ≠ opJ := wide 2 noJump.2.1
  have jumpLink : op.setWidth 32 ≠ opJal := wide 3 noJump.2.2
  have sum : pc + 4 * imm.signExtend 64 + 4 = pc + 4 + 4 * imm.signExtend 64 := by ring
  simp only [branchTarget, fetched, opcode_iWord, special, jump, jumpLink, if_false, iRs_iWord, iIoffset_eq, iOffset_iWord, sum]

namespace Branch

variable {b : Branch}

/-- When `branch_target` takes the branch: it compares unsigned registers. -/
def codeTaken (gpr : Fin 32 → BitVec 64) : Branch → Bool
  | beq _ rs rt _ => decide (gpr rs = gpr rt)
  | bne _ rs rt _ => decide (gpr rs ≠ gpr rt)
  | blez _ rs _ => decide (gpr rs ≤ 0)
  | bgtz _ rs _ => decide (gpr rs > 0)
  | bltz _ _ _ | bltzal _ _ _ => false
  | bgez _ _ _ | bgezal _ _ _ => true

/-- The registers `branch_target` leaves: only the forms it takes always link. -/
def codeRegisters (gpr : Fin 32 → BitVec 64) (pc : BitVec 64) : Branch → Fin 32 → BitVec 64
  | bgezal _ _ _ => Function.update gpr 31 (pc + 8)
  | _ => gpr

theorem branchTarget_eq (fetched : readInsn pc = b.encode) :
    branchTarget readInsn tf pc =
      .ok (if b.codeTaken tf.gpr then pc + 4 + 4 * b.offset.signExtend 64 else pc + 8,
        { tf with gpr := b.codeRegisters tf.gpr pc }) := by
  cases b with
  | beq likely rs rt o =>
    cases likely <;> rw [branchTarget_iWord fetched (by decide)] <;>
      simp [conditionalTarget, codeTaken, codeRegisters, offset, opRegimm, opBlez, opBlezl, opBgtz, opBgtzl, opBeq, opBeql]
  | bne likely rs rt o =>
    cases likely <;> rw [branchTarget_iWord fetched (by decide)] <;>
      simp [conditionalTarget, codeTaken, codeRegisters, offset, opRegimm, opBlez, opBlezl, opBgtz, opBgtzl, opBeq, opBeql,
        opBne, opBnel]
  | blez likely rs o =>
    cases likely <;> rw [branchTarget_iWord fetched (by decide)] <;>
      simp [conditionalTarget, codeTaken, codeRegisters, offset, opRegimm, opBlez, opBlezl]
  | bgtz likely rs o =>
    cases likely <;> rw [branchTarget_iWord fetched (by decide)] <;>
      simp [conditionalTarget, codeTaken, codeRegisters, offset, opRegimm, opBlez, opBlezl, opBgtz, opBgtzl]
  | bltz likely rs o =>
    cases likely <;> rw [branchTarget_iWord fetched (by decide)] <;>
      simp [conditionalTarget, regimmTarget, codeTaken, codeRegisters, opRegimm, fnBltzal, fnBltzall, fnBltz, fnBltzl]
  | bgez likely rs o =>
    cases likely <;> rw [branchTarget_iWord fetched (by decide)] <;>
      simp [conditionalTarget, regimmTarget, codeTaken, codeRegisters, offset, opRegimm, fnBltzal, fnBltzall, fnBltz, fnBltzl,
        fnBgezal, fnBgezall, fnBgez, fnBgezl]
  | bltzal likely rs o =>
    cases likely <;> rw [branchTarget_iWord fetched (by decide)] <;>
      simp [conditionalTarget, regimmTarget, codeTaken, codeRegisters, opRegimm, fnBltzal, fnBltzall, fnBltz, fnBltzl]
  | bgezal likely rs o =>
    cases likely <;> rw [branchTarget_iWord fetched (by decide)] <;>
      simp [conditionalTarget, regimmTarget, codeTaken, codeRegisters, offset, opRegimm, fnBltzal, fnBltzall, fnBltz, fnBltzl,
        fnBgezal, fnBgezall, fnBgez, fnBgezl, Trapframe.setGpr, regRa]

/-- The forms that compare a register with zero. -/
def tested : Branch → Option (Fin 32)
  | beq _ _ _ _ | bne _ _ _ _ => none
  | blez _ rs _ | bgtz _ rs _ | bltz _ rs _ | bgez _ rs _ | bltzal _ rs _ | bgezal _ rs _ => some rs

/-- A comparison with zero that ignores the sign is right unless the register is negative. -/
theorem codeTaken_iff (gpr : Fin 32 → BitVec 64) (b : Branch) :
    (b.codeTaken gpr = true ↔ b.Taken gpr) ↔ ∀ rs, b.tested = some rs → 0 ≤ (gpr rs).toInt := by
  have order : ∀ x : BitVec 64, (x ≤ 0 ↔ x.toInt = 0) ∧ (x > 0 ↔ x.toInt ≠ 0) := by
    intro x
    have zero : x.toInt = 0 ↔ x = 0 := by
      rw [← BitVec.toInt_zero (w := 64)]
      exact ⟨BitVec.eq_of_toInt_eq, congrArg _⟩
    rw [ne_eq, zero]
    exact ⟨BitVec.le_zero_iff, BitVec.pos_iff_ne_zero x⟩
  cases b with
  | beq likely rs rt o => simp [codeTaken, Taken, tested]
  | bne likely rs rt o => simp [codeTaken, Taken, tested]
  | blez likely rs o =>
    simp only [codeTaken, Taken, tested, decide_eq_true_eq, (order (gpr rs)).1, Option.some.injEq, forall_eq']
    omega
  | bgtz likely rs o =>
    simp only [codeTaken, Taken, tested, decide_eq_true_eq, (order (gpr rs)).2, Option.some.injEq, forall_eq']
    omega
  | bltz likely rs o => simp [codeTaken, Taken, tested]
  | bgez likely rs o => simp [codeTaken, Taken, tested]
  | bltzal likely rs o => simp [codeTaken, Taken, tested]
  | bgezal likely rs o => simp [codeTaken, Taken, tested]

theorem next_iff (gpr : Fin 32 → BitVec 64) (pc : BitVec 64) (b : Branch) :
    (if b.codeTaken gpr then pc + 4 + 4 * b.offset.signExtend 64 else pc + 8) = b.next gpr pc ↔
      (∀ rs, b.tested = some rs → 0 ≤ (gpr rs).toInt) ∨ b.offset = 1 := by
  rw [← codeTaken_iff, ← @target_eq_next pc, next]
  by_cases code : b.codeTaken gpr = true <;> by_cases taken : b.Taken gpr <;> simp [code, taken, eq_comm]

/-- `BLTZAL` is never taken by the code, so that its link is missing. -/
theorem registers_iff (gpr : Fin 32 → BitVec 64) (pc : BitVec 64) (b : Branch) :
    b.codeRegisters gpr pc = b.registers gpr pc ↔ ((∃ likely rs o, b = bltzal likely rs o) → gpr 31 = pc + 8) := by
  cases b <;> simp [codeRegisters, registers, links]

/-- `branch_target` follows the architecture on exactly these branches. -/
theorem emulated_iff (readInsn : BitVec 64 → BitVec 32) (tf : Trapframe) (pc : BitVec 64) (b : Branch)
    (fetched : readInsn pc = b.encode) : b.Emulated readInsn tf pc ↔ b.Sound tf.gpr pc := by
  have frame : ∀ g : Fin 32 → BitVec 64, ({ tf with gpr := b.codeRegisters tf.gpr pc } : Trapframe) = { tf with gpr := g } ↔
      b.codeRegisters tf.gpr pc = g := fun g => by simp
  rw [Emulated, branchTarget_eq fetched, Except.ok.injEq, Prod.mk.injEq, frame, next_iff, registers_iff]
  cases b <;> simp [tested, Sound, Harmless, offset]

/-- A frame whose registers hold 0, the register 4 apart. -/
def frameWith (v : BitVec 64) : Trapframe where
  gpr := Function.update (fun _ => 0) 4 v
  lo := 0
  hi := 0
  cp0Status := 0
  cp0Cause := 0
  cp0Badvaddr := 0
  cp0Epc := 0
  cp0Entryhi := 0

/-- A loop closed by `BGTZ` on a positive register is followed. -/
theorem emulated_loop :
    (bgtz false 4 0xfffe).Emulated (fun _ => (bgtz false 4 0xfffe).encode) (frameWith 3) 0x120000010 :=
  (emulated_iff _ _ _ _ rfl).mpr (.inl (by decide))

/-- `BLTZ` on a register that holds -1 is not taken. -/
theorem not_emulated : ¬ ∀ (readInsn : BitVec 64 → BitVec 32) (tf : Trapframe) (pc : BitVec 64) (b : Branch),
    tf.gpr 0 = 0 → readInsn pc = b.encode → b.Emulated readInsn tf pc := by
  intro always
  have taken := always (fun _ => (bltz false 4 2).encode) (frameWith (-1)) 0x120000010 (bltz false 4 2) rfl rfl
  rw [Emulated, branchTarget_eq rfl] at taken
  have target := congrArg Prod.fst (Except.ok.inj taken)
  exact absurd target (by decide)

end Branch

/-- The jumps of MIPS64. -/
inductive Jump
  | j (index : BitVec 26)
  | jal (index : BitVec 26)
  | jr (rs : Fin 32) (hint : BitVec 5)
  | jalr (rs rd : Fin 32) (hint : BitVec 5)

namespace Jump

def encode : Jump → BitVec 32
  | j index => jWord 0x02 index
  | jal index => jWord 0x03 index
  | jr rs hint => rWord 0x00 rs 0 0 hint 0x08
  | jalr rs rd hint => rWord 0x00 rs 0 rd hint 0x09

/-- `JALR` must not use one register for both. -/
def Legal : Jump → Prop
  | jalr rs rd _ => rs ≠ rd
  | _ => True

/-- Where the architecture jumps: inside of the region of the delay slot, or to the register. -/
def next (gpr : Fin 32 → BitVec 64) (pc : BitVec 64) : Jump → BitVec 64
  | j index | jal index => (pc + 4).extractLsb' 28 36 ++ index ++ 0#2
  | jr rs _ | jalr rs _ _ => gpr rs

/-- The registers after the jump. Register 0 is never written. -/
def registers (gpr : Fin 32 → BitVec 64) (pc : BitVec 64) : Jump → Fin 32 → BitVec 64
  | j _ | jr _ _ => gpr
  | jal _ => Function.update gpr 31 (pc + 8)
  | jalr _ rd _ => if rd = 0 then gpr else Function.update gpr rd (pc + 8)

def Emulated (readInsn : BitVec 64 → BitVec 32) (tf : Trapframe) (pc : BitVec 64) (b : Jump) : Prop :=
  branchTarget readInsn tf pc = .ok (b.next tf.gpr pc, { tf with gpr := b.registers tf.gpr pc })

/-- The jumps that `branch_target` gets right: it takes the region from the jump itself, and writes register 0. -/
def Sound (gpr : Fin 32 → BitVec 64) (pc : BitVec 64) : Jump → Prop
  | j _ | jal _ => pc.toNat % 2 ^ 28 + 4 < 2 ^ 28
  | jr _ _ => True
  | jalr _ rd _ => rd = 0 → gpr 0 = pc + 8

end Jump

section Fields

theorem jWord_toNat (op : BitVec 6) (index : BitVec 26) : (jWord op index).toNat = op.toNat * 2 ^ 26 + index.toNat :=
  toNat_append_eq op index

theorem opcode_jWord (op : BitVec 6) (index : BitVec 26) : opcode (jWord op index) = op.setWidth 32 := by
  have bounds := And.intro op.isLt index.isLt
  apply BitVec.eq_of_toNat_eq
  rw [opcode, field_toNat _ _ (k := 6) rfl, jWord_toNat, BitVec.toNat_setWidth]
  omega

theorem opcode_rWord (rs rd : Fin 32) (hint : BitVec 5) (func : BitVec 6) : opcode (rWord 0 rs 0 rd hint func) = 0 :=
  opcode_iWord ..

theorem rs_rWord (rs rd : Fin 32) (hint : BitVec 5) (func : BitVec 6) : rRs (rWord 0 rs 0 rd hint func) = rs :=
  iRs_iWord ..

theorem rWord_toNat (rs rd : Fin 32) (hint : BitVec 5) (func : BitVec 6) :
    (rWord 0 rs 0 rd hint func).toNat = rs * 2 ^ 21 + rd * 2 ^ 11 + hint.toNat * 2 ^ 6 + func.toNat := by
  have zero : (regBits 0).toNat = 0 ∧ (0 : BitVec 6).toNat = 0 := ⟨rfl, rfl⟩
  rw [rWord, iWord_toNat, zero.1, zero.2]
  simp only [toNat_append_eq, regBits_toNat]
  ring

theorem rd_rWord (rs rd : Fin 32) (hint : BitVec 5) (func : BitVec 6) : rRd (rWord 0 rs 0 rd hint func) = rd := by
  have bounds := And.intro rd.isLt (And.intro hint.isLt func.isLt)
  apply Fin.ext
  rw [rRd, regField_val, rWord_toNat]
  omega

theorem func_rWord (rs rd : Fin 32) (hint : BitVec 5) (func : BitVec 6) :
    rFunc (rWord 0 rs 0 rd hint func) = func.setWidth 32 := by
  have low := field_toNat (rWord 0 rs 0 rd hint func) 0 (m := 0x3f) (k := 6) rfl
  have small := func.isLt
  apply BitVec.eq_of_toNat_eq
  rw [BitVec.ushiftRight_zero, rWord_toNat] at low
  rw [rFunc, low, BitVec.toNat_setWidth]
  omega

/-- The masks put the index into the region of the jump. -/
theorem jumpTarget_jWord (op : BitVec 6) (index : BitVec 26) :
    (jumpTarget pc (jWord op index)).toNat = pc.toNat / 2 ^ 28 * 2 ^ 28 + index.toNat * 4 := by
  have low := field_toNat (jWord op index) 0 (m := jIndexMask) (k := 26) rfl
  have small := index.isLt
  have mask : ((~~~jActualIndexMask).signExtend 64).toNat = 2 ^ 64 - 1 - lowbits 28 := rfl
  have region : pc.toNat &&& (2 ^ 64 - 1 - lowbits 28) = pc.toNat / 2 ^ 28 * 2 ^ 28 := pow2Rounddown_eq pc.isLt (by decide)
  have place : ((jIndex (jWord op index)).setWidth 64).toNat = index.toNat * 4 := by
    rw [BitVec.ushiftRight_zero, jWord_toNat] at low
    rw [jIndex, BitVec.toNat_setWidth, BitVec.toNat_shiftLeft, low, Nat.shiftLeft_eq]
    omega
  rw [jumpTarget, BitVec.toNat_or, BitVec.toNat_and, mask, region, place, ← Nat.shiftLeft_eq,
    Nat.shiftLeft_add_eq_or_of_lt (by omega)]

end Fields

namespace Jump

/-- The region of the jump and the region of its delay slot differ for the last word of a region. -/
theorem next_iff (op : BitVec 6) (index : BitVec 26) :
    jumpTarget pc (jWord op index) = (pc + 4).extractLsb' 28 36 ++ index ++ 0#2 ↔ pc.toNat % 2 ^ 28 + 4 < 2 ^ 28 := by
  have small := And.intro index.isLt pc.isLt
  have slot : ((pc + 4).extractLsb' 28 36 ++ index ++ 0#2).toNat =
      (pc.toNat + 4) % 2 ^ 64 / 2 ^ 28 % 2 ^ 36 * 2 ^ 28 + index.toNat * 4 := by
    have four : (4 : BitVec 64).toNat = 4 := rfl
    have zero : (0#2).toNat = 0 := rfl
    rw [toNat_append_eq, toNat_append_eq, BitVec.extractLsb'_toNat, BitVec.toNat_add, Nat.shiftRight_eq_div_pow, four, zero]
    omega
  rw [← BitVec.toNat_inj, jumpTarget_jWord, slot]
  omega

/-- Where `branch_target` goes. -/
def codeNext (gpr : Fin 32 → BitVec 64) (pc : BitVec 64) : Jump → BitVec 64
  | j index => jumpTarget pc (jWord 2 index)
  | jal index => jumpTarget pc (jWord 3 index)
  | jr rs _ | jalr rs _ _ => gpr rs

/-- The registers `branch_target` leaves. -/
def codeRegisters (gpr : Fin 32 → BitVec 64) (pc : BitVec 64) : Jump → Fin 32 → BitVec 64
  | j _ | jr _ _ => gpr
  | jal _ => Function.update gpr 31 (pc + 8)
  | jalr _ rd _ => Function.update gpr rd (pc + 8)

theorem branchTarget_eq {b : Jump} (legal : b.Legal) (fetched : readInsn pc = b.encode) :
    branchTarget readInsn tf pc = .ok (b.codeNext tf.gpr pc, { tf with gpr := b.codeRegisters tf.gpr pc }) := by
  cases b with
  | j index => simp [branchTarget, fetched, encode, opcode_jWord, opSpecial, opJal, opJ, codeNext, codeRegisters]
  | jal index =>
    simp [branchTarget, fetched, encode, opcode_jWord, opSpecial, opJal, regRa, codeNext, codeRegisters, Trapframe.setGpr]
  | jr rs hint =>
    simp only [branchTarget, fetched, encode, opcode_rWord, rs_rWord, func_rWord]
    rfl
  | jalr rs rd hint =>
    have run : branchTarget readInsn tf pc = .ok ((tf.setGpr rd (pc + 8)).gpr rs, tf.setGpr rd (pc + 8)) := by
      simp only [branchTarget, fetched, encode, opcode_rWord, rs_rWord, rd_rWord, func_rWord]
      rfl
    have kept : (tf.setGpr rd (pc + 8)).gpr rs = tf.gpr rs := Function.update_of_ne legal _ _
    rw [run, kept, Trapframe.setGpr, codeNext, codeRegisters]

/-- `branch_target` follows the architecture on exactly these jumps. -/
theorem jumped_iff (readInsn : BitVec 64 → BitVec 32) (tf : Trapframe) (pc : BitVec 64) (b : Jump) (legal : b.Legal)
    (fetched : readInsn pc = b.encode) : b.Emulated readInsn tf pc ↔ b.Sound tf.gpr pc := by
  have frame : ∀ g g' : Fin 32 → BitVec 64, ({ tf with gpr := g } : Trapframe) = { tf with gpr := g' } ↔ g = g' :=
    fun g g' => by simp
  rw [Emulated, branchTarget_eq legal fetched, Except.ok.injEq, Prod.mk.injEq, frame]
  cases b with
  | j index =>
    rw [Sound, ← next_iff 2 index]
    simp [codeNext, codeRegisters, next, registers]
  | jal index =>
    rw [Sound, ← next_iff 3 index]
    simp [codeNext, codeRegisters, next, registers]
  | jr rs hint => simp [codeNext, codeRegisters, Sound, next, registers]
  | jalr rs rd hint =>
    rw [codeRegisters, registers, Sound]
    by_cases zero : rd = 0
    · simp [codeNext, next, zero, eq_comm]
    · simp [codeNext, next, zero]

open Branch (frameWith)

/-- `JALR $31, $4` jumps to register 4. -/
theorem jumped_call :
    (jalr 4 31 0).Emulated (fun _ => (jalr 4 31 0).encode) (frameWith 0x120000400) 0x120000010 :=
  (jumped_iff _ _ _ (jalr 4 31 0) (show (4 : Fin 32) ≠ 31 by decide) rfl).mpr (fun zero => absurd zero (by decide))

/-- `J` in the last word of a region stays in it, and its delay slot is in the next one. -/
theorem not_jumped : ¬ ∀ (readInsn : BitVec 64 → BitVec 32) (tf : Trapframe) (pc : BitVec 64) (b : Jump),
    tf.gpr 0 = 0 → b.Legal → readInsn pc = b.encode → b.Emulated readInsn tf pc := by
  intro always
  have jumped := always (fun _ => (j 1).encode) (frameWith 0) 0x12ffffffc (j 1) rfl trivial rfl
  have target := congrArg Prod.fst (Except.ok.inj jumped)
  exact absurd target (by decide)

end Jump

end Xv6
