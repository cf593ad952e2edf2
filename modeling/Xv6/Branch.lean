import Xv6.Machine

namespace Xv6

/-- `struct trapframe` -/
structure Trapframe where
  gpr : Fin 32 → BitVec 64
  lo : BitVec 64
  hi : BitVec 64
  cp0Status : BitVec 64
  cp0Cause : BitVec 64
  cp0Badvaddr : BitVec 64
  cp0Epc : BitVec 64
  cp0Entryhi : BitVec 64

def Trapframe.setGpr (tf : Trapframe) (r : Fin 32) (v : BitVec 64) : Trapframe :=
  { tf with gpr := Function.update tf.gpr r v }

/-- For the numerals among the registers. -/
instance neZeroGpr : NeZero 32 := ⟨by decide⟩

/-- `_RA` -/
def regRa : Fin 32 := 31

def opSpecial : BitVec 32 := 0x00
def fnJr : BitVec 32 := 0x08
def fnJalr : BitVec 32 := 0x09
def opRegimm : BitVec 32 := 0x01
def fnBltz : BitVec 32 := 0x00
def fnBgez : BitVec 32 := 0x01
def fnBltzl : BitVec 32 := 0x02
def fnBgezl : BitVec 32 := 0x03
def fnBltzal : BitVec 32 := 0x10
def fnBgezal : BitVec 32 := 0x11
def fnBltzall : BitVec 32 := 0x12
def fnBgezall : BitVec 32 := 0x13
def opJ : BitVec 32 := 0x02
def opJal : BitVec 32 := 0x03
def opBeq : BitVec 32 := 0x04
def opBne : BitVec 32 := 0x05
def opBlez : BitVec 32 := 0x06
def opBgtz : BitVec 32 := 0x07
def opBeql : BitVec 32 := 0x14
def opBnel : BitVec 32 := 0x15
def opBlezl : BitVec 32 := 0x16
def opBgtzl : BitVec 32 := 0x17

/-- `CR_BD` -/
def crBd : BitVec 64 := 0x80000000

def opcode (insn : BitVec 32) : BitVec 32 := insn >>> 26 &&& 0x3f

/-- A field of five bits that names a register. -/
def regField (insn : BitVec 32) (shift : Nat) : Fin 32 := Fin.ofNat 32 (insn >>> shift &&& 0x1f).toNat

def rRs (insn : BitVec 32) : Fin 32 := regField insn 21
def rRd (insn : BitVec 32) : Fin 32 := regField insn 11
def rFunc (insn : BitVec 32) : BitVec 32 := insn &&& 0x3f

def iRs (insn : BitVec 32) : Fin 32 := regField insn 21
def iRt (insn : BitVec 32) : Fin 32 := regField insn 16
def iImmediate (insn : BitVec 32) : BitVec 32 := insn &&& 0xffff
def iFunc (insn : BitVec 32) : BitVec 32 := insn >>> 16 &&& 0x1f

/-- `I_OFFSET`: a signed short. -/
def iOffset (insn : BitVec 32) : BitVec 16 := (iImmediate insn).setWidth 16

/-- `I_IOFFSET`: the cast to unsigned long extends the sign. -/
def iIoffset (insn : BitVec 32) : BitVec 64 := (iOffset insn).signExtend 64 <<< 2

def jIndexMask : BitVec 32 := 1 <<< 26 - 1
def jActualIndexMask : BitVec 32 := 1 <<< 28 - 1
def jIndex (insn : BitVec 32) : BitVec 32 := (insn &&& jIndexMask) <<< 2

/-- Where `J` and `JAL` go. The mask is an int, whose complement is negative. -/
def jumpTarget (pc : BitVec 64) (insn : BitVec 32) : BitVec 64 :=
  pc &&& (~~~jActualIndexMask).signExtend 64 ||| (jIndex insn).setWidth 64

section Target

variable (tf : Trapframe) (rs : Fin 32) (branchPc contPc : BitVec 64)

/-- The cases of `OP_REGIMM`; the registers are unsigned. -/
def regimmTarget (func : BitVec 32) : Res (BitVec 64 × Trapframe) :=
  if func = fnBltzal ∨ func = fnBltzall ∨ func = fnBltz ∨ func = fnBltzl then
    let tf := if (func = fnBltzal ∨ func = fnBltzall) ∧ tf.gpr rs < 0 then tf.setGpr regRa contPc else tf
    .ok (if tf.gpr rs < 0 then branchPc else contPc, tf)
  else if func = fnBgezal ∨ func = fnBgezall ∨ func = fnBgez ∨ func = fnBgezl then
    let tf := if (func = fnBgezal ∨ func = fnBgezall) ∧ tf.gpr rs ≥ 0 then tf.setGpr regRa contPc else tf
    .ok (if tf.gpr rs ≥ 0 then branchPc else contPc, tf)
  else .error .panic

/-- The part of `branch_target` behind the jumps. -/
def conditionalTarget (insn : BitVec 32) : Res (BitVec 64 × Trapframe) :=
  let op := opcode insn
  let rt := iRt insn
  if op = opRegimm then regimmTarget tf rs branchPc contPc (iFunc insn)
  else if op = opBlez ∨ op = opBlezl then .ok (if tf.gpr rs ≤ 0 then branchPc else contPc, tf)
  else if op = opBgtz ∨ op = opBgtzl then .ok (if tf.gpr rs > 0 then branchPc else contPc, tf)
  else if op = opBeq ∨ op = opBeql then .ok (if tf.gpr rs = tf.gpr rt then branchPc else contPc, tf)
  else if op = opBne ∨ op = opBnel then .ok (if tf.gpr rs ≠ tf.gpr rt then branchPc else contPc, tf)
  else .error .panic

end Target

/-- `branch_target`, over what `read_insn` finds in memory. -/
def branchTarget (readInsn : BitVec 64 → BitVec 32) (tf : Trapframe) (pc : BitVec 64) : Res (BitVec 64 × Trapframe) :=
  let insn := readInsn pc
  let op := opcode insn
  let contPc := pc + 8
  if op = opSpecial then
    let rs := rRs insn
    let rd := rRd insn
    let func := rFunc insn
    if func = fnJalr then
      let tf := tf.setGpr rd contPc
      .ok (tf.gpr rs, tf)
    else if func = fnJr then .ok (tf.gpr rs, tf)
    else .error .panic
  else if op = opJal then .ok (jumpTarget pc insn, tf.setGpr regRa contPc)
  else if op = opJ then .ok (jumpTarget pc insn, tf)
  else conditionalTarget tf (iRs insn) (pc + iIoffset insn + 4) contPc insn

/-- `skip_victim` -/
def skipVictim (readInsn : BitVec 64 → BitVec 32) (tf : Trapframe) : Res Trapframe :=
  if tf.cp0Cause &&& crBd ≠ 0 then do
    let (target, tf) ← branchTarget readInsn tf tf.cp0Epc
    .ok { tf with cp0Epc := target }
  else .ok { tf with cp0Epc := tf.cp0Epc + 4 }

end Xv6
