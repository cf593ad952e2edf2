import Xv6.Branch
import Xv6.Lib.Updates

namespace Xv6.Asm

@[simp] abbrev zero : Fin 32 := 0
@[simp] abbrev AT : Fin 32 := 1
@[simp] abbrev v0 : Fin 32 := 2
@[simp] abbrev v1 : Fin 32 := 3
@[simp] abbrev a0 : Fin 32 := 4
@[simp] abbrev a1 : Fin 32 := 5
@[simp] abbrev a2 : Fin 32 := 6
@[simp] abbrev a3 : Fin 32 := 7
@[simp] abbrev t0 : Fin 32 := 8
@[simp] abbrev t1 : Fin 32 := 9
@[simp] abbrev t2 : Fin 32 := 10
@[simp] abbrev t3 : Fin 32 := 11
@[simp] abbrev t4 : Fin 32 := 12
@[simp] abbrev t5 : Fin 32 := 13
@[simp] abbrev t6 : Fin 32 := 14
@[simp] abbrev t7 : Fin 32 := 15
@[simp] abbrev s0 : Fin 32 := 16
@[simp] abbrev s1 : Fin 32 := 17
@[simp] abbrev s2 : Fin 32 := 18
@[simp] abbrev s3 : Fin 32 := 19
@[simp] abbrev s4 : Fin 32 := 20
@[simp] abbrev s5 : Fin 32 := 21
@[simp] abbrev s6 : Fin 32 := 22
@[simp] abbrev s7 : Fin 32 := 23
@[simp] abbrev t8 : Fin 32 := 24
@[simp] abbrev t9 : Fin 32 := 25
@[simp] abbrev k0 : Fin 32 := 26
@[simp] abbrev k1 : Fin 32 := 27
@[simp] abbrev gp : Fin 32 := 28
@[simp] abbrev sp : Fin 32 := 29
@[simp] abbrev s8 : Fin 32 := 30
@[simp] abbrev ra : Fin 32 := 31

inductive Cp0
  | status | cause | badvaddr | epc | entryhi | ebase
  deriving DecidableEq

/-- The instructions of the trap and switching code. `ldSymbol` and `sdSymbol` are the macros of the assembler for an
address relative to a symbol; the second leaves `scratch` in AT. `beqz` skips instructions behind its delay slot. -/
inductive Insn
  | sd (rt : Fin 32) (offset : BitVec 64) (base : Fin 32)
  | ld (rt : Fin 32) (offset : BitVec 64) (base : Fin 32)
  | sdSymbol (rt : Fin 32) (symbol : BitVec 64) (index : Fin 32) (scratch : BitVec 64)
  | ldSymbol (rt : Fin 32) (symbol : BitVec 64) (index : Fin 32)
  | move (rd rs : Fin 32)
  | li (rt : Fin 32) (imm : BitVec 64)
  | andi (rt rs : Fin 32) (imm : BitVec 64)
  | ori (rt rs : Fin 32) (imm : BitVec 64)
  | xori (rt rs : Fin 32) (imm : BitVec 64)
  | and (rd rs rt : Fin 32)
  | or (rd rs rt : Fin 32)
  | nor (rd rs rt : Fin 32)
  | dsll (rd rt : Fin 32) (sa : Nat)
  | dsubu (rd rs : Fin 32) (imm : BitVec 64)
  | mflo (rd : Fin 32)
  | mfhi (rd : Fin 32)
  | mtlo (rs : Fin 32)
  | mthi (rs : Fin 32)
  | mfc0 (rt : Fin 32) (rd : Cp0)
  | dmfc0 (rt : Fin 32) (rd : Cp0)
  | mtc0 (rt : Fin 32) (rd : Cp0)
  | dmtc0 (rt : Fin 32) (rd : Cp0)
  | beqz (rs : Fin 32) (skip : Nat)

/-- What a processor and the memory hold. The memory is one of doublewords, for the code has no other access. -/
structure Core where
  gpr : Fin 32 → BitVec 64
  lo : BitVec 64
  hi : BitVec 64
  status : BitVec 32
  cause : BitVec 32
  badvaddr : BitVec 64
  epc : BitVec 64
  entryhi : BitVec 64
  ebase : BitVec 32
  mem : BitVec 64 → BitVec 64

/-- The bits of Cause that software may write. -/
def causeMask : BitVec 32 := 0x08c00300

def Aligned (a : BitVec 64) : Prop := a.toNat % 8 = 0

instance aligned_decidable (a : BitVec 64) : Decidable (Aligned a) := inferInstanceAs (Decidable (_ = _))

/-- What is said of the members of a list is decided along the list. -/
instance (priority := high) members_decidable {α : Type} (l : List α) (p : α → Prop) [DecidablePred p] :
    Decidable (∀ x ∈ l, p x) := List.decidableBAll p l

theorem aligned_add {a offset : BitVec 64} (eights : Aligned offset) : Aligned (a + offset) ↔ Aligned a := by
  simp only [Aligned, BitVec.toNat_add] at *
  omega

theorem aligned_sub {a offset : BitVec 64} (eights : Aligned offset) : Aligned (a - offset) ↔ Aligned a := by
  simp only [Aligned, BitVec.toNat_sub] at *
  omega

namespace Core

/-- The register 0 is not written. -/
def set (s : Core) (r : Fin 32) (v : BitVec 64) : Core :=
  if r = zero then s else { s with gpr := Function.update s.gpr r v }

/-- The registers of 32 bits are read with their sign. -/
def cp0 (s : Core) : Cp0 → BitVec 64
  | .status => s.status.signExtend 64
  | .cause => s.cause.signExtend 64
  | .badvaddr => s.badvaddr
  | .epc => s.epc
  | .entryhi => s.entryhi
  | .ebase => s.ebase.signExtend 64

/-- BadVAddr is read only, and the code does not write EBase. -/
def setCp0 (s : Core) (v : BitVec 64) : Cp0 → Core
  | .status => { s with status := v.setWidth 32 }
  | .cause => { s with cause := s.cause &&& ~~~causeMask ||| v.setWidth 32 &&& causeMask }
  | .badvaddr => s
  | .epc => { s with epc := v }
  | .entryhi => { s with entryhi := v }
  | .ebase => s

/-- An address that is not aligned raises an exception. -/
def store (s : Core) (a v : BitVec 64) : Option Core :=
  if Aligned a then some { s with mem := Function.update s.mem a v } else none

def load (s : Core) (r : Fin 32) (a : BitVec 64) : Option Core :=
  if Aligned a then some (s.set r (s.mem a)) else none

/-- One instruction. `w` is what `mtc0` leaves in EPC, which has 64 bits: a matter of the processor. -/
def step (w : BitVec 64 → BitVec 64) (s : Core) : Insn → Option Core
  | .sd rt offset base => s.store (s.gpr base + offset) (s.gpr rt)
  | .ld rt offset base => s.load rt (s.gpr base + offset)
  | .sdSymbol rt symbol index scratch => (s.set AT scratch).store (symbol + s.gpr index) (s.gpr rt)
  | .ldSymbol rt symbol index => s.load rt (symbol + s.gpr index)
  | .move rd rs => some (s.set rd (s.gpr rs))
  | .li rt imm => some (s.set rt imm)
  | .andi rt rs imm => some (s.set rt (s.gpr rs &&& imm))
  | .ori rt rs imm => some (s.set rt (s.gpr rs ||| imm))
  | .xori rt rs imm => some (s.set rt (s.gpr rs ^^^ imm))
  | .and rd rs rt => some (s.set rd (s.gpr rs &&& s.gpr rt))
  | .or rd rs rt => some (s.set rd (s.gpr rs ||| s.gpr rt))
  | .nor rd rs rt => some (s.set rd (~~~(s.gpr rs ||| s.gpr rt)))
  | .dsll rd rt sa => some (s.set rd (s.gpr rt <<< sa))
  | .dsubu rd rs imm => some (s.set rd (s.gpr rs - imm))
  | .mflo rd => some (s.set rd s.lo)
  | .mfhi rd => some (s.set rd s.hi)
  | .mtlo rs => some { s with lo := s.gpr rs }
  | .mthi rs => some { s with hi := s.gpr rs }
  | .mfc0 rt rd => some (s.set rt (((s.cp0 rd).setWidth 32).signExtend 64))
  | .dmfc0 rt rd => some (s.set rt (s.cp0 rd))
  | .mtc0 rt .epc => some { s with epc := w (s.gpr rt) }
  | .mtc0 rt rd => some (s.setCp0 (s.gpr rt) rd)
  | .dmtc0 rt rd => some (s.setCp0 (s.gpr rt) rd)
  | .beqz _ _ => some s

/-- How many instructions behind the delay slot are not executed. -/
def branch (s : Core) : Insn → Nat
  | .beqz rs n => if s.gpr rs = 0 then n else 0
  | _ => 0

/-- Run the code: `pending` is the branch behind the next instruction, and `skip` what the last one jumps over. -/
def exec (w : BitVec 64 → BitVec 64) : List Insn → Nat → Nat → Core → Option Core
  | [], _, _, s => some s
  | _ :: rest, pending, skip + 1, s => exec w rest pending skip s
  | i :: rest, pending, 0, s => do exec w rest (s.branch i) pending (← s.step w i)

def run (w : BitVec 64 → BitVec 64) (code : List Insn) (s : Core) : Option Core := exec w code 0 0 s

section Steps

variable {w : BitVec 64 → BitVec 64} {rest : List Insn} {s : Core} {r r' r'' base : Fin 32} {offset imm : BitVec 64}

@[simp] theorem run_nil : s.run w [] = some s := rfl

theorem run_sd (slot : Aligned (s.gpr base + offset)) :
    s.run w (.sd r offset base :: rest) =
      run w rest { s with mem := Function.update s.mem (s.gpr base + offset) (s.gpr r) } := by
  simp [run, exec, branch, step, store, slot]

theorem run_ld (slot : Aligned (s.gpr base + offset)) :
    s.run w (.ld r offset base :: rest) = run w rest (s.set r (s.mem (s.gpr base + offset))) := by
  simp [run, exec, branch, step, load, slot]

theorem run_sdSymbol {symbol scratch : BitVec 64} (slot : Aligned (symbol + s.gpr base)) :
    s.run w (.sdSymbol r symbol base scratch :: rest) =
      run w rest { s.set AT scratch with mem := Function.update s.mem (symbol + s.gpr base) (s.gpr r) } := by
  simp [run, exec, branch, step, store, slot, set]

@[simp] theorem run_move : s.run w (.move r r' :: rest) = run w rest (s.set r (s.gpr r')) := rfl

@[simp] theorem run_li : s.run w (.li r imm :: rest) = run w rest (s.set r imm) := rfl

@[simp] theorem run_andi : s.run w (.andi r r' imm :: rest) = run w rest (s.set r (s.gpr r' &&& imm)) := rfl

@[simp] theorem run_ori : s.run w (.ori r r' imm :: rest) = run w rest (s.set r (s.gpr r' ||| imm)) := rfl

@[simp] theorem run_xori : s.run w (.xori r r' imm :: rest) = run w rest (s.set r (s.gpr r' ^^^ imm)) := rfl

@[simp] theorem run_and : s.run w (.and r r' r'' :: rest) = run w rest (s.set r (s.gpr r' &&& s.gpr r'')) := rfl

@[simp] theorem run_or : s.run w (.or r r' r'' :: rest) = run w rest (s.set r (s.gpr r' ||| s.gpr r'')) := rfl

@[simp] theorem run_nor : s.run w (.nor r r' r'' :: rest) = run w rest (s.set r (~~~(s.gpr r' ||| s.gpr r''))) := rfl

@[simp] theorem run_dsll {sa : Nat} : s.run w (.dsll r r' sa :: rest) = run w rest (s.set r (s.gpr r' <<< sa)) := rfl

@[simp] theorem run_mflo : s.run w (.mflo r :: rest) = run w rest (s.set r s.lo) := rfl

@[simp] theorem run_mfhi : s.run w (.mfhi r :: rest) = run w rest (s.set r s.hi) := rfl

@[simp] theorem run_mtlo : s.run w (.mtlo r :: rest) = run w rest { s with lo := s.gpr r } := rfl

@[simp] theorem run_mthi : s.run w (.mthi r :: rest) = run w rest { s with hi := s.gpr r } := rfl

@[simp] theorem run_mfc0 {rd : Cp0} :
    s.run w (.mfc0 r rd :: rest) = run w rest (s.set r (((s.cp0 rd).setWidth 32).signExtend 64)) := rfl

@[simp] theorem run_dmfc0 {rd : Cp0} : s.run w (.dmfc0 r rd :: rest) = run w rest (s.set r (s.cp0 rd)) := rfl

@[simp] theorem run_mtc0_epc : s.run w (.mtc0 r .epc :: rest) = run w rest { s with epc := w (s.gpr r) } := rfl

@[simp] theorem run_mtc0_status :
    s.run w (.mtc0 r .status :: rest) = run w rest { s with status := (s.gpr r).setWidth 32 } := rfl

@[simp] theorem run_mtc0_cause : s.run w (.mtc0 r .cause :: rest) = run w rest (s.setCp0 (s.gpr r) .cause) := rfl

@[simp] theorem run_dmtc0 {rd : Cp0} : s.run w (.dmtc0 r rd :: rest) = run w rest (s.setCp0 (s.gpr r) rd) := rfl

/-- Stores relative to one register. -/
def stores (base : Fin 32) (l : List (BitVec 64 × Fin 32)) : List Insn := l.map fun p => .sd p.2 p.1 base

/-- Loads relative to one register. -/
def loads (base : Fin 32) (l : List (Fin 32 × BitVec 64)) : List Insn := l.map fun p => .ld p.1 p.2 base

/-- The doublewords at offsets from `b`. -/
def offsets (b : BitVec 64) (l : List (BitVec 64 × BitVec 64)) : List (BitVec 64 × BitVec 64) := l.map (Prod.map (b + ·) id)

theorem run_stores {l : List (BitVec 64 × Fin 32)} (aligned : Aligned (s.gpr base)) (eights : ∀ p ∈ l, Aligned p.1) :
    s.run w (stores base l ++ rest) =
      run w rest { s with mem := updates s.mem (offsets (s.gpr base) (l.map (Prod.map id s.gpr))) } := by
  induction l generalizing s with
  | nil => rfl
  | cons p l ih =>
    have slot := (aligned_add (eights p List.mem_cons_self)).mpr aligned
    exact (run_sd slot).trans (ih aligned fun q member => eights q (List.mem_cons_of_mem p member))

section Loads

variable {b : BitVec 64} {slot : BitVec 64 → BitVec 64}

/-- A load of a doubleword behind `b`. -/
theorem run_ld_slot (atBase : s.gpr base = b) (memory : ∀ offset, s.mem (b + offset) = slot offset) (aligned : Aligned b)
    (eights : Aligned offset) : s.run w (.ld r offset base :: rest) = run w rest (s.set r (slot offset)) := by
  have within : Aligned (s.gpr base + offset) := by
    rw [atBase]
    exact (aligned_add eights).mpr aligned
  rw [run_ld within, atBase, memory]

/-- Loads that leave the base alone. -/
theorem run_loads {l : List (Fin 32 × BitVec 64)} (atBase : s.gpr base = b)
    (memory : ∀ offset, s.mem (b + offset) = slot offset) (aligned : Aligned b) (eights : ∀ p ∈ l, Aligned p.2)
    (apart : ∀ p ∈ l, p.1 ≠ zero ∧ p.1 ≠ base) :
    s.run w (loads base l ++ rest) =
      run w rest { s with gpr := updates s.gpr (l.map fun p => (p.1, slot p.2)) } := by
  induction l generalizing s with
  | nil => rfl
  | cons p l ih =>
    obtain ⟨notZero, notBase⟩ := apart p List.mem_cons_self
    have kept : Function.update s.gpr p.1 (slot p.2) base = b := by
      rw [Function.update_of_ne (Ne.symm notBase), atBase]
    have first : s.run w (.ld p.1 p.2 base :: (loads base l ++ rest)) = _ :=
      run_ld_slot atBase memory aligned (eights p List.mem_cons_self)
    rw [set, if_neg notZero] at first
    exact first.trans (ih kept memory (fun q member => eights q (List.mem_cons_of_mem p member))
      fun q member => apart q (List.mem_cons_of_mem p member))

end Loads

theorem setWidth_signExtend (x : BitVec 32) : (x.signExtend 64).setWidth 32 = x := by
  ext i low
  simp only [BitVec.getElem_setWidth, BitVec.getLsbD_signExtend]
  simp [low, show i < 64 by omega]

end Steps

/-- `eret`: leave the exception level. From the error level it would leave by another register. -/
def eret (s : Core) : Option (BitVec 64 × Core) :=
  if s.status &&& 4 = 0 then some (s.epc, { s with status := s.status &&& ~~~2 }) else none

end Core

end Xv6.Asm
