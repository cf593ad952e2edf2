import Xv6.PageTable

namespace Xv6.TlbEx

/-- The two registers exception handlers may use. -/
inductive Reg
  | k0 | k1
  deriving DecidableEq

inductive Cp0
  | entryHi | badVaddr | entryLo0 | entryLo1
  deriving DecidableEq

/-- The instructions of the refill handler; a branch target is the number of an
instruction. -/
inductive Instr
  | dmfc0 (rt : Reg) (rd : Cp0)
  | dmtc0 (rt : Reg) (rd : Cp0)
  | dla (rt : Reg) (address : Nat)
  | andi (rt rs : Reg) (imm : Nat)
  | ori (rt rs : Reg) (imm : Nat)
  | xori (rt rs : Reg) (imm : Nat)
  | daddu (rd rs rt : Reg)
  | daddiu (rt rs : Reg) (imm : Nat)
  | dsll (rd rt : Reg) (sa : Nat)
  | dsrl (rd rt : Reg) (sa : Nat)
  | drotr (rd rt : Reg) (sa : Nat)
  | ld (rt base : Reg)
  | beqz (rs : Reg) (target : Nat)
  | bnez (rs : Reg) (target : Nat)
  | j (target : Nat)
  | nop
  | tlbwr
  | eret
  deriving DecidableEq

/-- The processor inside the handler: `npc` is the instruction after the one at
`pc`, so that a branch only takes effect behind its delay slot. -/
structure State where
  pc : Nat
  npc : Nat
  k0 : Nat
  k1 : Nat
  badVaddr : Nat
  cpu : Cpu

namespace State

def reg (s : State) : Reg → Nat
  | .k0 => s.k0
  | .k1 => s.k1

def setReg (s : State) (r : Reg) (v : Nat) : State :=
  match r with
  | .k0 => { s with k0 := v }
  | .k1 => { s with k1 := v }

def cp0 (s : State) : Cp0 → Nat
  | .entryHi => s.cpu.entryHi
  | .badVaddr => s.badVaddr
  | .entryLo0 => s.cpu.entryLo0
  | .entryLo1 => s.cpu.entryLo1

def setCp0 (s : State) (r : Cp0) (v : Nat) : State :=
  match r with
  | .entryHi => { s with cpu := { s.cpu with entryHi := v } }
  | .badVaddr => { s with badVaddr := v }
  | .entryLo0 => { s with cpu := { s.cpu with entryLo0 := v } }
  | .entryLo1 => { s with cpu := { s.cpu with entryLo1 := v } }

/-- Go on to the next instruction, and from there to `npc`. -/
def goto (s : State) (npc : Nat) : State := { s with pc := s.npc, npc := npc }

def next (s : State) : State := s.goto (s.npc + 1)

/-- One instruction; `tlbwr` writes the entry the hardware picks. -/
def step (mem : ByteMem) (random : Nat) (s : State) : Instr → State
  | .dmfc0 rt rd => (s.setReg rt (s.cp0 rd)).next
  | .dmtc0 rt rd => (s.setCp0 rd (s.reg rt)).next
  | .dla rt address => (s.setReg rt address).next
  | .andi rt rs imm => (s.setReg rt (s.reg rs &&& imm)).next
  | .ori rt rs imm => (s.setReg rt (s.reg rs ||| imm)).next
  | .xori rt rs imm => (s.setReg rt (s.reg rs ^^^ imm)).next
  | .daddu rd rs rt => (s.setReg rd ((s.reg rs + s.reg rt) % 2 ^ 64)).next
  | .daddiu rt rs imm => (s.setReg rt ((s.reg rs + imm) % 2 ^ 64)).next
  | .dsll rd rt sa => (s.setReg rd (s.reg rt <<< sa % 2 ^ 64)).next
  | .dsrl rd rt sa => (s.setReg rd (s.reg rt >>> sa)).next
  | .drotr rd rt sa => (s.setReg rd (rotateRight (s.reg rt) sa)).next
  | .ld rt base => (s.setReg rt (mem.load (s.reg base) 8)).next
  | .beqz rs target => s.goto (if s.reg rs = 0 then target else s.npc + 1)
  | .bnez rs target => s.goto (if s.reg rs ≠ 0 then target else s.npc + 1)
  | .j target => s.goto target
  | .nop => s.next
  | .tlbwr => { s with cpu := s.cpu.tlbwr random }.next
  | .eret => s

end State

/-- The label `1`. -/
def label1 : Nat := 32

/-- The label `2`. -/
def label2 : Nat := 34

/-- The generic handler, outside of this code. -/
def exceptGeneric : Nat := 100

open Reg Cp0 Instr

/-- `xtlb_refill`, with the address of `asid_task_set`, for a page table of three levels. -/
def xtlbRefillCode (asidTaskSet : Nat) : List Instr :=
  [ dmfc0 k0 entryHi,
    andi k1 k0 enthiAsidMask,
    dla k0 asidTaskSet,
    dsll k1 k1 3,
    daddu k1 k1 k0,
    dmfc0 k0 badVaddr,
    ld k1 k1,
    beqz k1 label1,
    dsrl k0 k0 pgdOffset,
    andi k0 k0 pdeMask,
    dsll k0 k0 3,
    daddu k1 k1 k0,
    dmfc0 k0 badVaddr,
    ld k1 k1,
    beqz k1 label1,
    dsrl k0 k0 pmdOffset,
    andi k0 k0 pdeMask,
    dsll k0 k0 3,
    daddu k1 k1 k0,
    dmfc0 k0 badVaddr,
    ld k1 k1,
    beqz k1 label1,
    dsrl k0 k0 pteOffset,
    andi k0 k0 (pdeMask - 1),
    dsll k0 k0 3,
    daddu k1 k1 k0,
    daddiu k0 k1 8,
    ld k1 k1,
    bnez k1 label2,
    ld k0 k0,
    bnez k0 label2,
    nop,
    -- 1:
    j exceptGeneric,
    nop,
    -- 2:
    ori k1 k1 ptePhys,
    ori k0 k0 ptePhys,
    xori k1 k1 ptePhys,
    xori k0 k0 ptePhys,
    drotr k1 k1 pteSoftShift,
    drotr k0 k0 pteSoftShift,
    dmtc0 k1 entryLo0,
    dmtc0 k0 entryLo1,
    tlbwr,
    eret ]

/-- How the handler is left. -/
inductive Exit
  | generic
  | eret
  deriving DecidableEq

/-- The handler runs until it is left; nothing is known about any other code. -/
def exec (mem : ByteMem) (asidTaskSet random : Nat) : Nat → State → Option (Exit × State)
  | 0, _ => none
  | n + 1, s =>
    if s.pc = exceptGeneric then some (.generic, s)
    else
      match (xtlbRefillCode asidTaskSet)[s.pc]? with
      | none => none
      | some .eret => some (.eret, s)
      | some i => exec mem asidTaskSet random n (s.step mem random i)

/-- The processor when it enters the handler. -/
def entered (c : Cpu) (badVaddr k0 k1 : Nat) : State := ⟨0, 1, k0, k1, badVaddr, c⟩

/-- The entry of `asid_task_set.online_hpt`, which is its first member. -/
def onlineHpt (mem : ByteMem) (asidTaskSet asid : Nat) : Nat := mem.load ((asid * 8 + asidTaskSet) % 2 ^ 64) 8

end Xv6.TlbEx
