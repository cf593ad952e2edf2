import Xv6.Machine

namespace Xv6

/-- For the numerals among the address space identifiers. -/
instance neZeroAsid : NeZero 256 := ⟨by decide⟩

/-- One TLB entry: a pair of virtual pages and the two halves they map to. The
halves are EntryLo values without their G bit, which the entry has only once. -/
structure TlbEntry where
  vpn2 : Nat
  asid : Fin 256
  global : Bool
  lo0 : Nat
  lo1 : Nat

/-- The coprocessor registers the TLB operations use, and the TLB. When a probe
misses, the low bits of `Index` are undefined: the `n`-th miss leaves `stray n`. -/
structure Cpu where
  tlbsize : Nat
  tlb : Nat → TlbEntry
  index : Nat
  entryHi : Nat
  entryLo0 : Nat
  entryLo1 : Nat
  stray : Nat → Nat
  misses : Nat

/-- `ENTHI_ASID_MASK` -/
def enthiAsidMask : Nat := 0xff

/-- `ENTRYHI_DUMMY`; the shift is done on an unsigned int. -/
def entryhiDummy (i : Nat) : Nat := (0xffffffff80000000 + i * 2 ^ (pgshift + 1) % 2 ^ 32) % 2 ^ 64

namespace Cpu

/-- The number of the pair of pages an address belongs to. -/
def vpn2Of (vaddr : Nat) : Nat := vaddr >>> (pgshift + 1)

def asid (c : Cpu) : Fin 256 :=
  ⟨c.entryHi &&& enthiAsidMask, Nat.lt_of_le_of_lt Nat.and_le_right (by decide)⟩

/-- The entry translates addresses of this pair for this address space. -/
def Matches (e : TlbEntry) (vpn2 : Nat) (asid : Fin 256) : Prop := e.vpn2 = vpn2 ∧ (e.global = true ∨ e.asid = asid)

instance (e : TlbEntry) (vpn2 : Nat) (asid : Fin 256) : Decidable (Matches e vpn2 asid) :=
  inferInstanceAs (Decidable (_ ∧ _))

/-- The P bit of `Index`, set by a probe that misses. -/
def probeFailure : Nat := 2 ^ 31

/-- `tlbp` -/
def tlbp (c : Cpu) : Cpu :=
  match (List.range c.tlbsize).find? (fun i => decide (Matches (c.tlb i) (vpn2Of c.entryHi) c.asid)) with
  | some i => { c with index := i }
  | none => { c with index := probeFailure + c.stray c.misses % c.tlbsize, misses := c.misses + 1 }

/-- The entry `Index` names, whatever its P bit. -/
def indexed (c : Cpu) : Nat := c.index % probeFailure

/-- `tlbr` -/
def tlbr (c : Cpu) : Cpu :=
  let e := c.tlb c.indexed
  let g := if e.global then 1 else 0
  { c with entryHi := e.asid ||| e.vpn2 <<< (pgshift + 1), entryLo0 := 2 * e.lo0 + g, entryLo1 := 2 * e.lo1 + g }

/-- What is written into an entry. Its G bit is that of both halves. -/
def latched (c : Cpu) : TlbEntry :=
  { vpn2 := vpn2Of c.entryHi
    asid := c.asid
    global := c.entryLo0.testBit 0 && c.entryLo1.testBit 0
    lo0 := c.entryLo0 / 2
    lo1 := c.entryLo1 / 2 }

def writeEntry (c : Cpu) (i : Nat) : Cpu := { c with tlb := Function.update c.tlb i c.latched }

/-- `tlbwi` -/
def tlbwi (c : Cpu) : Cpu := c.writeEntry c.indexed

/-- `tlbwr`, with the entry the hardware picks. -/
def tlbwr (c : Cpu) (random : Nat) : Cpu := c.writeEntry random

/-- The half of the pair that `vaddr` is in. -/
def oddPage (vaddr : Nat) : Bool := decide (vaddr &&& pgsize ≠ 0)

/-- What the hardware does before it enters the refill handler. -/
def tlbMiss (c : Cpu) (vaddr : Nat) : Cpu :=
  { c with entryHi := c.asid ||| vpn2Of vaddr <<< (pgshift + 1) }

/-- `tlb_remove`. The copies of the EntryLo registers are taken before `tlbr`
loads them, and `index` is unsigned, so that `index >= 0` always holds. -/
def tlbRemove (c : Cpu) (vaddr : Nat) : Cpu :=
  let c := { c with entryHi := c.asid ||| (vaddr >>> (pgshift + 1)) <<< (pgshift + 1) }
  let c := c.tlbp
  let index := c.index
  let entrylo1 := c.entryLo1
  let entrylo0 := c.entryLo0
  let c := c.tlbr
  let (c, entrylo1, entrylo0) :=
    if oddPage vaddr then ({ c with entryLo1 := 0 }, 0, entrylo0) else ({ c with entryLo0 := 0 }, entrylo1, 0)
  let c := if entrylo1 = 0 ∧ entrylo0 = 0 then { c with entryHi := entryhiDummy index } else c
  c.tlbwi

/-- `tlb_flush_all` -/
def tlbFlushAll (c : Cpu) : Cpu :=
  (List.range c.tlbsize).foldl
    (fun c i => { c with index := i, entryHi := entryhiDummy i, entryLo0 := 0, entryLo1 := 0 }.tlbwi) c

end Cpu

end Xv6
