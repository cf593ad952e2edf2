import Xv6.Lib.Ring
import Xv6.Lib.ByteMem

namespace Xv6

/-- Why the kernel stops: a failed `assert`, a `panic`, an access through a
pointer that is no object, an overflow of a signed counter (undefined in C),
or a loop that does not come to an end. -/
inductive Fault
  | assertion | panic | wild | overflow | diverge
  deriving DecidableEq, Repr

abbrev Res (α : Type) := Except Fault α

theorem Res.bind_eq_ok {α β : Type} {x : Res α} {f : α → Res β} {r : β} :
    (x >>= f) = .ok r ↔ ∃ a, x = .ok a ∧ f a = .ok r := by
  cases x <;> simp [bind, Except.bind]

/-- Not by `rfl`: simp would leave the step to the kernel, which may unfold the rest first. -/
@[simp] theorem Res.ok_bind {α β : Type} (a : α) (f : α → Res β) :
    ((Except.ok a : Res α) >>= f) = f a := by
  simp only [bind, Except.bind]

/-- What is returned, or `a` where nothing is. -/
def Res.value {α : Type} (a : α) : Res α → α
  | .ok b => b
  | .error _ => a

theorem Res.eq_value {α : Type} {x : Res α} (a : α) (returns : x.isOk = true) : x = .ok (x.value a) := by
  cases x with
  | ok b => rfl
  | error e => cases returns

/-- `PGSHIFT` with 16K pages. -/
def pgshift : Nat := 14

def pgsize : Nat := 16384

/-- `KERNBASE`, the cached window on the physical memory. Irreducible, for unification
must not count down from it. -/
@[irreducible] def kernbase : Nat := 0x9800000000000000

/-- `INT_MAX` -/
def intMax : Nat := 0x7fffffff

def lowbits (ord : Nat) : Nat := 2 ^ ord - 1

/-- `RSHIFT_ROUNDUP` on an unsigned long. -/
def rshiftRoundup (x ord : Nat) : Nat := ((x + lowbits ord) % 2 ^ 64) >>> ord

def nrPagesNeeded (bytes : Nat) : Nat := rshiftRoundup bytes pgshift

/-- `POW2_ROUNDDOWN`: the mask is the complement of the low bits in 64 bits. -/
def pow2Rounddown (x ord : Nat) : Nat := x &&& (2 ^ 64 - 1 - lowbits ord)

def pgaddrRounddown (addr : Nat) : Nat := pow2Rounddown addr pgshift

/-- `POW2_ROUNDUP`; the sum may wrap. -/
def pow2Roundup (x ord : Nat) : Nat := pow2Rounddown ((x + lowbits ord) % 2 ^ 64) ord

/-- `PGEND` -/
def pgend (addr : Nat) : Nat := (pgaddrRounddown addr + pgsize) % 2 ^ 64

/-- `PAGE_OFF` -/
def pageOff (vaddr : Nat) : Nat := vaddr &&& (2 ^ pgshift - 1)

/-- `NR_PAGES_SPANNED`, in the arithmetic of unsigned longs. -/
def nrPagesSpanned (addr size : Nat) : Nat :=
  let last := (addr + size + 2 ^ 64 - 1) % 2 ^ 64
  ((last >>> pgshift) + 2 ^ 64 - (addr >>> pgshift) + 1) % 2 ^ 64

theorem pageOff_eq (vaddr : Nat) : pageOff vaddr = vaddr % 16384 :=
  Nat.and_two_pow_sub_one_eq_mod vaddr 14

/-- Masking off the low bits rounds down. -/
theorem pow2Rounddown_eq {x ord : Nat} (small : x < 2 ^ 64) (le : ord ≤ 64) :
    pow2Rounddown x ord = x / 2 ^ ord * 2 ^ ord := by
  have mask : 2 ^ 64 - 1 - lowbits ord = (2 ^ (64 - ord) - 1) <<< ord := by
    rw [lowbits, Nat.shiftLeft_eq, Nat.sub_mul, ← Nat.pow_add]
    have split : 64 - ord + ord = 64 := by omega
    have positive := Nat.two_pow_pos ord
    rw [split]
    omega
  rw [pow2Rounddown, mask, ← Nat.shiftRight_eq_div_pow, ← Nat.shiftLeft_eq]
  apply Nat.eq_of_testBit_eq
  intro i
  simp only [Nat.testBit_and, Nat.testBit_shiftLeft, Nat.testBit_two_pow_sub_one, Nat.testBit_shiftRight]
  by_cases low : ord ≤ i
  · have back : ord + (i - ord) = i := by omega
    by_cases high : i - ord < 64 - ord
    · simp [low, high, back]
    · have zero : x.testBit i = false :=
        Nat.testBit_lt_two_pow (lt_of_lt_of_le small (Nat.pow_le_pow_right (by decide) (by omega)))
      simp [high, back, zero]
  · simp [low]

theorem pgaddrRounddown_eq {x : Nat} (small : x < 2 ^ 64) : pgaddrRounddown x = x / 16384 * 16384 :=
  pow2Rounddown_eq small (by decide)

theorem nrPagesSpanned_eq {addr size : Nat} (positive : 0 < size) (bound : addr + size ≤ 2 ^ 64) :
    nrPagesSpanned addr size = (addr + size - 1) / 16384 - addr / 16384 + 1 := by
  simp only [nrPagesSpanned, pgshift, Nat.shiftRight_eq_div_pow]
  omega

end Xv6
