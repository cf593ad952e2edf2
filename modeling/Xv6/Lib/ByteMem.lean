import Mathlib.Algebra.Order.Group.Nat
import Mathlib.Tactic.Ring

/-- Byte-addressed memory. -/
abbrev ByteMem := Nat → UInt8

namespace ByteMem

/-- The little-endian number in the `k` bytes at `a`. -/
def load (m : ByteMem) (a : Nat) : Nat → Nat
  | 0 => 0
  | k + 1 => (m a).toNat + 256 * load m (a + 1) k

/-- Write the low `k` bytes of `v` at `a`, little-endian. -/
def store (m : ByteMem) (a k v : Nat) : ByteMem :=
  fun x => if a ≤ x ∧ x < a + k then UInt8.ofNat (v / 256 ^ (x - a)) else m x

def fill (m : ByteMem) (a n : Nat) (c : UInt8) : ByteMem :=
  fun x => if a ≤ x ∧ x < a + n then c else m x

/-- Copy `n` bytes from `src` in `from` to `dst`. -/
def copyFrom (m source : ByteMem) (dst src n : Nat) : ByteMem :=
  fun x => if dst ≤ x ∧ x < dst + n then source (src + (x - dst)) else m x

theorem load_congr {m m' : ByteMem} {a k : Nat} (same : ∀ x, a ≤ x → x < a + k → m' x = m x) :
    m'.load a k = m.load a k := by
  induction k generalizing a with
  | zero => rfl
  | succ k ih =>
    have rest := ih (a := a + 1) (fun x lower upper => same x (by omega) (by omega))
    simp only [load, same a le_rfl (by omega), rest]

theorem load_lt (m : ByteMem) (a k : Nat) : m.load a k < 256 ^ k := by
  induction k generalizing a with
  | zero => simp [load]
  | succ k ih =>
    have rest := ih (a + 1)
    have byte := (m a).toNat_lt
    simp only [load, Nat.pow_succ]
    omega

theorem store_outside {m : ByteMem} {a k v x : Nat} (outside : x < a ∨ a + k ≤ x) :
    m.store a k v x = m x := by
  simp only [store]
  rw [if_neg (by omega)]

theorem fill_outside {m : ByteMem} {a n x : Nat} {c : UInt8} (outside : x < a ∨ a + n ≤ x) :
    m.fill a n c x = m x := by
  simp only [fill]
  rw [if_neg (by omega)]

theorem fill_inside {m : ByteMem} {a n x : Nat} {c : UInt8} (lower : a ≤ x) (upper : x < a + n) :
    m.fill a n c x = c := by
  simp only [fill]
  rw [if_pos ⟨lower, upper⟩]

theorem copyFrom_outside {m source : ByteMem} {dst src n x : Nat} (outside : x < dst ∨ dst + n ≤ x) :
    m.copyFrom source dst src n x = m x := by
  simp only [copyFrom]
  rw [if_neg (by omega)]

theorem copyFrom_inside {m source : ByteMem} {dst src n x : Nat} (lower : dst ≤ x) (upper : x < dst + n) :
    m.copyFrom source dst src n x = source (src + (x - dst)) := by
  simp only [copyFrom]
  rw [if_pos ⟨lower, upper⟩]

/-- Addresses that advance together are copied one to the other, and nothing else is written. -/
theorem copyFrom_along {m source : ByteMem} {dst src : Nat → Nat} {v w : Nat}
    (dstStep : ∀ i, v ≤ i → i < w → dst i = dst v + (i - v)) (srcStep : ∀ i, v ≤ i → i < w → src i = src v + (i - v)) :
    (∀ x, (∀ i, v ≤ i → i < w → x ≠ dst i) → m.copyFrom source (dst v) (src v) (w - v) x = m x) ∧
      ∀ i, v ≤ i → i < w → m.copyFrom source (dst v) (src v) (w - v) (dst i) = source (src i) := by
  refine ⟨fun x away => copyFrom_outside ?_, fun i above below => ?_⟩
  · by_contra within
    have hit := dstStep (v + (x - dst v)) (by omega) (by omega)
    exact away (v + (x - dst v)) (by omega) (by omega) (by omega)
  · rw [dstStep i above below, srcStep i above below, copyFrom_inside (by omega) (by omega), Nat.add_sub_cancel_left]

/-- Storing a byte more first writes the low byte, then the rest. -/
theorem store_succ (m : ByteMem) (a k v : Nat) :
    m.store a (k + 1) v = (m.store (a + 1) k (v / 256)).store a 1 v := by
  funext x
  simp only [store]
  by_cases first : x = a
  · subst first
    simp
  · by_cases inside : a + 1 ≤ x ∧ x < a + 1 + k
    · have power : v / 256 ^ (x - a) = v / 256 / 256 ^ (x - (a + 1)) := by
        rw [Nat.div_div_eq_div_mul, ← Nat.pow_succ']
        congr 2
        omega
      rw [if_pos (by omega), if_neg (by omega), if_pos inside, power]
    · rw [if_neg (by omega), if_neg (by omega), if_neg inside]

theorem load_store {m : ByteMem} {a k v : Nat} (fits : v < 256 ^ k) :
    (m.store a k v).load a k = v := by
  induction k generalizing m a v with
  | zero => simp at fits; simp [load, fits]
  | succ k ih =>
    have rest : v / 256 < 256 ^ k := by
      rw [Nat.pow_succ] at fits
      omega
    rw [store_succ, load]
    have high : ((m.store (a + 1) k (v / 256)).store a 1 v).load (a + 1) k =
        (m.store (a + 1) k (v / 256)).load (a + 1) k :=
      load_congr (fun x lower _ => store_outside (by omega))
    have low : ((m.store (a + 1) k (v / 256)).store a 1 v) a = UInt8.ofNat v := by
      simp [store]
    rw [high, ih rest, low, UInt8.toNat_ofNat']
    omega

theorem load_store_apart {m : ByteMem} {a b j k v : Nat} (apart : b + j ≤ a ∨ a + k ≤ b) :
    (m.store a k v).load b j = m.load b j :=
  load_congr (fun _ lower upper => store_outside (by omega))

/-- The number read from a range filled with zeros is 0. -/
theorem load_fill_zero {m : ByteMem} {a n b k : Nat} (lower : a ≤ b) (upper : b + k ≤ a + n) :
    (m.fill a n 0).load b k = 0 := by
  induction k generalizing b with
  | zero => rfl
  | succ k ih =>
    have rest := ih (b := b + 1) (by omega) (by omega)
    have byte : m.fill a n 0 b = 0 := fill_inside lower (by omega)
    simp [load, rest, byte]

end ByteMem
