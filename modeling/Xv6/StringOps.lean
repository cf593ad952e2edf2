import Xv6.Machine

namespace Xv6

/-- `TLOOP1(*dst++ = *src++)`, `t` times. -/
def byteLoop : Nat → Nat → Nat → ByteMem → ByteMem
  | 0, _, _, m => m
  | t + 1, dst, src, m => byteLoop t (dst + 1) (src + 1) (Function.update m dst (m src))

/-- `TLOOP1` does not ask first: from 0 it would count through all numbers. -/
def tloop1 (t : Nat) : Nat := if t = 0 then 2 ^ 64 else t

/-- The loop over words, `t` times. A word that is not aligned raises an address error. -/
def wordLoop : Nat → Nat → Nat → ByteMem → Res ByteMem
  | 0, _, _, m => .ok m
  | t + 1, dst, src, m =>
    if dst % 8 = 0 ∧ src % 8 = 0 then wordLoop t (dst + 8) (src + 8) (m.store dst 8 (m.load src 8)) else .error .wild

/-- How many bytes `memcpy` copies before the words if the addresses are not aligned: all, where they cannot be. -/
def alignBytes (dst src length : Nat) : Nat :=
  if (src ^^^ dst) &&& 7 ≠ 0 ∨ length < 8 then length else 8 - (src &&& 7)

/-- The words that fit, and the bytes behind them. -/
def copyWords (length dst src : Nat) (m : ByteMem) : Res ByteMem := do
  let m ← wordLoop (length / 8) dst src m
  .ok (byteLoop (length &&& 7) (dst + 8 * (length / 8)) (src + 8 * (length / 8)) m)

/-- `memcpy`, for ranges that do not wrap. -/
def memcpy (m : ByteMem) (dst src length : Nat) : Res ByteMem :=
  if length = 0 ∨ dst = src then .ok m
  else if (src ||| dst) &&& 7 ≠ 0 then
    let t := alignBytes dst src length
    copyWords (length - t) (dst + t) (src + t) (byteLoop (tloop1 t) dst src m)
  else copyWords length dst src m

section Copies

variable {m : ByteMem} {dst src t n : Nat}

/-- Bytes that are not written before they are read. -/
def Forward (dst src n : Nat) : Prop := dst ≤ src ∨ src + n ≤ dst

/-- Copies one behind the other are one copy. -/
theorem copyFrom_append (forward : Forward dst src (t + n)) :
    (m.copyFrom m dst src t).copyFrom (m.copyFrom m dst src t) (dst + t) (src + t) n = m.copyFrom m dst src (t + n) := by
  funext x
  simp only [ByteMem.copyFrom]
  by_cases second : dst + t ≤ x ∧ x < dst + t + n
  · have away : ¬ (dst ≤ src + t + (x - (dst + t)) ∧ src + t + (x - (dst + t)) < dst + t) := by
      rcases forward with below | above <;> omega
    rw [if_pos second, if_neg away, if_pos (by omega)]
    congr 1
    omega
  · rw [if_neg second]
    by_cases first : dst ≤ x ∧ x < dst + t
    · rw [if_pos first, if_pos (by omega)]
    · rw [if_neg first, if_neg (by omega)]

theorem copyFrom_one : Function.update m dst (m src) = m.copyFrom m dst src 1 := by
  funext x
  rw [Function.update_apply]
  simp only [ByteMem.copyFrom]
  by_cases here : x = dst
  · rw [if_pos here, if_pos (by omega), here, Nat.sub_self, Nat.add_zero]
  · rw [if_neg here, if_neg (by omega)]

theorem byteLoop_eq (forward : Forward dst src t) : byteLoop t dst src m = m.copyFrom m dst src t := by
  induction t generalizing dst src m with
  | zero =>
    funext x
    exact (ByteMem.copyFrom_outside (by omega)).symm
  | succ t ih =>
    have rest : Forward (dst + 1) (src + 1) t := by
      rcases forward with below | above
      · exact .inl (by omega)
      · exact .inr (by omega)
    rw [byteLoop, ih rest, copyFrom_one, Nat.add_comm t 1]
    exact copyFrom_append (Nat.add_comm t 1 ▸ forward)

/-- A byte of the number in memory. -/
theorem load_byte (m : ByteMem) (a : Nat) {k i : Nat} (within : i < k) : UInt8.ofNat (m.load a k / 256 ^ i) = m (a + i) := by
  induction k generalizing a i with
  | zero => omega
  | succ k ih =>
    have byte := (m a).toNat_lt
    cases i with
    | zero =>
      have here : m (a + 0) = m a := rfl
      rw [ByteMem.load, pow_zero, Nat.div_one, here]
      apply UInt8.toNat_inj.mp
      rw [UInt8.toNat_ofNat']
      omega
    | succ i =>
      have shift : ((m a).toNat + 256 * m.load (a + 1) k) / 256 = m.load (a + 1) k := by omega
      rw [ByteMem.load, Nat.pow_succ', ← Nat.div_div_eq_div_mul, shift, ih (a + 1) (by omega)]
      congr 1
      omega

theorem store_load (m : ByteMem) (dst src : Nat) : m.store dst 8 (m.load src 8) = m.copyFrom m dst src 8 := by
  funext x
  simp only [ByteMem.store, ByteMem.copyFrom]
  by_cases inside : dst ≤ x ∧ x < dst + 8
  · rw [if_pos inside, if_pos inside, load_byte m src (by omega)]
  · rw [if_neg inside, if_neg inside]

/-- Aligned words are copied like their bytes. -/
theorem wordLoop_eq (target : dst % 8 = 0) (source : src % 8 = 0) (forward : Forward dst src (8 * t)) :
    wordLoop t dst src m = .ok (m.copyFrom m dst src (8 * t)) := by
  induction t generalizing dst src m with
  | zero =>
    refine congrArg Except.ok (funext fun x => ?_)
    exact (ByteMem.copyFrom_outside (by omega)).symm
  | succ t ih =>
    have rest : Forward (dst + 8) (src + 8) (8 * t) := by
      rcases forward with below | above
      · exact .inl (by omega)
      · exact .inr (by omega)
    have whole : 8 * (t + 1) = 8 + 8 * t := by omega
    rw [wordLoop, if_pos ⟨target, source⟩, store_load, ih (by omega) (by omega) rest, whole]
    exact congrArg Except.ok (copyFrom_append (whole ▸ forward))

theorem or_low (a b : Nat) : (a ||| b) &&& 7 = 0 ↔ a % 8 = 0 ∧ b % 8 = 0 := by
  rw [show 7 = 2 ^ 3 - 1 from rfl, Nat.and_two_pow_sub_one_eq_mod, Nat.or_mod_two_pow, Nat.or_eq_zero_iff]

theorem xor_low (a b : Nat) : (a ^^^ b) &&& 7 = 0 ↔ a % 8 = b % 8 := by
  rw [show 7 = 2 ^ 3 - 1 from rfl, Nat.and_two_pow_sub_one_eq_mod, Nat.xor_mod_two_pow]
  constructor
  · intro zero
    calc a % 2 ^ 3 = a % 2 ^ 3 ^^^ (b % 2 ^ 3 ^^^ b % 2 ^ 3) := by rw [Nat.xor_self, Nat.xor_zero]
      _ = b % 2 ^ 3 := by rw [← Nat.xor_assoc, zero, Nat.zero_xor]
  · intro same
    rw [show a % 2 ^ 3 = b % 2 ^ 3 from same, Nat.xor_self]

theorem and_low (a : Nat) : a &&& 7 = a % 8 := by
  rw [show 7 = 2 ^ 3 - 1 from rfl, Nat.and_two_pow_sub_one_eq_mod]

theorem copyWords_eq (aligned : n < 8 ∨ dst % 8 = 0 ∧ src % 8 = 0) (forward : Forward dst src n) :
    copyWords n dst src m = .ok (m.copyFrom m dst src n) := by
  have split : n = 8 * (n / 8) + n % 8 := by omega
  have words : Forward dst src (8 * (n / 8)) := by
    rcases forward with below | above
    · exact .inl below
    · exact .inr (by omega)
  have rest : Forward (dst + 8 * (n / 8)) (src + 8 * (n / 8)) (n % 8) := by
    rcases forward with below | above
    · exact .inl (by omega)
    · exact .inr (by omega)
  have copied : wordLoop (n / 8) dst src m = .ok (m.copyFrom m dst src (8 * (n / 8))) := by
    rcases aligned with short | ⟨target, source⟩
    · rw [show n / 8 = 0 by omega]
      refine congrArg Except.ok (funext fun x => ?_)
      exact (ByteMem.copyFrom_outside (by omega)).symm
    · exact wordLoop_eq target source words
  rw [copyWords, copied, Res.ok_bind, and_low, byteLoop_eq rest, copyFrom_append (split ▸ forward), ← split]

/-- What is copied to make the addresses aligned, or all of it. -/
theorem alignBytes_spec (length : Nat) (some : length ≠ 0) (unaligned : (src ||| dst) &&& 7 ≠ 0) :
    0 < alignBytes dst src length ∧ alignBytes dst src length ≤ length ∧
      (length - alignBytes dst src length < 8 ∨
        (dst + alignBytes dst src length) % 8 = 0 ∧ (src + alignBytes dst src length) % 8 = 0) := by
  rw [alignBytes]
  split
  · exact ⟨by omega, le_rfl, .inl (by omega)⟩
  · rename_i both
    obtain ⟨same, long⟩ := not_or.mp both
    have low := (xor_low src dst).mp (not_not.mp same)
    have odd : ¬ (src % 8 = 0 ∧ dst % 8 = 0) := fun zero => unaligned ((or_low src dst).mpr zero)
    rw [and_low]
    omega

end Copies

theorem memcpy_copied {m : ByteMem} {dst src length : Nat} (forward : Forward dst src length) :
    memcpy m dst src length = .ok (m.copyFrom m dst src length) := by
  rw [memcpy]
  split
  · rename_i nothing
    refine congrArg Except.ok (funext fun x => ?_)
    simp only [ByteMem.copyFrom]
    split
    · have same : dst = src := nothing.resolve_left (by omega)
      congr 1
      omega
    · rfl
  · rename_i something
    obtain ⟨some, -⟩ := not_or.mp something
    by_cases aligned : (src ||| dst) &&& 7 = 0
    · rw [if_neg (not_not.mpr aligned)]
      exact copyWords_eq (.inr ((or_low src dst).mp aligned).symm) forward
    · obtain ⟨positive, fits, rest⟩ := alignBytes_spec length some aligned
      rw [if_pos aligned]
      obtain ⟨t, name⟩ : ∃ t, t = alignBytes dst src length := ⟨_, rfl⟩
      rw [← name] at positive fits rest ⊢
      have total : length = t + (length - t) := by omega
      have first : Forward dst src t := by
        rcases forward with below | above
        · exact .inl below
        · exact .inr (by omega)
      have second : Forward (dst + t) (src + t) (length - t) := by
        rcases forward with below | above
        · exact .inl (by omega)
        · exact .inr (by omega)
      show copyWords (length - t) (dst + t) (src + t) (byteLoop (tloop1 t) dst src m) = _
      rw [tloop1, if_neg (by omega), byteLoop_eq first, copyWords_eq rest second, copyFrom_append (total ▸ forward), ← total]

/-- `memcpy` never makes an access that is not aligned, and copies the bytes as they were, also where the ranges overlap and
the destination comes first. -/
theorem memcpy_copies (m : ByteMem) {dst src length : Nat} (forward : dst ≤ src ∨ src + length ≤ dst) :
    memcpy m dst src length = .ok (m.copyFrom m dst src length) := memcpy_copied forward

theorem memcpy_copies_odd : memcpy (fun x => UInt8.ofNat x) 3 11 30 =
    .ok (ByteMem.copyFrom (fun x => UInt8.ofNat x) (fun x => UInt8.ofNat x) 3 11 30) :=
  memcpy_copies _ (.inl (by decide))

/-- Where `trap_init` finds the vectors, from what `read_c0_ebase` gives: an int. -/
def vectorBase (ebase : BitVec 32) : BitVec 64 := 0xffffffff00000000 ||| ((ebase.signExtend 64 ||| 0x3ff) ^^^ 0x3ff)

/-- `trap_init`, up to its tests. -/
def trapInit (m : ByteMem) (ebase : BitVec 32) (exceptGeneric exceptTlb : Nat) : Res ByteMem := do
  let base := (vectorBase ebase).toNat
  let m ← memcpy m (base + 0x180) exceptGeneric 0x80
  let m ← memcpy m base exceptTlb 0x80
  let m ← memcpy m (base + 0x80) exceptTlb 0x80
  memcpy m (base + 0x100) exceptGeneric 0x80

/-- What `trap_init` leaves in the memory. -/
structure Vectors (m m' : ByteMem) (base exceptGeneric exceptTlb : Nat) : Prop where
  refill : ∀ i < 0x80, m' (base + i) = m (exceptTlb + i)
  xrefill : ∀ i < 0x80, m' (base + 0x80 + i) = m (exceptTlb + i)
  cacheError : ∀ i < 0x80, m' (base + 0x100 + i) = m (exceptGeneric + i)
  generic : ∀ i < 0x80, m' (base + 0x180 + i) = m (exceptGeneric + i)
  outside : ∀ a, a < base ∨ base + 0x200 ≤ a → m' a = m a

/-- One vector. -/
theorem memcpy_vector (m : ByteMem) {base k code : Nat} (within : k ≤ 0x180) (apart : code + 0x80 ≤ base ∨ base + 0x200 ≤ code) :
    ∃ m', memcpy m (base + k) code 0x80 = .ok m' ∧ (∀ a, a < base + k ∨ base + k + 0x80 ≤ a → m' a = m a) ∧
      ∀ i < 0x80, m' (base + k + i) = m (code + i) := by
  have forward : Forward (base + k) code 0x80 := by
    rcases apart with below | above
    · exact .inr (by omega)
    · exact .inl (by omega)
  refine ⟨_, (memcpy_copied forward), fun a away => ByteMem.copyFrom_outside away, fun i inside => ?_⟩
  rw [ByteMem.copyFrom_inside (by omega) (by omega), Nat.add_sub_cancel_left]

/-- The four vectors have the code of the handlers, if the linker did not put it where they go. -/
theorem trapInit_vectors {m : ByteMem} {ebase : BitVec 32} {exceptGeneric exceptTlb : Nat}
    (generic : exceptGeneric + 0x80 ≤ (vectorBase ebase).toNat ∨ (vectorBase ebase).toNat + 0x200 ≤ exceptGeneric)
    (tlb : exceptTlb + 0x80 ≤ (vectorBase ebase).toNat ∨ (vectorBase ebase).toNat + 0x200 ≤ exceptTlb) :
    ∃ m', trapInit m ebase exceptGeneric exceptTlb = .ok m' ∧
      Vectors m m' (vectorBase ebase).toNat exceptGeneric exceptTlb := by
  obtain ⟨base, name⟩ : ∃ base, base = (vectorBase ebase).toNat := ⟨_, rfl⟩
  rw [← name] at generic tlb ⊢
  obtain ⟨m₁, run₁, keep₁, put₁⟩ := memcpy_vector m (k := 0x180) (by decide) generic
  obtain ⟨m₂, run₂, keep₂, put₂⟩ := memcpy_vector m₁ (k := 0) (by decide) tlb
  obtain ⟨m₃, run₃, keep₃, put₃⟩ := memcpy_vector m₂ (k := 0x80) (by decide) tlb
  obtain ⟨m₄, run₄, keep₄, put₄⟩ := memcpy_vector m₃ (k := 0x100) (by decide) generic
  refine ⟨m₄, ?_, ?_⟩
  · rw [trapInit, ← name]
    show memcpy m (base + 0x180) exceptGeneric 0x80 >>= _ = _
    rw [run₁, Res.ok_bind, show memcpy m₁ base exceptTlb 0x80 = .ok m₂ from run₂, Res.ok_bind, run₃, Res.ok_bind, run₄]
  · constructor
    case refill =>
      intro i inside
      rw [keep₄ _ (by omega), keep₃ _ (by omega), show m₂ (base + i) = _ from put₂ i inside, keep₁ _ (by omega)]
    case xrefill =>
      intro i inside
      rw [keep₄ _ (by omega), put₃ i inside, keep₂ _ (by omega), keep₁ _ (by omega)]
    case cacheError =>
      intro i inside
      rw [put₄ i inside, keep₃ _ (by omega), keep₂ _ (by omega), keep₁ _ (by omega)]
    case generic =>
      intro i inside
      rw [keep₄ _ (by omega), keep₃ _ (by omega), keep₂ _ (by omega), put₁ i inside]
    case outside =>
      intro a away
      rw [keep₄ _ (by omega), keep₃ _ (by omega), keep₂ _ (by omega), keep₁ _ (by omega)]

theorem trapInit_vectors_low : ∃ m', trapInit (fun x => UInt8.ofNat x) 0x80000000 0xffffffff80200000 0xffffffff80200080 = .ok m' ∧
    Vectors (fun x => UInt8.ofNat x) m' 0xffffffff80000000 0xffffffff80200000 0xffffffff80200080 :=
  @trapInit_vectors _ 0x80000000 _ _ (.inr (by decide)) (.inr (by decide))

end Xv6
