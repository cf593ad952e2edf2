import Xv6.Lib.Numerals
import Xv6.SnprintfSpec

namespace Xv6

/-- `isspace` -/
def isSpace (c : UInt8) : Bool := decide (c ∈ [ch ' ', ch '\n', ch '\r', 11, 12, ch '\t'])

def isUpper (c : UInt8) : Bool := decide (ch 'A' ≤ c ∧ c ≤ ch 'Z')

/-- `isalpha` -/
def isAlpha (c : UInt8) : Bool := isUpper c || decide (ch 'a' ≤ c ∧ c ≤ ch 'z')

/-- The value of a character in the loop of `strtoul`. -/
def strtoulValue (c : UInt8) : Option Nat :=
  if isDigit c then some (c.toNat - (ch '0').toNat)
  else if isAlpha c then some (c.toNat - if isUpper c then (ch 'A').toNat - 10 else (ch 'a').toNat - 10)
  else none

/-- The loop of `strtoul` over the characters in front of the NUL: `acc`, `any`, and what it did not read. -/
def strtoulLoop (base : Nat) : List UInt8 → Nat → Int → Nat × Int × List UInt8
  | [], acc, any => (acc, any, [])
  | c :: s, acc, any =>
    match strtoulValue c with
    | none => (acc, any, c :: s)
    | some d =>
      if base ≤ d then (acc, any, c :: s)
      else if any < 0 then strtoulLoop base s acc any
      else if (2 ^ 64 - 1) / base < acc ∨ (acc = (2 ^ 64 - 1) / base ∧ (2 ^ 64 - 1) % base < d) then
        strtoulLoop base s (2 ^ 64 - 1) (-1)
      else strtoulLoop base s (acc * base + d) 1

/-- `strtoul` on a string, given by its characters in front of the NUL: the number, and the index in `*endptr`. -/
def strtoul (nptr : List UInt8) (base : Int) : Nat × Nat :=
  if base < 0 ∨ base = 1 ∨ 36 < base then (0, 0)
  else
    let s := nptr.dropWhile isSpace
    let neg := s.head? = some (ch '-')
    let s := if neg ∨ s.head? = some (ch '+') then s.tail else s
    let hex := (base = 0 ∨ base = 16) ∧ s.head? = some (ch '0') ∧
      (s.tail.head? = some (ch 'x') ∨ s.tail.head? = some (ch 'X'))
    let s := if hex then s.drop 2 else s
    let base := if hex then 16 else if base = 0 then (if s.head? = some (ch '0') then 8 else 10) else base.toNat
    let (acc, any, s) := strtoulLoop base s 0 0
    (if neg ∧ 0 < any then (2 ^ 64 - acc) % 2 ^ 64 else acc, if any ≠ 0 then nptr.length - s.length else 0)

/-- The character of a digit. -/
def digitChar (d : Nat) : UInt8 := digits.getD d 0

/-- What the loops of `vsnprintf` and `strtoul` know of a digit. -/
theorem digitChar_spec {d : Nat} (bound : d < 16) :
    strtoulValue (digitChar d) = some d ∧ digitChar d ≠ 0 ∧ isSpace (digitChar d) = false ∧ digitChar d ≠ ch '-' ∧
      digitChar d ≠ ch '+' ∧ digitChar d ≠ ch 'x' ∧ digitChar d ≠ ch 'X' := by
  have all : ∀ d < 16, strtoulValue (digitChar d) = some d ∧ digitChar d ≠ 0 ∧ isSpace (digitChar d) = false ∧
    digitChar d ≠ ch '-' ∧ digitChar d ≠ ch '+' ∧ digitChar d ≠ ch 'x' ∧ digitChar d ≠ ch 'X' := by decide
  exact all d bound

theorem digitLoop_eq {base : Nat} (two : 2 ≤ base) (fuel u64 : Nat) (bound : u64 < 2 ^ fuel) :
    digitLoop base fuel u64 = (Nat.digits base u64).map digitChar := by
  induction fuel generalizing u64 with
  | zero =>
    obtain rfl : u64 = 0 := by omega
    rw [Nat.digits_zero]
    rfl
  | succ fuel ih =>
    rw [digitLoop]
    split_ifs with zero
    · rw [zero, Nat.digits_zero, List.map_nil]
    · have smaller : u64 / base < 2 ^ fuel := by
        rw [Nat.div_lt_iff_lt_mul (by omega)]
        calc u64 < 2 ^ fuel * 2 := by rw [← Nat.pow_succ]; exact bound
          _ ≤ 2 ^ fuel * base := Nat.mul_le_mul_left _ two
      rw [Nat.digits_def' (by omega) (by omega), List.map_cons, ih _ smaller]
      rfl

theorem uintBuf_eq {base u64 : Nat} (two : 2 ≤ base) (bound : u64 < 2 ^ 64) :
    uintBuf u64 base = (numerals base u64).map digitChar := by
  rw [uintBuf, digitLoop_eq two 64 u64 bound, numerals]
  split_ifs with zero
  · rw [zero, Nat.digits_zero]
    rfl
  · cases digits : Nat.digits base u64 with
    | nil => exact absurd digits (Nat.digits_ne_nil_iff_ne_zero.mpr zero)
    | cons d ds => rfl

/-- The text of a number without a width. -/
def uintText (u64 base : Nat) : List UInt8 := (uintBuf u64 base).reverse

theorem printUint_plain (u64 base : Nat) : printUint u64 base 0 0 = uintText u64 base := by
  rw [printUint, Nat.zero_and, if_neg (not_not.mpr rfl), if_pos rfl]
  rfl

theorem printUint_neg (u64 base : Nat) : printUint u64 base 0 (0 ||| flagNeg) = ch '-' :: uintText u64 base := by
  rw [printUint, if_pos rfl, if_pos (by decide)]
  rfl

theorem uintText_eq {base u64 : Nat} (two : 2 ≤ base) (bound : u64 < 2 ^ 64) :
    uintText u64 base = (numerals base u64).reverse.map digitChar := by
  rw [uintText, uintBuf_eq two bound, List.map_reverse]

/-- While the number fits, the loop reads every digit. -/
theorem strtoulLoop_digits {base : Nat} (two : 2 ≤ base) (hex : base ≤ 16) {ds : List Nat} (bound : ∀ d ∈ ds, d < base)
    {acc : Nat} {any : Int} (some : 0 ≤ any) (fits : horner base acc ds < 2 ^ 64) :
    strtoulLoop base (ds.map digitChar) acc any = (horner base acc ds, if ds = [] then any else 1, []) := by
  induction ds generalizing acc any with
  | nil => rfl
  | cons d ds ih =>
    have small := bound d (List.mem_cons_self ..)
    obtain ⟨value, -⟩ := digitChar_spec (show d < 16 by omega)
    rw [horner_cons] at fits ⊢
    have next : acc * base + d < 2 ^ 64 := Nat.lt_of_le_of_lt (le_horner (by omega) _ ds) fits
    -- the cut-off comparisons do not hit a number that fits
    have below : ¬ ((2 ^ 64 - 1) / base < acc ∨ (acc = (2 ^ 64 - 1) / base ∧ (2 ^ 64 - 1) % base < d)) := by
      have split := Nat.div_add_mod (2 ^ 64 - 1) base
      rintro (above | ⟨rfl, above⟩)
      · have more : ((2 ^ 64 - 1) / base + 1) * base ≤ acc * base := Nat.mul_le_mul_right _ above
        have rest : (2 ^ 64 - 1) % base < base := Nat.mod_lt _ (by omega)
        rw [Nat.add_mul, Nat.one_mul, Nat.mul_comm] at more
        omega
      · rw [Nat.mul_comm] at next
        omega
    rw [List.map_cons, strtoulLoop, value]
    simp only [if_neg (Nat.not_le.mpr small), if_neg (Int.not_lt.mpr some), if_neg below]
    rw [ih (fun d member => bound d (List.mem_cons_of_mem _ member)) (by decide) fits]
    simp

/-- A number with or without its sign is read to the end. -/
theorem strtoul_digits {base : Nat} (two : 2 ≤ base) (hex : base ≤ 16) (neg : Bool) {ds : List Nat} (nonempty : ds ≠ [])
    (bound : ∀ d ∈ ds, d < base) (fits : horner base 0 ds < 2 ^ 64) :
    strtoul ((if neg then [ch '-'] else []) ++ ds.map digitChar) base =
      (if neg then (2 ^ 64 - horner base 0 ds) % 2 ^ 64 else horner base 0 ds, (if neg then 1 else 0) + ds.length) := by
  have small : ∀ d ∈ ds, d < 16 := fun d member => Nat.lt_of_lt_of_le (bound d member) hex
  have loop := strtoulLoop_digits two hex bound (show (0 : Int) ≤ 0 from le_rfl) fits
  rw [if_neg nonempty] at loop
  obtain ⟨d, rest, rfl⟩ := List.exists_cons_of_ne_nil nonempty
  obtain ⟨-, -, noSpace, noMinus, noPlus, -⟩ := digitChar_spec (small d (List.mem_cons_self ..))
  -- behind the first digit there is another one, and no `x`
  have plain : ∀ c, (rest.map digitChar).head? = some c → c ≠ ch 'x' ∧ c ≠ ch 'X' := by
    intro c found
    cases rest with
    | nil => cases found
    | cons e rest =>
      rw [List.map_cons, List.head?_cons, Option.some.injEq] at found
      obtain ⟨-, -, -, -, -, lower, upper⟩ := digitChar_spec (small e (List.mem_cons_of_mem _ (List.mem_cons_self ..)))
      exact ⟨found ▸ lower, found ▸ upper⟩
  have noHex : ¬ ((rest.map digitChar).head? = some (ch 'x') ∨ (rest.map digitChar).head? = some (ch 'X')) := by
    rintro (found | found)
    · exact (plain _ found).1 rfl
    · exact (plain _ found).2 rfl
  have minus : isSpace (ch '-') = false := by decide
  have inside : ¬ ((base : Int) < 0 ∨ (base : Int) = 1 ∨ 36 < (base : Int)) := by omega
  have nonzero : (base : Int) ≠ 0 := by omega
  rw [List.map_cons] at loop
  cases neg with
  | false =>
    simp only [strtoul, if_neg inside, Bool.false_eq_true, if_false, List.nil_append, List.map_cons, List.dropWhile_cons, noSpace,
      List.head?_cons, Option.some.injEq, noMinus, noPlus, or_self, List.tail_cons, noHex, and_false, nonzero,
      Int.toNat_natCast, loop, false_and, List.length_cons, List.length_nil, Nat.sub_zero, Nat.zero_add]
    simp
  | true =>
    simp only [strtoul, if_neg inside, if_true, List.cons_append, List.nil_append, List.map_cons, List.dropWhile_cons, minus,
      Bool.false_eq_true, if_false, List.head?_cons, Option.some.injEq, true_or, List.tail_cons, noHex, and_false, nonzero,
      Int.toNat_natCast, loop, true_and, List.length_cons, List.length_nil, Nat.sub_zero]
    simp [Nat.add_comm]

/-- The buffer holds the string. -/
structure CString (str : Nat → UInt8) (text : List UInt8) : Prop where
  chars : ∀ i, i < text.length → str i = text.getD i 0
  noNul : 0 ∉ text
  nul : str text.length = 0

/-- The number of the first argument, printed with `letter`, is read back in `base` as `n`, to the end of the string. -/
def ReadsBack (str : Nat → UInt8) (size : Nat) (letter : Char) (ap : VaList) (base n : Nat) : Prop :=
  ∃ result str' text, vsnprintf str size [ch '%', ch letter] ap = .ok (result, str') ∧ CString str' text ∧
    strtoul text base = (n, text.length)

section RoundTrip

variable {str : Nat → UInt8} {size base : Nat} {ap : VaList}

/-- The two conversions have one text, and the same digits. -/
theorem readsBack_text {letter : Char} {neg : Bool} {u64 : Nat} (two : 2 ≤ base) (hex : base ≤ 16) (bound : u64 < 2 ^ 64)
    (expands : expand [ch '%', ch letter] ap = ((if neg then [ch '-'] else []) ++ uintText u64 base, .ok ()))
    (large : (expand [ch '%', ch letter] ap).1.length < size) :
    ReadsBack str size letter ap base (if neg then (2 ^ 64 - u64) % 2 ^ 64 else u64) := by
  obtain ⟨text, defText⟩ : ∃ text, text = (if neg then [ch '-'] else []) ++ uintText u64 base := ⟨_, rfl⟩
  have read := strtoul_digits two hex neg (List.reverse_ne_nil_iff.mpr numerals_ne_nil)
    (fun d member => numerals_lt two (List.mem_reverse.mp member)) (by rw [horner_numerals]; exact bound)
  rw [horner_numerals, ← uintText_eq two bound, ← defText] at read
  have length : text.length = (if neg then 1 else 0) + (numerals base u64).reverse.length := by
    rw [defText, List.length_append, uintText_eq two bound, List.length_map]
    cases neg <;> rfl
  rw [← length] at read
  have noNul : 0 ∉ text := by
    rw [defText, uintText_eq two bound, List.mem_append, List.mem_map]
    rintro (sign | ⟨d, member, zero⟩)
    · cases neg with
      | false => cases sign
      | true => exact absurd sign (by decide)
    · have small := numerals_lt two (List.mem_reverse.mp member)
      exact (digitChar_spec (show d < 16 by omega)).2.1 zero
  rw [← defText] at expands
  rw [expands] at large
  replace large : text.length < size := large
  obtain ⟨result, done⟩ := vsnprintf_whole str expands large
  exact ⟨result, _, text, done, ⟨fun i inside => printed_text inside, noNul, printed_nul⟩, read⟩

/-- The conversion letters of unsigned numbers, with their bases. -/
def unsignedBase : List (Char × Nat) := [('u', 10), ('o', 8), ('x', 16)]

/-- A directive of one letter. -/
theorem expand_letter {c : UInt8} {out : List UInt8} {t : Scan} (conv : Scan.directive ⟨.fmtLoop, 0, 0, ap⟩ c = .ok (out, t))
    (top : t.label = .top) : expand [ch '%', c] ap = (out, .ok ()) := by
  have second : Scan.step ⟨.fmtLoop, 0, 0, ap⟩ c = .ok (out, t) := conv
  have all : scanAll [ch '%', c] (.start ap) = (out, .ok t) := by
    show ([] ++ (scanAll [c] ⟨.fmtLoop, 0, 0, ap⟩).1, (scanAll [c] ⟨.fmtLoop, 0, 0, ap⟩).2) = _
    rw [scanAll, second]
    simp only [scanAll, List.append_nil, List.nil_append]
  rw [expand, expandFrom, all]
  simp only [top, if_true]

theorem directive_unsigned {letter : Char} (known : (letter, base) ∈ unsignedBase) (ap : VaList) :
    Scan.directive ⟨.fmtLoop, 0, 0, ap⟩ (ch letter) = .ok (uintText (ap 0).word.toNat base, .start ap.rest) := by
  simp only [unsignedBase, List.mem_cons, Prod.mk.injEq, List.not_mem_nil, or_false] at known
  rcases known with ⟨rfl, rfl⟩ | ⟨rfl, rfl⟩ | ⟨rfl, rfl⟩
  · exact (directive_u _).trans (by rw [printUint_plain]; rfl)
  · exact (directive_o _).trans (by rw [printUint_plain]; rfl)
  · exact (directive_x _).trans (by rw [printUint_plain]; rfl)

theorem expand_unsigned {letter : Char} (known : (letter, base) ∈ unsignedBase) (ap : VaList) :
    expand [ch '%', ch letter] ap = (uintText (ap 0).word.toNat base, .ok ()) :=
  expand_letter (directive_unsigned known ap) rfl

theorem expand_signed (ap : VaList) :
    expand [ch '%', ch 'd'] ap =
      ((if decide ((ap 0).word.toInt < 0) then [ch '-'] else []) ++
        uintText (if (ap 0).word.toInt < 0 then (-(ap 0).word).toNat else (ap 0).word.toNat) 10, .ok ()) := by
  rw [expand_letter (directive_d _) rfl, printUint_neg, printUint_plain]
  by_cases negative : (ap 0).word.toInt < 0
  · simp only [negative, decide_true, if_true]
    rfl
  · simp only [negative, decide_false, if_false, Bool.false_eq_true]
    rfl

/-- Numbers that were printed are read back: unsigned ones in their base, and signed ones modulo 2^64. -/
theorem snprintf_strtoul (str : Nat → UInt8) (ap : VaList) (size : Nat) :
    (∀ letter base, (letter, base) ∈ unsignedBase → (expand [ch '%', ch letter] ap).1.length < size →
      ReadsBack str size letter ap base (ap 0).word.toNat) ∧
    ((expand [ch '%', ch 'd'] ap).1.length < size →
      ReadsBack str size 'd' ap 10 ((ap 0).word.toInt % 2 ^ 64).toNat) := by
  constructor
  · intro letter base known large
    have bases : 2 ≤ base ∧ base ≤ 16 := by
      simp only [unsignedBase, List.mem_cons, Prod.mk.injEq, List.not_mem_nil, or_false] at known
      omega
    exact @readsBack_text str size base ap letter false _ bases.1 bases.2 (ap 0).word.isLt (expand_unsigned known ap) large
  · intro large
    have sign := (ap 0).word.toInt_eq_toNat_cond
    have bound := (ap 0).word.isLt
    have small : (if (ap 0).word.toInt < 0 then (-(ap 0).word).toNat else (ap 0).word.toNat) < 2 ^ 64 := by
      split
      · exact (-(ap 0).word).isLt
      · exact bound
    have back := @readsBack_text str _ _ _ _ _ _ (by decide) (by decide) small (expand_signed ap) large
    have same : (if decide ((ap 0).word.toInt < 0) then (2 ^ 64 - (if (ap 0).word.toInt < 0 then (-(ap 0).word).toNat
        else (ap 0).word.toNat)) % 2 ^ 64 else if (ap 0).word.toInt < 0 then (-(ap 0).word).toNat else (ap 0).word.toNat) =
        ((ap 0).word.toInt % 2 ^ 64).toNat := by
      simp only [decide_eq_true_eq, BitVec.toNat_neg]
      split at sign <;> split <;> omega
    rwa [same] at back

end RoundTrip

/-- 255 in hexadecimal, and -1. -/
theorem snprintf_strtoul_ff : ReadsBack (fun _ => 1) 30 'x' (fun _ => ⟨255, []⟩) 16 255 ∧
    ReadsBack (fun _ => 1) 30 'd' (fun _ => ⟨-1, []⟩) 10 (2 ^ 64 - 1) :=
  ⟨(snprintf_strtoul (fun _ => 1) (fun _ => ⟨255, []⟩) 30).1 'x' 16 (by decide) (by decide),
    (snprintf_strtoul (fun _ => 1) (fun _ => ⟨-1, []⟩) 30).2 (by decide)⟩

end Xv6
