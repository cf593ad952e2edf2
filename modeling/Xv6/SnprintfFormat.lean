import Xv6.Lib.Pieces
import Xv6.Strtoul

namespace Xv6

/-- The conversions of numbers. -/
inductive Conv
  | d | o | u | x | p
  deriving DecidableEq, Repr

namespace Conv

def letter : Conv → Char
  | d => 'd'
  | o => 'o'
  | u => 'u'
  | x => 'x'
  | p => 'p'

def base : Conv → Nat
  | d | u => 10
  | o => 8
  | x | p => 16

def Negative (conv : Conv) (w : BitVec 64) : Prop := conv = d ∧ w.toInt < 0

instance (conv : Conv) (w : BitVec 64) : Decidable (conv.Negative w) := inferInstanceAs (Decidable (_ ∧ _))

def magnitude (conv : Conv) (w : BitVec 64) : Nat := if conv = d then w.toInt.natAbs else w.toNat

/-- The digits of the number, from the highest one. -/
def text (conv : Conv) (w : BitVec 64) : List UInt8 := (numerals conv.base (conv.magnitude w)).reverse.map digitChar

def sign (conv : Conv) (w : BitVec 64) : List UInt8 := if conv.Negative w then [ch '-'] else []

/-- The number as C has it: never cut, and padded with zeros behind the sign or with spaces in front of it. -/
def reference (conv : Conv) (zero : Bool) (width : Nat) (w : BitVec 64) : List UInt8 :=
  let pad := width - (conv.sign w ++ conv.text w).length
  if zero then conv.sign w ++ List.replicate pad (ch '0') ++ conv.text w
  else List.replicate pad (ch ' ') ++ conv.sign w ++ conv.text w

/-- The number as `vsnprintf` prints it: with a width it has that many digits, whatever its sign and its flag. -/
def printed (conv : Conv) (width : Nat) (w : BitVec 64) : List UInt8 :=
  conv.sign w ++ if width = 0 then conv.text w
    else List.replicate (width - (conv.text w).length) (ch '0') ++ (conv.text w).drop ((conv.text w).length - width)

/-- There is no width, or it is the number of digits, or it pads a number without a sign with zeros. -/
def Fits (conv : Conv) (zero : Bool) (width : Nat) (w : BitVec 64) : Prop :=
  width = 0 ∨ width = (conv.text w).length ∨ (zero = true ∧ ¬ conv.Negative w ∧ (conv.text w).length < width)

end Conv

/-- A character or a directive of a format. The width 0 is none. -/
inductive Item
  | plain (c : UInt8) (ordinary : c ≠ ch '%' ∧ c ≠ 0)
  | number (zero : Bool) (width : Nat) (conv : Conv)
  | char
  | str
  | percent

def decimal (n : Nat) : List UInt8 := (Nat.digits 10 n).reverse.map digitChar

namespace Item

/-- How the item is written in a format. -/
def format : Item → List UInt8
  | plain c _ => [c]
  | number zero width conv => ch '%' :: ((if zero then [ch '0'] else []) ++ decimal width ++ [ch conv.letter])
  | char => [ch '%', ch 'c']
  | str => [ch '%', ch 's']
  | percent => [ch '%', ch '%']

/-- The item takes an argument. -/
def Takes : Item → Bool
  | number _ _ _ | char | str => true
  | plain _ _ | percent => false

/-- The expansion of C. -/
def reference : Item → VaSlot → List UInt8
  | plain c _, _ => [c]
  | number zero width conv, a => conv.reference zero width a.word
  | char, a => [UInt8.ofNat a.word.toNat]
  | str, a => a.str
  | percent, _ => [ch '%']

/-- The expansion of `vsnprintf`. -/
def printed : Item → VaSlot → List UInt8
  | number _ width conv, a => conv.printed width a.word
  | i, a => i.reference a

/-- The width is a signed number, and it fits what is printed. -/
def Fits : Item → VaSlot → Prop
  | number zero width conv, a => width < 2 ^ 63 ∧ conv.Fits zero width a.word
  | _, _ => True

/-- The width is a signed number. -/
def Sized : Item → Prop
  | number _ width _ => width < 2 ^ 63
  | _ => True

end Item

/-- The items with their arguments. -/
def assign : List Item → VaList → List (Item × VaSlot)
  | [], _ => []
  | i :: items, ap => (i, ap 0) :: assign items (if i.Takes then ap.rest else ap)

def formatOf (items : List Item) : List UInt8 := items.flatMap Item.format

/-- The expansion that C specifies. -/
def referenceOf (items : List Item) (ap : VaList) : List UInt8 := (assign items ap).flatMap fun x => x.1.reference x.2

section Number

variable {conv : Conv} {zero : Bool} {width : Nat} {w : BitVec 64}

theorem Conv.base_bounds (conv : Conv) : 2 ≤ conv.base ∧ conv.base ≤ 16 := by cases conv <;> decide

theorem Conv.magnitude_lt (conv : Conv) (w : BitVec 64) : conv.magnitude w < 2 ^ 64 := by
  have bound := w.isLt
  have signed := w.toInt_eq_toNat_cond
  rw [magnitude]
  split
  · split at signed <;> omega
  · exact bound

theorem Conv.text_ne_nil : conv.text w ≠ [] := by
  rw [text, ne_eq, List.map_eq_nil_iff, List.reverse_eq_nil_iff]
  exact numerals_ne_nil

theorem Conv.uintText_eq : uintText (conv.magnitude w) conv.base = conv.text w :=
  Xv6.uintText_eq conv.base_bounds.1 (conv.magnitude_lt w)

theorem widthLoop_eq (pad : UInt8) (buf : List UInt8) (width : Nat) :
    widthLoop pad buf width = List.replicate (width - buf.length) pad ++ (buf.take width).reverse := by
  induction width with
  | zero => simp [widthLoop]
  | succ width ih =>
    rw [widthLoop, ih]
    by_cases above : buf.length ≤ width
    · rw [if_pos above, Nat.succ_sub above, List.replicate_succ, List.take_of_length_le above,
        List.take_of_length_le (Nat.le_succ_of_le above), List.cons_append]
    · have inside : width < buf.length := Nat.lt_of_not_le above
      rw [if_neg above, Nat.sub_eq_zero_of_le (Nat.le_of_lt inside), Nat.sub_eq_zero_of_le inside, List.replicate_zero,
        List.nil_append, List.nil_append, List.take_add_one, List.getElem?_eq_getElem inside, List.getD_eq_getElem _ _ inside,
        Option.toList_some, List.reverse_append, List.reverse_singleton, List.singleton_append]

/-- The flags of the scanner when a conversion is reached. -/
def zeroFlag (zero : Bool) : Nat := if zero then flagZeropad else 0

theorem printUint_eq (conv : Conv) (zero : Bool) (width : Nat) (w : BitVec 64) :
    printUint (conv.magnitude w) conv.base width (if conv.Negative w then zeroFlag zero ||| flagNeg else zeroFlag zero) =
      conv.printed width w := by
  have signs : (if (if conv.Negative w then zeroFlag zero ||| flagNeg else zeroFlag zero) &&& flagNeg ≠ 0 then [ch '-'] else []) =
      conv.sign w := by
    rw [Conv.sign]
    by_cases negative : conv.Negative w
    · rw [if_pos negative, if_pos negative]
      cases zero <;> rfl
    · rw [if_neg negative, if_neg negative]
      cases zero <;> rfl
  have or (flag : Nat) : flag ||| flagZeropad ≠ 0 := by
    intro none
    have bit := congrArg (Nat.testBit · 1) none
    simp only [Nat.testBit_or, Nat.zero_testBit] at bit
    rw [show flagZeropad.testBit 1 = true from rfl, Bool.or_true] at bit
    cases bit
  have text := conv.uintText_eq (w := w)
  rw [uintText] at text
  have length : (conv.text w).length = (uintBuf (conv.magnitude w) conv.base).length := by
    rw [← text, List.length_reverse]
  rw [printUint, signs, Conv.printed]
  by_cases none : width = 0
  · rw [if_pos none, if_pos none, text]
  · rw [if_neg none, if_neg none, if_pos ⟨Nat.pos_of_ne_zero none, or _⟩, widthLoop_eq, List.reverse_take, text, length]

theorem printUint_unsigned (unsigned : conv ≠ .d) (zero : Bool) (width : Nat) (w : BitVec 64) :
    printUint w.toNat conv.base width (zeroFlag zero) = conv.printed width w := by
  have text := printUint_eq conv zero width w
  rwa [if_neg fun negative => unsigned negative.1, Conv.magnitude, if_neg unsigned] at text

theorem magnitude_d (w : BitVec 64) : Conv.magnitude .d w = if w.toInt < 0 then (-w).toNat else w.toNat := by
  have bound := w.isLt
  have signed := w.toInt_eq_toNat_cond
  rw [Conv.magnitude, if_pos rfl, BitVec.toNat_neg]
  split at signed <;> split <;> omega

/-- What the `switch` prints at the letter of a number. -/
theorem directive_number (conv : Conv) (zero : Bool) (label : Label) (width : Nat) (ap : VaList) :
    Scan.directive ⟨label, width, zeroFlag zero, ap⟩ (ch conv.letter) = .ok (conv.printed width (ap 0).word, .start ap.rest) := by
  cases conv with
  | d =>
    have text := printUint_eq .d zero width (ap 0).word
    refine (directive_d _).trans ?_
    have signed : Conv.Negative .d (ap 0).word ↔ (ap 0).word.toInt < 0 := ⟨fun negative => negative.2, fun negative => ⟨rfl, negative⟩⟩
    rw [← text, magnitude_d]
    simp only [signed]
    split <;> rfl
  | o =>
    rw [← printUint_unsigned (by decide) zero]
    exact directive_o _
  | u =>
    rw [← printUint_unsigned (by decide) zero]
    exact directive_u _
  | x =>
    rw [← printUint_unsigned (by decide) zero]
    exact directive_x _
  | p =>
    rw [← printUint_unsigned (by decide) zero]
    exact directive_p _

end Number

section Scanning

theorem isDigit_letter (conv : Conv) : isDigit (ch conv.letter) = false := by cases conv <;> decide

theorem digitChar_digit {d : Nat} (small : d < 10) :
    isDigit (digitChar d) = true ∧ (digitChar d).toNat - (ch '0').toNat = d ∧ (d ≠ 0 → digitChar d ≠ ch '0') := by
  have all : ∀ d < 10, isDigit (digitChar d) = true ∧ (digitChar d).toNat - (ch '0').toNat = d ∧
    (d ≠ 0 → digitChar d ≠ ch '0') := by decide
  exact all d small

theorem addDigit_digitChar (s : Scan) {d : Nat} (small : d < 10) :
    s.addDigit (digitChar d) =
      if s.width * 10 + d < 2 ^ 63 then .ok ([], { s with label := .digitLoop, width := s.width * 10 + d }) else .error .overflow := by
  rw [Scan.addDigit, (digitChar_digit small).2.1]

/-- Inside of a width. -/
theorem scanAll_digits {ds : List Nat} (small : ∀ d ∈ ds, d < 10) (s : Scan) (label : s.label = .digitLoop) (fits : s.width < 2 ^ 63) :
    scanAll (ds.map digitChar) s =
      ([], if horner 10 s.width ds < 2 ^ 63 then .ok { s with width := horner 10 s.width ds } else .error .overflow) := by
  induction ds generalizing s with
  | nil =>
    rw [List.map_nil, scanAll, horner, List.foldl_nil, if_pos fits]
  | cons d ds ih =>
    have here := small d (List.mem_cons_self ..)
    have step : s.step (digitChar d) = s.addDigit (digitChar d) := by
      rw [Scan.step, label]
      exact if_pos (digitChar_digit here).1
    rw [List.map_cons, scanAll, step, addDigit_digitChar s here, horner_cons]
    by_cases next : s.width * 10 + d < 2 ^ 63
    · rw [if_pos next]
      simp only [List.nil_append]
      rw [ih (fun d member => small d (List.mem_cons_of_mem _ member)) _ rfl next]
      simp only [label]
    · have more := le_horner (show 1 ≤ 10 by decide) (s.width * 10 + d) ds
      rw [if_neg next, if_neg (by omega)]

/-- The width of a directive. -/
theorem scanAll_decimal (width flag : Nat) (ap : VaList) :
    scanAll (decimal width) ⟨.fmtLoop, 0, flag, ap⟩ =
      ([], if width < 2 ^ 63 then .ok ⟨if width = 0 then .fmtLoop else .digitLoop, width, flag, ap⟩ else .error .overflow) := by
  by_cases none : width = 0
  · subst none
    rw [decimal, Nat.digits_zero]
    rfl
  · have whole := horner_numerals 10 width
    have nonzero := @head_numerals 10 width
    have small : ∀ d ∈ (Nat.digits 10 width).reverse, d < 10 := fun d member =>
      Nat.digits_lt_base (by decide) (List.mem_reverse.mp member)
    rw [numerals, if_neg none] at whole nonzero
    rw [decimal]
    cases digits : (Nat.digits 10 width).reverse with
    | nil => exact absurd (List.reverse_eq_nil_iff.mp digits) (Nat.digits_ne_nil_iff_ne_zero.mpr none)
    | cons d ds =>
      rw [digits] at whole small
      rw [horner_cons, Nat.zero_mul, Nat.zero_add] at whole
      have here := small d (List.mem_cons_self ..)
      obtain ⟨digit, -, notZero⟩ := digitChar_digit here
      have step : Scan.step ⟨.fmtLoop, 0, flag, ap⟩ (digitChar d) = .ok ([], ⟨.digitLoop, d, flag, ap⟩) := by
        refine (directive_digit _ digit (notZero (nonzero none digits))).trans ?_
        rw [addDigit_digitChar _ here, if_pos (show 0 * 10 + d < 2 ^ 63 by omega), Nat.zero_mul, Nat.zero_add]
      rw [List.map_cons, scanAll, step]
      simp only [List.nil_append]
      rw [scanAll_digits (fun d member => small d (List.mem_cons_of_mem _ member)) ⟨.digitLoop, d, flag, ap⟩ rfl
        (show d < 2 ^ 63 by omega), whole,
        if_neg none]

/-- Behind the width comes the letter. -/
theorem step_letter (conv : Conv) (zero : Bool) {label : Label} (width : Nat) (ap : VaList) (inside : label ≠ .top) :
    Scan.step ⟨label, width, zeroFlag zero, ap⟩ (ch conv.letter) = .ok (conv.printed width (ap 0).word, .start ap.rest) := by
  have directive := directive_number conv zero label width ap
  cases label with
  | top => exact absurd rfl inside
  | fmtLoop => exact directive
  | digitLoop =>
    rw [Scan.step]
    simp only [isDigit_letter, Bool.false_eq_true, if_false]
    exact directive

theorem scanAll_percent (fmt : List UInt8) (ap : VaList) : scanAll (ch '%' :: fmt) (.start ap) = scanAll fmt ⟨.fmtLoop, 0, 0, ap⟩ := by
  have step : (Scan.start ap).step (ch '%') = .ok ([], ⟨.fmtLoop, 0, 0, ap⟩) := rfl
  rw [scanAll, step]
  rfl

theorem scanAll_one {c : UInt8} {s t : Scan} {out : List UInt8} (step : s.step c = .ok (out, t)) : scanAll [c] s = (out, .ok t) := by
  rw [scanAll, step]
  simp only [scanAll, List.append_nil]

/-- The flag is read in front of the width. -/
theorem scanAll_zero (zero : Bool) (ap : VaList) :
    scanAll (if zero then [ch '0'] else []) ⟨.fmtLoop, 0, 0, ap⟩ = ([], .ok ⟨.fmtLoop, 0, zeroFlag zero, ap⟩) := by
  cases zero with
  | false => rfl
  | true =>
    rw [show zeroFlag true = 0 ||| flagZeropad from rfl]
    exact scanAll_one (directive_zero ⟨.fmtLoop, 0, 0, ap⟩)

theorem scanAll_number (zero : Bool) (width : Nat) (conv : Conv) (ap : VaList) :
    scanAll (Item.number zero width conv).format (.start ap) =
      if width < 2 ^ 63 then (conv.printed width (ap 0).word, .ok (.start ap.rest)) else ([], .error .overflow) := by
  rw [Item.format, scanAll_percent, scanAll_append, scanAll_append, scanAll_zero]
  simp only [scanAll_decimal, List.nil_append]
  by_cases fits : width < 2 ^ 63
  · rw [if_pos fits, if_pos fits]
    have inside : (if width = 0 then Label.fmtLoop else .digitLoop) ≠ .top := by split <;> decide
    simp only [scanAll_one (step_letter conv zero width ap inside)]
  · rw [if_neg fits, if_neg fits]

/-- An item prints its text, or its width overflows. -/
theorem scanAll_item (i : Item) (ap : VaList) :
    (i.Sized → scanAll i.format (.start ap) = (i.printed (ap 0), .ok (.start (if i.Takes then ap.rest else ap)))) ∧
      (¬ i.Sized → scanAll i.format (.start ap) = ([], .error .overflow)) := by
  cases i with
  | plain c ordinary =>
    refine ⟨fun _ => scanAll_one ?_, fun other => absurd trivial other⟩
    rw [Scan.step]
    simp only [Scan.start, if_neg ordinary.1]
    rfl
  | number zero width conv =>
    rw [scanAll_number]
    exact ⟨fun fits => if_pos fits, fun other => if_neg other⟩
  | char =>
    refine ⟨fun _ => ?_, fun other => absurd trivial other⟩
    rw [Item.format, scanAll_percent]
    exact scanAll_one (directive_c _)
  | str =>
    refine ⟨fun _ => ?_, fun other => absurd trivial other⟩
    rw [Item.format, scanAll_percent]
    exact scanAll_one (directive_s _)
  | percent =>
    refine ⟨fun _ => ?_, fun other => absurd trivial other⟩
    rw [Item.format, scanAll_percent]
    exact scanAll_one (directive_percent _)

/-- With widths that are signed numbers the format is printed item by item. -/
theorem scanAll_items (items : List Item) (ap : VaList) (sized : ∀ i ∈ items, i.Sized) :
    ∃ ap', scanAll (formatOf items) (.start ap) = ((assign items ap).flatMap fun x => x.1.printed x.2, .ok (.start ap')) := by
  induction items generalizing ap with
  | nil => exact ⟨ap, rfl⟩
  | cons i items ih =>
    obtain ⟨ap', rest⟩ := ih (if i.Takes then ap.rest else ap) fun j member => sized j (List.mem_cons_of_mem _ member)
    refine ⟨ap', ?_⟩
    rw [formatOf, List.flatMap_cons, scanAll_append, (scanAll_item i ap).1 (sized i (List.mem_cons_self ..))]
    show (_ ++ (scanAll (formatOf items) _).1, (scanAll (formatOf items) _).2) = _
    rw [rest]
    rfl

theorem scanAll_overflow (items : List Item) (ap : VaList) (large : ¬ ∀ i ∈ items, i.Sized) :
    (scanAll (formatOf items) (.start ap)).2 = .error .overflow := by
  induction items generalizing ap with
  | nil => exact absurd (fun _ member => absurd member List.not_mem_nil) large
  | cons i items ih =>
    rw [formatOf, List.flatMap_cons, scanAll_append]
    by_cases first : i.Sized
    · rw [(scanAll_item i ap).1 first]
      refine ih _ fun all => large fun j member => ?_
      rcases List.mem_cons.mp member with rfl | member
      · exact first
      · exact all j member
    · rw [(scanAll_item i ap).2 first]

/-- What `vsnprintf` makes of the items. -/
theorem expand_items (items : List Item) (ap : VaList) (sized : ∀ i ∈ items, i.Sized) :
    expand (formatOf items) ap = ((assign items ap).flatMap fun x => x.1.printed x.2, .ok ()) := by
  obtain ⟨ap', all⟩ := scanAll_items items ap sized
  rw [expand, expandFrom, all]
  rfl

theorem expand_overflow (items : List Item) (ap : VaList) (large : ¬ ∀ i ∈ items, i.Sized) :
    (expand (formatOf items) ap).2 = .error .overflow := by
  have fault := scanAll_overflow items ap large
  rw [expand, expandFrom]
  obtain ⟨⟨text, last⟩, all⟩ : ∃ r, scanAll (formatOf items) (.start ap) = r := ⟨_, rfl⟩
  rw [all] at fault ⊢
  obtain rfl : last = .error .overflow := fault
  rfl

end Scanning

section Fitting

variable {conv : Conv} {zero : Bool} {width : Nat} {w : BitVec 64}

/-- The characters that padding does not bring. -/
def solid (c : UInt8) : Bool := decide (c ≠ ch '0' ∧ c ≠ ch ' ')

theorem countP_replicate {c : UInt8} (soft : solid c = false) (n : Nat) : (List.replicate n c).countP solid = 0 := by
  rw [List.countP_replicate, if_neg (by rw [soft]; decide)]

/-- The digit in front of a number of two digits is no zero. -/
theorem Conv.text_solid {c : UInt8} {cs : List UInt8} (text : conv.text w = c :: cs) (more : cs ≠ []) : solid c = true := by
  rw [Conv.text] at text
  obtain ⟨d, ds, digits, rfl, rfl⟩ := List.map_eq_cons_iff.mp text
  have nonzero : conv.magnitude w ≠ 0 := by
    intro none
    rw [none, numerals, if_pos rfl] at digits
    obtain ⟨-, rfl⟩ := List.cons.inj digits
    exact more rfl
  have positive := head_numerals nonzero digits
  have small : d < 16 := by
    have member : d ∈ numerals conv.base (conv.magnitude w) := by
      rw [← List.mem_reverse, digits]
      exact List.mem_cons_self ..
    exact Nat.lt_of_lt_of_le (numerals_lt conv.base_bounds.1 member) conv.base_bounds.2
  have all : ∀ d < 16, d ≠ 0 → solid (digitChar d) = true := by decide
  exact all d small positive

theorem Conv.reference_solid : (conv.reference zero width w).countP solid =
    (conv.sign w).countP solid + (conv.text w).countP solid := by
  have zeros := countP_replicate (show solid (ch '0') = false from rfl)
  have spaces := countP_replicate (show solid (ch ' ') = false from rfl)
  rw [reference]
  cases zero with
  | true => rw [if_pos rfl, List.countP_append, List.countP_append, zeros, Nat.add_zero]
  | false =>
    rw [if_neg Bool.false_ne_true, List.countP_append, List.countP_append, spaces, Nat.zero_add]

theorem Conv.printed_solid : (conv.printed width w).countP solid = (conv.sign w).countP solid +
    if width = 0 then (conv.text w).countP solid else ((conv.text w).drop ((conv.text w).length - width)).countP solid := by
  have zeros := countP_replicate (show solid (ch '0') = false from rfl)
  rw [printed, List.countP_append]
  split
  · rfl
  · rw [List.countP_append, zeros, Nat.zero_add]

/-- A cut loses solid characters. -/
theorem Conv.solid_le : (conv.printed width w).countP solid ≤ (conv.reference zero width w).countP solid := by
  rw [printed_solid, reference_solid]
  refine Nat.add_le_add_left ?_ _
  split
  · exact Nat.le_refl _
  · exact (List.drop_sublist _ _).countP_le

theorem Conv.not_cut (same : (conv.printed width w).countP solid = (conv.reference zero width w).countP solid) :
    width = 0 ∨ (conv.text w).length ≤ width := by
  rw [printed_solid, reference_solid] at same
  by_cases none : width = 0
  · exact .inl none
  right
  by_contra cut
  rw [if_neg none] at same
  cases text : conv.text w with
  | nil => exact text_ne_nil text
  | cons c cs =>
    rw [text, List.length_cons] at cut
    have front := text_solid text (by rintro rfl; rw [List.length_nil] at cut; omega)
    obtain ⟨k, drop⟩ : ∃ k, (c :: cs).length - width = k + 1 := ⟨(c :: cs).length - width - 1, by rw [List.length_cons]; omega⟩
    rw [text, drop, List.drop_succ_cons, List.countP_cons_of_pos front] at same
    have less : (cs.drop k).countP solid ≤ cs.countP solid := (List.drop_sublist k cs).countP_le
    omega

theorem Conv.reference_length : (conv.reference zero width w).length = max width ((conv.sign w).length + (conv.text w).length) := by
  rw [reference]
  split <;> simp only [List.length_append, List.length_replicate] <;> omega

theorem Conv.printed_length (whole : width = 0 ∨ (conv.text w).length ≤ width) :
    (conv.printed width w).length = (conv.sign w).length + if width = 0 then (conv.text w).length else width := by
  rw [printed, List.length_append]
  split_ifs with none
  · rfl
  · have long := whole.resolve_left none
    rw [List.length_append, List.length_replicate, List.length_drop]
    omega

theorem Conv.sign_length : (conv.sign w).length = if conv.Negative w then 1 else 0 := by
  rw [sign]
  split <;> rfl

theorem Conv.length_le (whole : width = 0 ∨ (conv.text w).length ≤ width) :
    (conv.reference zero width w).length ≤ (conv.printed width w).length := by
  have sign := conv.sign_length (w := w)
  rw [printed_length whole, reference_length]
  split at sign <;> split <;> omega

/-- Where the padding comes to nothing. -/
theorem Conv.reference_unpadded (narrow : width ≤ (conv.sign w).length + (conv.text w).length) :
    conv.reference zero width w = conv.sign w ++ conv.text w := by
  have none : width - (conv.sign w ++ conv.text w).length = 0 := by
    rw [List.length_append]
    omega
  rw [reference]
  simp only [none, List.replicate_zero, List.append_nil, List.nil_append, ite_self]

theorem Conv.printed_unpadded (exact : width = 0 ∨ width = (conv.text w).length) :
    conv.printed width w = conv.sign w ++ conv.text w := by
  rw [printed]
  rcases exact with rfl | rfl
  · rw [if_pos rfl]
  · split
    · rfl
    · rw [Nat.sub_self, List.replicate_zero, List.nil_append, List.drop_zero]

theorem Conv.printed_padded (wide : (conv.text w).length < width) :
    conv.printed width w = conv.sign w ++ (List.replicate (width - (conv.text w).length) (ch '0') ++ conv.text w) := by
  rw [printed, if_neg (by omega), Nat.sub_eq_zero_of_le (Nat.le_of_lt wide), List.drop_zero]

theorem Conv.printed_of_fits (fits : conv.Fits zero width w) : conv.printed width w = conv.reference zero width w := by
  rcases fits with rfl | rfl | ⟨rfl, plain, wide⟩
  · rw [printed_unpadded (.inl rfl), reference_unpadded (Nat.zero_le _)]
  · rw [printed_unpadded (.inr rfl), reference_unpadded (Nat.le_add_left _ _)]
  · rw [printed_padded wide, reference, if_pos rfl, sign, if_neg plain, List.nil_append, List.nil_append, List.nil_append]

/-- A number that is not cut is printed right only when its width fits. -/
theorem Conv.fits_of_printed (whole : width = 0 ∨ (conv.text w).length ≤ width)
    (same : conv.printed width w = conv.reference zero width w) : conv.Fits zero width w := by
  by_cases none : width = 0
  · exact .inl none
  have long := whole.resolve_left none
  by_cases exact : width = (conv.text w).length
  · exact .inr (.inl exact)
  have wide : (conv.text w).length < width := by omega
  have length := congrArg List.length same
  rw [printed_length whole, reference_length, if_neg none, sign_length] at length
  -- the sign comes in addition to the width
  have plain : ¬ conv.Negative w := by
    intro negative
    rw [if_pos negative] at length
    omega
  refine .inr (.inr ⟨?_, plain, wide⟩)
  by_contra spaces
  obtain ⟨k, pad⟩ : ∃ k, width - (conv.text w).length = k + 1 := ⟨width - (conv.text w).length - 1, by omega⟩
  rw [printed_padded wide, reference, if_neg spaces, sign, if_neg plain, List.nil_append, List.nil_append, pad, List.append_nil,
    List.replicate_succ, List.replicate_succ, List.cons_append, List.cons_append] at same
  exact absurd (List.cons.inj same).1 (by decide)

end Fitting

/-- The width of every number is a signed one, and fits it. -/
def AllFit (items : List Item) (ap : VaList) : Prop := ∀ x ∈ assign items ap, x.1.Fits x.2

section Format

variable {items : List Item} {ap : VaList}

theorem assign_items (items : List Item) (ap : VaList) : (assign items ap).map Prod.fst = items := by
  induction items generalizing ap with
  | nil => rfl
  | cons i items ih => rw [assign, List.map_cons, ih]

theorem Item.Fits.sized {i : Item} {a : VaSlot} (fits : i.Fits a) : i.Sized := by
  cases i with
  | number zero width conv => exact fits.1
  | _ => trivial

theorem Item.printed_of_fits {i : Item} {a : VaSlot} (fits : i.Fits a) : i.printed a = i.reference a := by
  cases i with
  | number zero width conv => exact Conv.printed_of_fits fits.2
  | _ => rfl

theorem Item.solid_le (i : Item) (a : VaSlot) : (i.printed a).countP solid ≤ (i.reference a).countP solid := by
  cases i with
  | number zero width conv => exact Conv.solid_le
  | _ => exact Nat.le_refl _

/-- No digit of the number is cut. -/
def Item.Whole : Item → VaSlot → Prop
  | number _ width conv, a => width = 0 ∨ (conv.text a.word).length ≤ width
  | _, _ => True

theorem Item.not_cut {i : Item} {a : VaSlot} (same : (i.printed a).countP solid = (i.reference a).countP solid) : i.Whole a := by
  cases i with
  | number zero width conv => exact Conv.not_cut same
  | _ => trivial

theorem Item.length_le {i : Item} {a : VaSlot} (whole : i.Whole a) : (i.reference a).length ≤ (i.printed a).length := by
  cases i with
  | number zero width conv => exact Conv.length_le whole
  | _ => exact Nat.le_refl _

theorem Item.fits_of_printed {i : Item} {a : VaSlot} (sized : i.Sized) (whole : i.Whole a) (same : i.printed a = i.reference a) :
    i.Fits a := by
  cases i with
  | number zero width conv => exact ⟨sized, Conv.fits_of_printed whole same⟩
  | _ => trivial

/-- A format whose whole text is right has every number right: no digit is cut, for solid characters would be missing;
then nothing is too long; then the items can be told from the text. -/
theorem allFit_of_expand (expands : expand (formatOf items) ap = (referenceOf items ap, .ok ())) : AllFit items ap := by
  have sized : ∀ i ∈ items, i.Sized := by
    by_contra large
    have fault := expand_overflow items ap large
    rw [expands] at fault
    cases fault
  have text : (assign items ap).flatMap (fun x => x.1.printed x.2) = (assign items ap).flatMap (fun x => x.1.reference x.2) := by
    rw [expand_items items ap sized] at expands
    exact (Prod.mk.inj expands).1
  have whole : ∀ x ∈ assign items ap, x.1.Whole x.2 := fun x member =>
    Item.not_cut ((PieceMeasure.countP solid).piece_eq (fun x _ => x.1.solid_le x.2) (congrArg _ text) x member)
  have length : ∀ x ∈ assign items ap, (x.1.reference x.2).length = (x.1.printed x.2).length :=
    PieceMeasure.length.piece_eq (fun x member => Item.length_le (whole x member)) (congrArg _ text.symm)
  have same := piece_eq_of_length length text.symm
  intro x member
  have known : x.1 ∈ items := by
    rw [← assign_items items ap]
    exact List.mem_map_of_mem member
  exact Item.fits_of_printed (sized x.1 known) (whole x member) (same x member).symm

theorem expand_of_allFit (fit : AllFit items ap) : expand (formatOf items) ap = (referenceOf items ap, .ok ()) := by
  have sized : ∀ i ∈ items, i.Sized := by
    intro i member
    rw [← assign_items items ap] at member
    obtain ⟨x, inside, rfl⟩ := List.mem_map.mp member
    exact (fit x inside).sized
  rw [expand_items items ap sized, referenceOf]
  congr 1
  exact List.flatMap_congr fun x member => Item.printed_of_fits (fit x member)

/-- Every buffer with room for the expansion of C and its NUL holds them, and nothing else is stored. -/
def PrintsReference (items : List Item) (ap : VaList) : Prop :=
  ∀ str size, (referenceOf items ap).length < size →
    ∃ result, vsnprintf str size (formatOf items) ap = .ok (result, printed str (referenceOf items ap))

/-- `vsnprintf` expands a format as C does if and only if every width is absent, or exact, or pads a number that
is not negative with zeros. -/
theorem printsReference_iff (items : List Item) (ap : VaList) : PrintsReference items ap ↔ AllFit items ap := by
  constructor
  · intro prints
    exact allFit_of_expand (expand_of_printed _ prints)
  · intro fit str size room
    exact vsnprintf_whole str (expand_of_allFit fit) room

/-- `%2d` of 0 is padded with a zero. -/
theorem not_printsReference : ¬ ∀ (items : List Item) (ap : VaList), PrintsReference items ap := by
  intro always
  have prints := always [.number false 2 .d] fun _ => ⟨0, []⟩
  have fit := allFit_of_expand (expand_of_printed _ prints) (.number false 2 .d, ⟨0, []⟩) (List.mem_singleton_self _)
  rcases fit.2 with none | exact | ⟨padded, -⟩
  · cases none
  · cases exact
  · cases padded

end Format

end Xv6
