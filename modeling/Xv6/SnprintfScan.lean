import Xv6.Lib.Numerals
import Xv6.SnprintfSpec

namespace Xv6

/-- The letters that the `switch` knows. -/
def Known (c : UInt8) : Prop := c ∈ ['d', 'o', 'x', 'p', 'u', 'c', 's', '%'].map ch

instance (c : UInt8) : Decidable (Known c) := inferInstanceAs (Decidable (c ∈ _))

/-- A character as it should be taken: an unknown directive is copied with all that was read of it, and
nothing of it stays. -/
def copyStep (read : List UInt8) (s : Scan) (c : UInt8) : Res (List UInt8 × List UInt8 × Scan) :=
  if s.label ≠ .top ∧ ¬ Known c ∧ isDigit c = false then .ok (read ++ [c], [], s.done)
  else
    match s.step c with
    | .error e => .error e
    | .ok (out, t) => .ok (out, if t.label = .top then [] else read ++ [c], t)

/-- The expansion of the rest of a format, behind the part `read` of a directive. At the NUL this part is copied, too. -/
def copyFrom : List UInt8 → List UInt8 → Scan → Res (List UInt8)
  | [], read, _ => .ok read
  | c :: fmt, read, s =>
    match copyStep read s c with
    | .error e => .error e
    | .ok (out, read, t) => do .ok (out ++ (← copyFrom fmt read t))

/-- `vsnprintf` returns, with the characters of this expansion and a NUL in the buffer. -/
def CopiesUnknown (fmt : List UInt8) (ap : VaList) : Prop :=
  ∃ text, copyFrom fmt [] (.start ap) = .ok text ∧
    ∀ str size, 1 ≤ size → vsnprintf str size fmt ap = returned size (setChs size ⟨str, 0⟩ (text ++ [0]))

/-- The width that digits stand for. -/
def widthOf (spec : List UInt8) : Nat := horner 10 0 (spec.map fun c => c.toNat - (ch '0').toNat)

/-- Every directive comes to its letter in front of the NUL, with a width that is a signed number, and an unknown
one has neither flag nor width. Inside of a directive the digits that were read are at hand. -/
def CleanFrom : Option (List UInt8) → List UInt8 → Prop
  | none, [] => True
  | some _, [] => False
  | none, c :: fmt => if c = ch '%' then CleanFrom (some []) fmt else CleanFrom none fmt
  | some spec, c :: fmt =>
    if isDigit c then widthOf (spec ++ [c]) < 2 ^ 63 ∧ CleanFrom (some (spec ++ [c])) fmt
    else if Known c then CleanFrom none fmt
    else spec = [] ∧ CleanFrom none fmt

def Clean (fmt : List UInt8) : Prop := CleanFrom none fmt

/-- Both expansions of the rest of a format are one. -/
def Alike (fmt read : List UInt8) (s : Scan) : Prop :=
  ∃ text, copyFrom fmt read s = .ok text ∧ expandFrom fmt s = (text, .ok ())

theorem expandFrom_cons (c : UInt8) (fmt : List UInt8) (s : Scan) :
    expandFrom (c :: fmt) s =
      match s.step c with
      | .error e => ([], .error e)
      | .ok (out, t) => (out ++ (expandFrom fmt t).1, (expandFrom fmt t).2) := by
  rw [expandFrom, scanAll]
  cases s.step c with
  | error e => rfl
  | ok next =>
    obtain ⟨out, t⟩ := next
    simp only [expandFrom]
    obtain ⟨text, last⟩ := scanAll fmt t
    cases last with
    | error e => rfl
    | ok u =>
      simp only
      split
      · rfl
      · rw [List.append_assoc]

/-- One character on which both agree. -/
theorem alike_cons {c : UInt8} {fmt read read' out : List UInt8} {s t : Scan} (step : s.step c = .ok (out, t))
    (copy : copyStep read s c = .ok (out, read', t)) : Alike (c :: fmt) read s ↔ Alike fmt read' t := by
  simp only [Alike, copyFrom, copy, expandFrom_cons, step]
  cases copyFrom fmt read' t with
  | error e =>
    constructor
    · rintro ⟨text, copied, -⟩
      cases copied
    · rintro ⟨text, copied, -⟩
      cases copied
  | ok rest =>
    obtain ⟨more, last⟩ := expandFrom fmt t
    constructor
    · rintro ⟨text, copied, expands⟩
      obtain rfl := Except.ok.inj copied
      obtain ⟨same, rfl⟩ := Prod.mk.inj expands
      obtain rfl : more = rest := List.append_cancel_left same
      exact ⟨more, rfl, rfl⟩
    · rintro ⟨text, copied, expands⟩
      obtain rfl := Except.ok.inj copied
      obtain ⟨rfl, rfl⟩ := Prod.mk.inj expands
      exact ⟨out ++ more, rfl, rfl⟩

theorem not_alike_error {c : UInt8} {fmt read : List UInt8} {s : Scan} {e : Fault} (step : s.step c = .error e) :
    ¬ Alike (c :: fmt) read s := by
  rintro ⟨text, -, expands⟩
  rw [expandFrom_cons, step] at expands
  cases expands

/-- The scanner behind the digits `spec` of a directive. -/
structure InDirective (spec : List UInt8) (s : Scan) : Prop where
  inner : s.label ≠ .top
  digits : ∀ c ∈ spec, isDigit c = true
  width : s.width = widthOf spec
  fits : s.width < 2 ^ 63
  flags : s.label = .fmtLoop → s.width = 0
  fresh : spec = [] → s.flag = 0

section Steps

variable {c : UInt8} {fmt spec : List UInt8} {s : Scan}

theorem widthOf_append (spec : List UInt8) (c : UInt8) : widthOf (spec ++ [c]) = widthOf spec * 10 + (c.toNat - (ch '0').toNat) := by
  rw [widthOf, widthOf, List.map_append, horner, horner, List.foldl_append]
  rfl

theorem Known.not_digit (known : Known c) : isDigit c = false := by
  simp only [Known, List.map_cons, List.map_nil, List.mem_cons, List.not_mem_nil, or_false] at known
  rcases known with rfl | rfl | rfl | rfl | rfl | rfl | rfl | rfl <;> decide

theorem InDirective.step_directive (inside : InDirective spec s) (letter : isDigit c = false) : s.step c = s.directive c := by
  rw [Scan.step]
  cases label : s.label with
  | top => exact absurd label inside.inner
  | fmtLoop => rfl
  | digitLoop => exact if_neg (by rw [letter]; decide)

/-- A digit is a flag, or the next one of the width. -/
theorem InDirective.step_digit (inside : InDirective spec s) (digit : isDigit c = true) :
    (¬ widthOf (spec ++ [c]) < 2 ^ 63 → s.step c = .error .overflow) ∧
      (widthOf (spec ++ [c]) < 2 ^ 63 → ∃ t, s.step c = .ok ([], t) ∧ InDirective (spec ++ [c]) t) := by
  have digits : ∀ d ∈ spec ++ [c], isDigit d = true := by
    intro d member
    rcases List.mem_append.mp member with before | here
    · exact inside.digits d before
    · obtain rfl := List.mem_singleton.mp here
      exact digit
  have notNil : spec ++ [c] ≠ [] := List.append_ne_nil_of_right_ne_nil _ (List.cons_ne_nil _ _)
  by_cases flag : s.label = .fmtLoop ∧ c = ch '0'
  · obtain ⟨label, rfl⟩ := flag
    have none := inside.flags label
    have zero : widthOf (spec ++ [ch '0']) = 0 := by rw [widthOf_append, ← inside.width, none, Nat.sub_self]
    have step : s.step (ch '0') = s.directive (ch '0') := by rw [Scan.step, label]
    rw [step, directive_zero, zero]
    refine ⟨fun large => absurd (by decide) large, fun _ => ⟨_, rfl, ?_⟩⟩
    exact ⟨Label.noConfusion, digits, by rw [zero]; exact none, inside.fits, fun _ => none, fun nil => absurd nil notNil⟩
  · have step : s.step c = s.addDigit c := by
      rw [Scan.step]
      cases label : s.label with
      | top => exact absurd label inside.inner
      | fmtLoop => exact directive_digit s digit fun zero => flag ⟨label, zero⟩
      | digitLoop => exact if_pos digit
    rw [step, Scan.addDigit, widthOf_append, ← inside.width]
    refine ⟨fun large => if_neg large, fun small => ⟨_, if_pos small, ?_⟩⟩
    exact ⟨Label.noConfusion, digits, by rw [widthOf_append, ← inside.width], small, Label.noConfusion, fun nil => absurd nil notNil⟩

/-- Behind a letter that is known the scanner starts anew. -/
theorem InDirective.step_known (inside : InDirective spec s) (known : Known c) : ∃ out ap, s.step c = .ok (out, .start ap) := by
  rw [inside.step_directive known.not_digit]
  simp only [Known, List.map_cons, List.map_nil, List.mem_cons, List.not_mem_nil, or_false] at known
  rcases known with rfl | rfl | rfl | rfl | rfl | rfl | rfl | rfl
  · exact ⟨_, _, directive_d s⟩
  · exact ⟨_, _, directive_o s⟩
  · exact ⟨_, _, directive_x s⟩
  · exact ⟨_, _, directive_p s⟩
  · exact ⟨_, _, directive_u s⟩
  · exact ⟨_, _, directive_c s⟩
  · exact ⟨_, _, directive_s s⟩
  · exact ⟨_, _, directive_percent s⟩

/-- At another letter what was read stays. -/
theorem InDirective.step_unknown (inside : InDirective spec s) (letter : isDigit c = false) (unknown : ¬ Known c) :
    s.step c = .ok ([ch '%', c], { s with label := .top }) := by
  have other {k : Char} (member : k ∈ ['d', 'o', 'x', 'p', 'u', 'c', 's', '%']) : c ≠ ch k := by
    rintro rfl
    exact unknown (List.mem_map_of_mem member)
  have noHex : ¬ (c = ch 'x' ∨ c = ch 'p') := fun either => either.elim (other (by decide)) (other (by decide))
  have noZero : c ≠ ch '0' := by
    rintro rfl
    cases letter
  rw [inside.step_directive letter, Scan.directive, if_neg (other (by decide)), if_neg (other (by decide)), if_neg noHex,
    if_neg (other (by decide)), if_neg (other (by decide)), if_neg (other (by decide)), if_neg (other (by decide)), if_neg noZero,
    if_neg (by rw [letter]; decide)]

theorem InDirective.copyStep_unknown (inside : InDirective spec s) (letter : isDigit c = false) (unknown : ¬ Known c) (read : List UInt8) :
    copyStep read s c = .ok (read ++ [c], [], s.done) := if_pos ⟨inside.inner, unknown, letter⟩

/-- Without flag and width both forget the directive. -/
theorem InDirective.alike_unknown (inside : InDirective [] s) (letter : isDigit c = false) (unknown : ¬ Known c) :
    Alike (c :: fmt) [ch '%'] s ↔ Alike fmt [] (.start s.ap) := by
  have forgets : { s with label := Label.top } = Scan.start s.ap := by
    rw [Scan.start]
    congr 1
    · exact inside.width
    · exact inside.fresh rfl
  have step := inside.step_unknown letter unknown
  rw [forgets] at step
  exact alike_cons step (inside.copyStep_unknown letter unknown [ch '%'])

/-- A flag or a width is lost in the text. -/
theorem InDirective.not_alike_unknown {d : UInt8} (inside : InDirective (d :: spec) s) (letter : isDigit c = false) (unknown : ¬ Known c) :
    ¬ Alike (c :: fmt) (ch '%' :: d :: spec) s := by
  rintro ⟨text, copied, expands⟩
  rw [copyFrom, inside.copyStep_unknown letter unknown] at copied
  rw [expandFrom_cons, inside.step_unknown letter unknown] at expands
  cases rest : copyFrom fmt [] s.done with
  | error e =>
    simp only [rest] at copied
    cases copied
  | ok more =>
    simp only [rest] at copied
    obtain rfl := Except.ok.inj copied
    have texts := (Prod.mk.inj expands).1
    have second : c = d := (List.cons.inj (List.cons.inj texts).2).1
    have digit := inside.digits d (List.mem_cons_self ..)
    rw [← second, letter] at digit
    cases digit

end Steps

/-- Where a format is clean both expansions are one, from its start and from the inside of a directive. -/
theorem alike_iff (fmt : List UInt8) :
    (∀ ap, Alike fmt [] (.start ap) ↔ CleanFrom none fmt) ∧
      ∀ spec s, InDirective spec s → (Alike fmt (ch '%' :: spec) s ↔ CleanFrom (some spec) fmt) := by
  induction fmt with
  | nil =>
    refine ⟨fun ap => ⟨fun _ => trivial, fun _ => ⟨[], rfl, rfl⟩⟩, fun spec s inside => ⟨?_, False.elim⟩⟩
    rintro ⟨text, -, expands⟩
    rw [expandFrom, scanAll] at expands
    simp only [if_neg inside.inner] at expands
    cases (Prod.mk.inj expands).2
  | cons c fmt ih =>
    obtain ⟨ordinary, inner⟩ := ih
    constructor
    · intro ap
      rw [CleanFrom]
      by_cases percent : c = ch '%'
      · subst percent
        rw [if_pos rfl, ← inner [] ⟨.fmtLoop, 0, 0, ap⟩
          ⟨Label.noConfusion, fun _ member => absurd member List.not_mem_nil, rfl, Nat.two_pow_pos 63, fun _ => rfl, fun _ => rfl⟩]
        exact alike_cons rfl rfl
      · have step : (Scan.start ap).step c = .ok ([c], .start ap) := by
          rw [Scan.step]
          exact congrArg Except.ok (if_neg percent)
        have copy : copyStep [] (.start ap) c = .ok ([c], [], .start ap) := by
          rw [copyStep, if_neg (fun inside => inside.1 rfl), step]
          rfl
        rw [if_neg percent, ← ordinary ap]
        exact alike_cons step copy
    · intro spec s inside
      rw [CleanFrom]
      cases letter : isDigit c with
      | true =>
        rw [if_pos rfl]
        obtain ⟨overflows, adds⟩ := inside.step_digit letter
        by_cases small : widthOf (spec ++ [c]) < 2 ^ 63
        · obtain ⟨t, step, next⟩ := adds small
          have copy : copyStep (ch '%' :: spec) s c = .ok ([], ch '%' :: (spec ++ [c]), t) := by
            rw [copyStep, if_neg (fun unknown => by rw [letter] at unknown; cases unknown.2.2), step]
            simp only [if_neg next.inner]
            rfl
          rw [alike_cons step copy, inner _ t next]
          exact ⟨fun clean => ⟨small, clean⟩, And.right⟩
        · exact ⟨fun alike => absurd alike (not_alike_error (overflows small)), fun clean => absurd clean.1 small⟩
      | false =>
        rw [if_neg Bool.false_ne_true]
        by_cases known : Known c
        · obtain ⟨out, ap, step⟩ := inside.step_known known
          have copy : copyStep (ch '%' :: spec) s c = .ok (out, [], .start ap) := by
            rw [copyStep, if_neg (fun unknown => unknown.2.1 known), step]
            rfl
          rw [if_pos known, alike_cons step copy]
          exact ordinary ap
        · rw [if_neg known]
          cases spec with
          | nil =>
            rw [inside.alike_unknown letter known, ordinary s.ap]
            exact ⟨fun clean => ⟨rfl, clean⟩, And.right⟩
          | cons d spec =>
            exact ⟨fun alike => absurd alike (inside.not_alike_unknown letter known), fun clean => absurd clean.1 (List.cons_ne_nil _ _)⟩

theorem CopiesUnknown.alike {fmt : List UInt8} {ap : VaList} (copies : CopiesUnknown fmt ap) : Alike fmt [] (.start ap) := by
  obtain ⟨text, copied, prints⟩ := copies
  refine ⟨text, copied, expand_of_printed (text.length + 1) fun str size room => ?_⟩
  have all : setChs size ⟨str, 0⟩ (text ++ [0]) = .ok ⟨printed str text, 0 + (text ++ [0]).length⟩ :=
    setChs_fits (by rw [List.length_append, List.length_singleton]; omega)
  exact ⟨_, by rw [prints str size (by omega), all, returned]⟩

/-- `vsnprintf` stays in front of the NUL and copies what it does not know if and only if the format is clean. -/
theorem copiesUnknown_iff (fmt : List UInt8) (ap : VaList) : CopiesUnknown fmt ap ↔ Clean fmt := by
  rw [Clean, ← (alike_iff fmt).1 ap]
  constructor
  · exact CopiesUnknown.alike
  · rintro ⟨text, copied, expands⟩
    exact ⟨text, copied, fun str size _ => vsnprintf_eq expands⟩

/-- A format that ends with a percent sign is read behind its NUL. -/
theorem not_copiesUnknown : ¬ ∀ (fmt : List UInt8) (ap : VaList), CopiesUnknown fmt ap := by
  intro always
  exact ((alike_iff [ch '%']).1 _).mp (always [ch '%'] fun _ => ⟨0, []⟩).alike

end Xv6
