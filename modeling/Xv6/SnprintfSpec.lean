import Xv6.Snprintf
import Mathlib.Data.List.GetD

namespace Xv6

/-- The characters that a part of the format prints, and the scanner behind it. -/
def scanAll : List UInt8 → Scan → List UInt8 × Res Scan
  | [], s => ([], .ok s)
  | c :: fmt, s =>
    match s.step c with
    | .error e => ([], .error e)
    | .ok (out, s) => (out ++ (scanAll fmt s).1, (scanAll fmt s).2)

/-- What is printed for the rest of a format up to its NUL, and what goes wrong after that. -/
def expandFrom (fmt : List UInt8) (s : Scan) : List UInt8 × Res Unit :=
  match scanAll fmt s with
  | (text, .error e) => (text, .error e)
  | (text, .ok s) => if s.label = .top then (text, .ok ()) else (text ++ [ch '%', 0], .error .wild)

/-- The expansion of a format: what `vsnprintf` prints into a buffer without an end. -/
def expand (fmt : List UInt8) (ap : VaList) : List UInt8 × Res Unit := expandFrom fmt (.start ap)

section Directive

variable (s : Scan)

theorem directive_d :
    s.directive (ch 'd') = .ok (if (s.ap 0).word.toInt < 0 then printUint (-(s.ap 0).word).toNat 10 s.width (s.flag ||| flagNeg)
      else printUint (s.ap 0).word.toNat 10 s.width s.flag, s.took) := by
  rw [Scan.directive, if_pos rfl]

theorem directive_o : s.directive (ch 'o') = .ok (printUint (s.ap 0).word.toNat 8 s.width s.flag, s.took) := by
  rw [Scan.directive, if_neg (by decide), if_pos rfl]

theorem directive_x : s.directive (ch 'x') = .ok (printUint (s.ap 0).word.toNat 16 s.width s.flag, s.took) := by
  rw [Scan.directive, if_neg (by decide), if_neg (by decide), if_pos (.inl rfl)]

theorem directive_p : s.directive (ch 'p') = .ok (printUint (s.ap 0).word.toNat 16 s.width s.flag, s.took) := by
  rw [Scan.directive, if_neg (by decide), if_neg (by decide), if_pos (.inr rfl)]

theorem directive_u : s.directive (ch 'u') = .ok (printUint (s.ap 0).word.toNat 10 s.width s.flag, s.took) := by
  rw [Scan.directive, if_neg (by decide), if_neg (by decide), if_neg (by decide), if_pos rfl]

theorem directive_c : s.directive (ch 'c') = .ok ([UInt8.ofNat (s.ap 0).word.toNat], s.took) := by
  rw [Scan.directive, if_neg (by decide), if_neg (by decide), if_neg (by decide), if_neg (by decide), if_pos rfl]

theorem directive_s : s.directive (ch 's') = .ok ((s.ap 0).str, s.took) := by
  rw [Scan.directive, if_neg (by decide), if_neg (by decide), if_neg (by decide), if_neg (by decide), if_neg (by decide), if_pos rfl]

theorem directive_percent : s.directive (ch '%') = .ok ([ch '%'], s.done) := by
  rw [Scan.directive, if_neg (by decide), if_neg (by decide), if_neg (by decide), if_neg (by decide), if_neg (by decide),
    if_neg (by decide), if_pos rfl]

theorem directive_zero : s.directive (ch '0') = .ok ([], { s with label := .fmtLoop, flag := s.flag ||| flagZeropad }) := by
  rw [Scan.directive, if_neg (by decide), if_neg (by decide), if_neg (by decide), if_neg (by decide), if_neg (by decide),
    if_neg (by decide), if_neg (by decide), if_pos rfl]

/-- The digits but 0 start a width. -/
theorem directive_digit {c : UInt8} (digit : isDigit c = true) (nonzero : c ≠ ch '0') : s.directive c = s.addDigit c := by
  have other {k : Char} (letter : isDigit (ch k) = false) : c ≠ ch k := by
    rintro rfl
    rw [letter] at digit
    cases digit
  have noHex : ¬ (c = ch 'x' ∨ c = ch 'p') := fun either => either.elim (other (by decide)) (other (by decide))
  rw [Scan.directive, if_neg (other (by decide)), if_neg (other (by decide)), if_neg noHex, if_neg (other (by decide)),
    if_neg (other (by decide)), if_neg (other (by decide)), if_neg (other (by decide)), if_neg nonzero, if_pos digit]

end Directive

theorem scanAll_append (xs ys : List UInt8) (s : Scan) :
    scanAll (xs ++ ys) s =
      match (scanAll xs s).2 with
      | .error e => ((scanAll xs s).1, .error e)
      | .ok t => ((scanAll xs s).1 ++ (scanAll ys t).1, (scanAll ys t).2) := by
  induction xs generalizing s with
  | nil => rfl
  | cons c xs ih =>
    rw [List.cons_append, scanAll, scanAll]
    cases step : s.step c with
    | error e => rfl
    | ok next =>
      obtain ⟨out, t⟩ := next
      simp only [ih]
      cases (scanAll xs t).2 with
      | error e => rfl
      | ok u => simp only [List.append_assoc]

section Buffer

variable {size : Nat} {str : Nat → UInt8}

/-- The buffer with the text from the index `pos` on. -/
def stored (str : Nat → UInt8) (pos : Nat) (text : List UInt8) : Nat → UInt8 :=
  fun i => if pos ≤ i ∧ i < pos + text.length then text.getD (i - pos) 0 else str i

/-- The buffer with the text and a NUL behind. -/
def printed (str : Nat → UInt8) (text : List UInt8) : Nat → UInt8 := stored str 0 (text ++ [0])

theorem stored_nil (pos : Nat) : stored str pos [] = str := by
  funext i
  rw [stored, if_neg (by rw [List.length_nil]; omega)]

theorem stored_cons (pos : Nat) (c : UInt8) (text : List UInt8) :
    stored (Function.update str pos c) (pos + 1) text = stored str pos (c :: text) := by
  funext i
  simp only [stored, List.length_cons, Function.update_apply]
  by_cases first : i = pos
  · subst first
    rw [if_neg (by omega), if_pos rfl, if_pos (by omega), Nat.sub_self, List.getD_cons_zero]
  · by_cases inside : pos + 1 ≤ i ∧ i < pos + 1 + text.length
    · obtain ⟨k, rfl⟩ : ∃ k, i = pos + 1 + k := ⟨i - (pos + 1), by omega⟩
      rw [if_pos inside, if_pos (by omega), Nat.add_sub_cancel_left, show pos + 1 + k - pos = k + 1 by omega,
        List.getD_cons_succ]
    · rw [if_neg inside, if_neg first, if_neg (by omega)]

theorem setChs_append (b : PrintBuf) (text more : List UInt8) :
    setChs size b (text ++ more) = (setChs size b text >>= fun b => setChs size b more) := by
  induction text generalizing b with
  | nil => rfl
  | cons c text ih =>
    rw [List.cons_append, setChs, setChs]
    cases setCh size b c with
    | error e => rfl
    | ok b => exact ih b

/-- With room for the text and one character more all is stored. -/
theorem setChs_fits {pos : Nat} {text : List UInt8} (room : pos + text.length < size) :
    setChs size ⟨str, pos⟩ text = .ok ⟨stored str pos text, pos + text.length⟩ := by
  induction text generalizing str pos with
  | nil => rw [stored_nil, setChs, List.length_nil, Nat.add_zero]
  | cons c text ih =>
    rw [List.length_cons] at room ⊢
    have more : pos + 1 ≠ size := by omega
    rw [setChs, setCh, if_neg more]
    have rest := @ih (Function.update str pos c) (pos + 1) (by omega)
    rw [stored_cons, show pos + 1 + text.length = pos + (text.length + 1) by omega] at rest
    exact rest

/-- Without that room the text is cut, and a NUL goes into the last place. -/
theorem setChs_full {pos : Nat} {text : List UInt8} (below : pos < size) (cut : size ≤ pos + text.length) :
    setChs size ⟨str, pos⟩ text = .error (.full (stored str pos (text.take (size - 1 - pos) ++ [0]))) := by
  induction text generalizing str pos with
  | nil =>
    rw [List.length_nil] at cut
    omega
  | cons c text ih =>
    rw [List.length_cons] at cut
    rw [setChs, setCh]
    by_cases last : pos + 1 = size
    · rw [if_pos last, show size - 1 = pos by omega, Nat.sub_self, List.take_zero, List.nil_append, Function.update_idem,
        ← stored_cons, stored_nil]
      rfl
    · have rest := @ih (Function.update str pos c) (pos + 1) (by omega) (by omega)
      rw [stored_cons] at rest
      rw [if_neg last, show size - 1 - pos = size - 1 - (pos + 1) + 1 by omega, List.take_succ_cons, List.cons_append]
      exact rest

end Buffer

/-- The loop over the format stores the expansion. -/
theorem printLoop_eq (size : Nat) (fmt : List UInt8) (s : Scan) (b : PrintBuf) :
    printLoop size fmt s b =
      (setChs size b (scanAll fmt s).1 >>= fun b =>
        match (scanAll fmt s).2 with
        | .error e => .error (.fault e)
        | .ok t => printLoop size [] t b) := by
  induction fmt generalizing s b with
  | nil => rfl
  | cons c fmt ih =>
    rw [printLoop, scanAll]
    cases s.step c with
    | error e => rfl
    | ok next =>
      obtain ⟨out, t⟩ := next
      simp only [setChs_append, bind_assoc]
      congr 1
      funext b
      exact ih t b

/-- The whole loop, with what goes wrong at its end. -/
theorem printLoop_expand (size : Nat) (fmt : List UInt8) (ap : VaList) (b : PrintBuf) :
    printLoop size fmt (.start ap) b =
      (setChs size b (expand fmt ap).1 >>= fun b =>
        match (expand fmt ap).2 with
        | .error e => .error (.fault e)
        | .ok () => .ok b) := by
  rw [printLoop_eq, expand, expandFrom]
  obtain ⟨text, last⟩ := scanAll fmt (.start ap)
  cases last with
  | error e => rfl
  | ok t =>
    by_cases top : t.label = .top
    · simp only [printLoop, top, if_true]
    · simp only [printLoop, top, if_false, setChs_append, bind_assoc]

section Outcome

variable {str : Nat → UInt8} {size : Nat} {fmt text : List UInt8} {ap : VaList}

/-- Without a fault the expansion is stored, and a NUL behind it. -/
theorem vsnprintf_eq (expands : expand fmt ap = (text, .ok ())) :
    vsnprintf str size fmt ap = returned size (setChs size ⟨str, 0⟩ (text ++ [0])) := by
  have loop : (do setCh size (← printLoop size fmt (.start ap) ⟨str, 0⟩) 0) = setChs size ⟨str, 0⟩ (text ++ [0]) := by
    rw [printLoop_expand, expands, setChs_append]
    cases setChs size ⟨str, 0⟩ text with
    | error e => rfl
    | ok b =>
      show setCh size b 0 = (setCh size b 0 >>= fun b => .ok b)
      cases setCh size b 0 <;> rfl
  rw [vsnprintf, loop]

/-- An expansion that leaves room for its NUL and a character more is printed whole. -/
theorem vsnprintf_fits (expands : expand fmt ap = (text, .ok ())) (room : text.length + 1 < size) :
    vsnprintf str size fmt ap = .ok (wordInt (text.length % 2 ^ 32), printed str text) := by
  have all : setChs size ⟨str, 0⟩ (text ++ [0]) = .ok ⟨printed str text, 0 + (text ++ [0]).length⟩ :=
    setChs_fits (by rw [List.length_append, List.length_singleton]; omega)
  rw [vsnprintf_eq expands, all, returned, List.length_append, List.length_singleton, Nat.zero_add, Nat.add_sub_cancel]

/-- Otherwise the text is cut, and the size is returned. -/
theorem vsnprintf_cut (expands : expand fmt ap = (text, .ok ())) (positive : 1 ≤ size) (cut : size ≤ text.length + 1) :
    vsnprintf str size fmt ap = .ok (wordInt (size % 2 ^ 32), printed str (text.take (size - 1))) := by
  have full := @setChs_full size str 0 (text ++ [0]) positive (by rw [List.length_append, List.length_singleton]; omega)
  rw [Nat.sub_zero, List.take_append_of_le_length (by omega)] at full
  rw [vsnprintf_eq expands, full]
  rfl

/-- What goes wrong is seen with room for the text in front. -/
theorem vsnprintf_fault {e : Fault} (expands : expand fmt ap = (text, .error e)) (room : text.length < size) :
    vsnprintf str size fmt ap = .error e := by
  have all : setChs size ⟨str, 0⟩ text = .ok ⟨stored str 0 text, 0 + text.length⟩ := setChs_fits (by omega)
  rw [vsnprintf, printLoop_expand, expands, all]
  rfl

theorem printed_at (str : Nat → UInt8) (text : List UInt8) (i : Nat) :
    printed str text i = if i < text.length + 1 then (text ++ [0]).getD i 0 else str i := by
  rw [printed, stored, List.length_append, List.length_singleton, Nat.zero_add, Nat.sub_zero]
  simp only [Nat.zero_le, true_and]

theorem printed_text {i : Nat} (inside : i < text.length) : printed str text i = text.getD i 0 := by
  rw [printed_at, if_pos (by omega), List.getD_append _ _ _ _ inside]

theorem printed_nul : printed str text text.length = 0 := by
  rw [printed_at, if_pos (Nat.lt_succ_self _), List.getD_append_right _ _ _ _ le_rfl, Nat.sub_self, List.getD_cons_zero]

theorem printed_behind {i : Nat} (behind : text.length < i) : printed str text i = str i := by
  rw [printed_at, if_neg (by omega)]

/-- Behind the shorter text the old content shows. -/
theorem printed_le {other : List UInt8} (same : ∀ str, printed str text = printed str other) : other.length ≤ text.length := by
  by_contra longer
  have zero := congrFun (same fun _ => 0) (text.length + 1)
  have one := congrFun (same fun _ => 1) (text.length + 1)
  rw [printed_behind (Nat.lt_succ_self _), printed_at, if_pos (by omega)] at zero one
  exact absurd (zero.trans one.symm) (by decide)

/-- The text can be told from the buffers. -/
theorem printed_injective {other : List UInt8} (same : ∀ str, printed str text = printed str other) : text = other := by
  have length : text.length = other.length := Nat.le_antisymm (printed_le fun str => (same str).symm) (printed_le same)
  refine List.ext_getElem length fun i left right => ?_
  have here := congrFun (same fun _ => 0) i
  rw [printed_text left, printed_text right, List.getD_eq_getElem _ _ left, List.getD_eq_getElem _ _ right] at here
  exact here

/-- What is printed into every large buffer is the expansion. -/
theorem expand_of_printed (bound : Nat)
    (prints : ∀ str size, bound < size → ∃ result, vsnprintf str size fmt ap = .ok (result, printed str text)) :
    expand fmt ap = (text, .ok ()) := by
  obtain ⟨⟨other, last⟩, expands⟩ : ∃ e, expand fmt ap = e := ⟨_, rfl⟩
  have large : bound < bound + other.length + 2 := by omega
  cases last with
  | error e =>
    obtain ⟨result, done⟩ := prints (fun _ => 0) _ large
    rw [vsnprintf_fault expands (by omega)] at done
    cases done
  | ok =>
    have same : ∀ str, printed str other = printed str text := by
      intro str
      obtain ⟨result, done⟩ := prints str _ large
      rw [vsnprintf_fits expands (by omega)] at done
      exact (Prod.mk.inj (Except.ok.inj done)).2
    rw [expands, printed_injective same]

/-- A buffer with room for the expansion and its NUL holds them. -/
theorem vsnprintf_whole (str : Nat → UInt8) (expands : expand fmt ap = (text, .ok ())) (room : text.length < size) :
    ∃ result, vsnprintf str size fmt ap = .ok (result, printed str text) := by
  by_cases more : text.length + 1 < size
  · exact ⟨_, vsnprintf_fits expands more⟩
  · have cut := @vsnprintf_cut str _ _ _ _ expands (show 1 ≤ size by omega) (by omega)
    rw [List.take_of_length_le (show text.length ≤ size - 1 by omega)] at cut
    exact ⟨_, cut⟩

/-- What `vsnprintf` promises for an expansion: nothing is stored behind the buffer, which holds a prefix of
the expansion and a NUL, and the length of the expansion is returned, or something else that is not below the size. -/
structure Prints (str : Nat → UInt8) (size : Nat) (text : List UInt8) (result : Int) (str' : Nat → UInt8) : Prop where
  within : ∀ i, size ≤ i → str' i = str i
  stores : ∀ i, i < min text.length (size - 1) → str' i = text.getD i 0
  ends : str' (min text.length (size - 1)) = 0
  whole : text.length < size → result = text.length
  cut : size ≤ text.length → (size : Int) ≤ result

theorem wordInt_eq {n : Nat} : wordInt (n % 2 ^ 32) = n ↔ n < 2 ^ 31 := by
  rw [wordInt]
  split <;> omega

theorem wordInt_le (n : Nat) : wordInt (n % 2 ^ 32) ≤ n := by
  rw [wordInt]
  split <;> omega

/-- An exact fit is taken for a text that does not fit; and lengths are returned as an int. -/
theorem vsnprintf_prints_iff (str : Nat → UInt8) (expands : expand fmt ap = (text, .ok ())) (positive : 1 ≤ size) :
    (∃ result str', vsnprintf str size fmt ap = .ok (result, str') ∧ Prints str size text result str') ↔
      text.length + 1 ≠ size ∧ min text.length size < 2 ^ 31 := by
  by_cases room : text.length + 1 < size
  · rw [vsnprintf_fits expands room]
    have least : min text.length (size - 1) = text.length := by omega
    have shorter : min text.length size = text.length := by omega
    rw [shorter]
    constructor
    · rintro ⟨result, str', done, prints⟩
      obtain ⟨rfl, rfl⟩ := Prod.mk.inj (Except.ok.inj done)
      exact ⟨by omega, wordInt_eq.mp (prints.whole (by omega))⟩
    · rintro ⟨-, small⟩
      refine ⟨_, _, rfl, fun i behind => printed_behind (by omega), fun i inside => printed_text (by omega), ?_,
        fun _ => wordInt_eq.mpr small, fun long => absurd long (by omega)⟩
      rw [least]
      exact printed_nul
  · rw [vsnprintf_cut expands positive (by omega)]
    have length : (text.take (size - 1)).length = size - 1 := by
      rw [List.length_take]
      omega
    have least : min text.length (size - 1) = size - 1 := by omega
    constructor
    · rintro ⟨result, str', done, prints⟩
      obtain ⟨rfl, rfl⟩ := Prod.mk.inj (Except.ok.inj done)
      have notExact : text.length + 1 ≠ size := by
        intro exact
        have whole := prints.whole (by omega)
        rw [wordInt] at whole
        split at whole <;> omega
      have long := prints.cut (by omega)
      have small := wordInt_eq.mp (le_antisymm (wordInt_le size) long)
      exact ⟨notExact, by omega⟩
    · rintro ⟨notExact, small⟩
      have short : size < 2 ^ 31 := by omega
      refine ⟨_, _, rfl, fun i behind => printed_behind (by omega), fun i inside => ?_, ?_, fun less => absurd less (by omega),
        fun _ => (wordInt_eq.mpr short).ge⟩
      · rw [printed_text (by omega), List.getD_eq_getElem?_getD, List.getElem?_take_of_lt (by omega),
          List.getD_eq_getElem?_getD]
      · rw [least]
        nth_rewrite 2 [← length]
        exact printed_nul

end Outcome

section Example

variable (ap : VaList)

theorem expand_ab : expand [ch 'a', ch 'b'] ap = ([ch 'a', ch 'b'], .ok ()) := rfl

/-- Two characters in a buffer of eight. -/
theorem vsnprintf_prints_ab : ∃ result str', vsnprintf (fun _ => 1) 8 [ch 'a', ch 'b'] (fun _ => ⟨0, []⟩) = .ok (result, str') ∧
    Prints (fun _ => 1) 8 [ch 'a', ch 'b'] result str' :=
  (vsnprintf_prints_iff (fun _ => 1) (expand_ab _) (by decide)).mpr ⟨by decide, by decide⟩

/-- In a buffer of three they fit, and 3 is returned. -/
theorem not_vsnprintf_prints : ¬ ∀ (str : Nat → UInt8) (size : Nat) (fmt : List UInt8) (ap : VaList) (text : List UInt8),
    expand fmt ap = (text, .ok ()) → 1 ≤ size →
    ∃ result str', vsnprintf str size fmt ap = .ok (result, str') ∧ Prints str size text result str' := by
  intro always
  have expands := expand_ab fun _ => ⟨0, []⟩
  obtain ⟨result, str', done, prints⟩ := always (fun _ => 1) 3 _ _ _ expands (by decide)
  rw [vsnprintf_cut expands (by decide) (by decide)] at done
  obtain ⟨rfl, -⟩ := Prod.mk.inj (Except.ok.inj done)
  exact absurd (prints.whole (by decide)) (by decide)

end Example

end Xv6
