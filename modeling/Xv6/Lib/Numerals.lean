import Mathlib.Data.Nat.Digits.Lemmas

/-- The digits of a number, from the lowest one. Zero has one digit. -/
def numerals (b n : Nat) : List Nat := if n = 0 then [0] else Nat.digits b n

/-- The number that digits stand for, from the highest one, behind the digits of `a`. -/
def horner (b a : Nat) (ds : List Nat) : Nat := ds.foldl (fun a d => a * b + d) a

section Numerals

variable {b n : Nat}

theorem horner_cons (a d : Nat) (ds : List Nat) : horner b a (d :: ds) = horner b (a * b + d) ds := rfl

theorem horner_reverse (ds : List Nat) : horner b 0 ds.reverse = Nat.ofDigits b ds := by
  rw [horner, List.foldl_reverse, Nat.ofDigits_eq_foldr]
  congr 1
  funext d a
  rw [Nat.cast_id, Nat.mul_comm, Nat.add_comm]

/-- What was read does not shrink. -/
theorem le_horner (positive : 1 ≤ b) (a : Nat) (ds : List Nat) : a ≤ horner b a ds := by
  induction ds generalizing a with
  | nil => exact le_rfl
  | cons d ds ih =>
    calc a ≤ a * b := Nat.le_mul_of_pos_right a positive
      _ ≤ a * b + d := Nat.le_add_right _ _
      _ ≤ horner b (a * b + d) ds := ih _

theorem numerals_ne_nil : numerals b n ≠ [] := by
  rw [numerals]
  split_ifs with zero
  · exact List.cons_ne_nil _ _
  · exact Nat.digits_ne_nil_iff_ne_zero.mpr zero

theorem numerals_lt (two : 2 ≤ b) {d : Nat} (member : d ∈ numerals b n) : d < b := by
  rw [numerals] at member
  split_ifs at member with zero
  · rw [List.mem_singleton] at member
    omega
  · exact Nat.digits_lt_base two member

/-- Reading the digits gives the number back. -/
theorem horner_numerals (b n : Nat) : horner b 0 (numerals b n).reverse = n := by
  rw [horner_reverse, numerals]
  split_ifs with zero
  · rw [Nat.ofDigits_singleton, zero]
  · exact Nat.ofDigits_digits b n

/-- The highest digit of a number that is not zero. -/
theorem head_numerals {d : Nat} {ds : List Nat} (nonzero : n ≠ 0) (digits : (numerals b n).reverse = d :: ds) : d ≠ 0 := by
  rw [numerals, if_neg nonzero] at digits
  have last := Nat.getLast_digit_ne_zero b nonzero
  rwa [List.getLast_eq_head_reverse, show (Nat.digits b n).reverse.head _ = d by simp only [digits, List.head_cons]] at last

end Numerals
