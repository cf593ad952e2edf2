import Mathlib.Data.List.Basic

/-- A measure of lists that adds up. -/
structure PieceMeasure {β : Type} (m : List β → Nat) : Prop where
  nil : m [] = 0
  append : ∀ xs ys, m (xs ++ ys) = m xs + m ys

section Pieces

variable {α β : Type} {m : List β → Nat} {f g : α → List β}

theorem PieceMeasure.length : PieceMeasure (List.length (α := β)) := ⟨rfl, fun _ _ => List.length_append⟩

theorem PieceMeasure.countP (p : β → Bool) : PieceMeasure (List.countP p) := ⟨rfl, fun _ _ => List.countP_append⟩

theorem PieceMeasure.flatMap_le (additive : PieceMeasure m) {l : List α} (le : ∀ x ∈ l, m (f x) ≤ m (g x)) :
    m (l.flatMap f) ≤ m (l.flatMap g) := by
  induction l with
  | nil => exact Nat.le_refl _
  | cons x l ih =>
    rw [List.flatMap_cons, List.flatMap_cons, additive.append, additive.append]
    exact Nat.add_le_add (le x (List.mem_cons_self ..)) (ih fun y member => le y (List.mem_cons_of_mem _ member))

/-- When no piece grows and the whole stays, every piece stays. -/
theorem PieceMeasure.piece_eq (additive : PieceMeasure m) {l : List α} (le : ∀ x ∈ l, m (f x) ≤ m (g x))
    (same : m (l.flatMap f) = m (l.flatMap g)) : ∀ x ∈ l, m (f x) = m (g x) := by
  induction l with
  | nil => exact fun _ member => absurd member List.not_mem_nil
  | cons x l ih =>
    have first := le x (List.mem_cons_self ..)
    have later := fun y member => le y (List.mem_cons_of_mem x member)
    have rest := additive.flatMap_le later
    rw [List.flatMap_cons, List.flatMap_cons, additive.append, additive.append] at same
    intro y member
    rcases List.mem_cons.mp member with rfl | member
    · omega
    · exact ih later (by omega) y member

/-- Pieces of the same lengths can be told from the whole. -/
theorem piece_eq_of_length {l : List α} (length : ∀ x ∈ l, (f x).length = (g x).length) (same : l.flatMap f = l.flatMap g) :
    ∀ x ∈ l, f x = g x := by
  induction l with
  | nil => exact fun _ member => absurd member List.not_mem_nil
  | cons x l ih =>
    rw [List.flatMap_cons, List.flatMap_cons] at same
    obtain ⟨first, rest⟩ := List.append_inj same (length x (List.mem_cons_self ..))
    intro y member
    rcases List.mem_cons.mp member with rfl | member
    · exact first
    · exact ih (fun y member => length y (List.mem_cons_of_mem _ member)) rest y member

end Pieces
