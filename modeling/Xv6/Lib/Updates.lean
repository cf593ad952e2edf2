import Mathlib.Data.List.Nodup
import Mathlib.Logic.Function.Basic

variable {α β : Type*} [DecidableEq α]

/-- The function with the values of the list, a later one over an earlier one. -/
def updates (f : α → β) (l : List (α × β)) : α → β :=
  l.foldl (fun f p => Function.update f p.1 p.2) f

@[simp] theorem updates_nil (f : α → β) : updates f [] = f := rfl

@[simp] theorem updates_cons (f : α → β) (p : α × β) (l : List (α × β)) :
    updates f (p :: l) = updates (Function.update f p.1 p.2) l := rfl

theorem updates_append (f : α → β) (l₁ l₂ : List (α × β)) : updates f (l₁ ++ l₂) = updates (updates f l₁) l₂ :=
  List.foldl_append

theorem updates_of_not_mem {f : α → β} {l : List (α × β)} {a : α} (absent : a ∉ l.map Prod.fst) : updates f l a = f a := by
  induction l generalizing f with
  | nil => rfl
  | cons p l ih =>
    rw [List.map_cons, List.mem_cons, not_or] at absent
    rw [updates_cons, ih absent.2, Function.update_of_ne absent.1]

/-- A value of the list is found, where no key is there twice. -/
theorem updates_of_mem {f : α → β} {l : List (α × β)} {a : α} {b : β} (keys : (l.map Prod.fst).Nodup) (member : (a, b) ∈ l) :
    updates f l a = b := by
  induction l generalizing f with
  | nil => cases member
  | cons p l ih =>
    rw [List.map_cons, List.nodup_cons] at keys
    rcases List.mem_cons.mp member with rfl | later
    · rw [updates_cons, updates_of_not_mem keys.1, Function.update_self]
    · rw [updates_cons, ih keys.2 later]

/-- Keys in which an injective function is applied are found the same way. -/
theorem updates_map_of_mem {γ : Type*} {f : α → β} {l : List (γ × β)} {key : γ → α} {c : γ} {b : β}
    (injective : Function.Injective key) (keys : (l.map Prod.fst).Nodup) (member : (c, b) ∈ l) :
    updates f (l.map (Prod.map key id)) (key c) = b := by
  refine updates_of_mem ?_ (List.mem_map.mpr ⟨(c, b), member, rfl⟩)
  rw [List.map_map, show Prod.fst ∘ Prod.map key (id : β → β) = key ∘ Prod.fst from rfl, ← List.map_map]
  exact keys.map injective
