import Mathlib.Data.List.Basic
import Mathlib.Data.List.Nodup

/-- The first `k` picks of a single queue `q` with the current element `c`: each
pick appends the current element and takes the head. -/
def fifoPicks {α : Type*} (q : List α) (c : α) : Nat → List α
  | 0 => []
  | k + 1 =>
    match q with
    | [] => c :: fifoPicks [] c k
    | t :: rest => t :: fifoPicks (rest ++ [c]) t k

section

variable {α : Type*}

theorem fifoPicks_length (q : List α) (c : α) (k : Nat) : (fifoPicks q c k).length = k := by
  induction k generalizing q c with
  | zero => rfl
  | succ k ih => cases q <;> rw [fifoPicks, List.length_cons, ih]

/-- The picks go around the queue and the element that was current at the start. -/
theorem fifoPicks_getElem? (q : List α) (c : α) {k i : Nat} (bound : i < k) :
    (fifoPicks q c k)[i]? = (q ++ [c])[i % (q.length + 1)]? := by
  induction k generalizing q c i with
  | zero => omega
  | succ k ih =>
    cases q with
    | nil =>
      rw [fifoPicks]
      cases i with
      | zero => simp
      | succ i =>
        rw [List.getElem?_cons_succ, ih [] c (by omega)]
        simp [Nat.mod_one]
    | cons t rest =>
      rw [fifoPicks]
      cases i with
      | zero => simp
      | succ i =>
        rw [List.getElem?_cons_succ, ih (rest ++ [c]) t (by omega)]
        simp only [List.length_append, List.length_cons, List.length_nil, Nat.zero_add, List.cons_append]
        have size : 0 < rest.length + 1 + 1 := by omega
        have index := Nat.mod_lt i size
        by_cases wrap : i % (rest.length + 1 + 1) = rest.length + 1
        · have next : (i + 1) % (rest.length + 1 + 1) = 0 := by
            rw [Nat.add_mod, wrap]
            simp
          rw [wrap, next]
          simp
        · have next : (i + 1) % (rest.length + 1 + 1) = i % (rest.length + 1 + 1) + 1 := by
            rw [Nat.add_mod, Nat.mod_eq_of_lt (show 1 < rest.length + 1 + 1 by omega),
              Nat.mod_eq_of_lt (show i % (rest.length + 1 + 1) + 1 < rest.length + 1 + 1 by omega)]
          rw [next, List.getElem?_cons_succ, List.getElem?_append_left (by simp; omega)]

/-- One more pick. -/
theorem fifoPicks_succ (q : List α) (c : α) (k : Nat) :
    fifoPicks q c (k + 1) = fifoPicks q c k ++ ((q ++ [c])[k % (q.length + 1)]?).toList := by
  have length := fifoPicks_length q c k
  have last := fifoPicks_getElem? q c (Nat.lt_succ_self k)
  apply List.ext_getElem?
  intro i
  rcases Nat.lt_trichotomy i k with below | rfl | above
  · rw [List.getElem?_append_left (by omega), fifoPicks_getElem? q c below, fifoPicks_getElem? q c (by omega)]
  · rw [List.getElem?_append_right (by omega), length, Nat.sub_self, last]
    cases (q ++ [c])[i % (q.length + 1)]? <;> simp
  · have whole := fifoPicks_length q c (k + 1)
    rw [List.getElem?_eq_none (by omega), List.getElem?_eq_none]
    rw [List.length_append, length]
    have most := Option.length_toList_le (o := (q ++ [c])[k % (q.length + 1)]?)
    omega

/-- Between two consecutive picks of an element every other one is picked once. -/
theorem fifoPicks_between {q : List α} {c : α} (distinct : (q ++ [c]).Nodup) {n i j : Nat} {t u : α}
    (order : i < j) (bound : j < n) (first : (fifoPicks q c n)[i]? = some t) (second : (fifoPicks q c n)[j]? = some t)
    (between : ∀ k, i < k → k < j → (fifoPicks q c n)[k]? ≠ some t) (member : u ∈ q ++ [c]) (other : u ≠ t) :
    ∃ k, (i < k ∧ k < j ∧ (fifoPicks q c n)[k]? = some u) ∧
      ∀ k', i < k' → k' < j → (fifoPicks q c n)[k']? = some u → k' = k := by
  have size : (q ++ [c]).length = q.length + 1 := by simp
  generalize width : q.length + 1 = w at size
  have picks : ∀ k, k < n → (fifoPicks q c n)[k]? = (q ++ [c])[k % w]? := fun k below => by
    rw [fifoPicks_getElem? q c below, width]
  have positive : 0 < w := by omega
  have same : ∀ a b, a < w → b < w → (q ++ [c])[a]? = (q ++ [c])[b]? → a = b := fun a b aBound bBound equal =>
    (List.getElem?_inj (by omega) distinct).mp equal
  obtain ⟨x, xBound, atX⟩ := List.mem_iff_getElem.mp member
  have atX' : (q ++ [c])[x]? = some u := by rw [List.getElem?_eq_getElem xBound, atX]
  rw [size] at xBound
  rw [picks i (by omega)] at first
  rw [picks j bound] at second
  have residue : i % w = j % w :=
    same _ _ (Nat.mod_lt _ positive) (Nat.mod_lt _ positive) (first.trans second.symm)
  -- The next pick of `t` after `i` is `w` steps later.
  have period : j = i + w := by
    obtain ⟨d, rfl⟩ := Nat.exists_eq_add_of_lt order
    have iSplit := Nat.div_add_mod i w
    have jSplit := Nat.div_add_mod (i + d + 1) w
    rw [← residue] at jSplit
    have product : d + 1 + w * (i / w) = w * ((i + d + 1) / w) := by omega
    by_contra further
    have large : w < d + 1 := by
      have more : i / w + 1 ≤ (i + d + 1) / w := by
        by_contra less
        have smaller := Nat.mul_le_mul_left w (show (i + d + 1) / w ≤ i / w by omega)
        omega
      have atLeast := Nat.mul_le_mul_left w more
      rw [Nat.mul_add, Nat.mul_one] at atLeast
      omega
    refine between (i + w) (by omega) (by omega) ?_
    rw [picks _ (by omega), Nat.add_mod_right]
    exact first
  have apart : i % w ≠ x := by
    intro here
    rw [here, atX'] at first
    exact other (Option.some.inj first)
  have iBound := Nat.mod_lt i positive
  have split := Nat.div_add_mod i w
  refine ⟨if i % w < x then i - i % w + x else i - i % w + w + x, ?_, ?_⟩
  · have low : i % w ≤ i := Nat.mod_le i w
    have value : ∀ m, (w * m + x) % w = x := fun m => by
      rw [Nat.mul_add_mod, Nat.mod_eq_of_lt xBound]
    have back : i - i % w = w * (i / w) := by omega
    split
    · refine ⟨by omega, by omega, ?_⟩
      rw [picks _ (by omega), back, value, atX']
    · refine ⟨by omega, by omega, ?_⟩
      have next : w * (i / w) + w = w * (i / w + 1) := by rw [Nat.mul_add, Nat.mul_one]
      rw [picks _ (by omega), back, next, value, atX']
  · intro k after before found
    rw [picks k (by omega), ← atX'] at found
    have here := same _ _ (Nat.mod_lt _ positive) xBound found
    have kSplit := Nat.div_add_mod k w
    have low : i % w ≤ i := Nat.mod_le i w
    have quotient : k / w = i / w ∨ k / w = i / w + 1 := by
      have lower : i / w ≤ k / w := Nat.div_le_div_right (by omega)
      have upper : k / w ≤ (i + w) / w := Nat.div_le_div_right (by omega)
      rw [Nat.add_div_right i positive] at upper
      omega
    rcases quotient with near | far
    · rw [near] at kSplit
      split <;> omega
    · rw [far, Nat.mul_add, Nat.mul_one] at kSplit
      split <;> omega

end
