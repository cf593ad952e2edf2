import Xv6.Lib.ByteMem

namespace Xv6

/-- The word for the head of a chain of indices; the empty chain has the word -1. -/
def chainWord : List Nat → Nat
  | [] => 2 ^ 32 - 1
  | i :: _ => i

/-- The chunks from `start` on hold the chain: each of its indices is followed,
in the first four bytes of its chunk, by the next one. -/
def ChainAt (m : ByteMem) (start size : Nat) : List Nat → Prop
  | [] => True
  | i :: rest => m.load (start + i * size) 4 = chainWord rest ∧ ChainAt m start size rest

variable {m m' : ByteMem} {start size : Nat}

theorem ChainAt.congr {chain : List Nat} (stored : ChainAt m start size chain)
    (same : ∀ i ∈ chain, ∀ x, start + i * size ≤ x → x < start + i * size + 4 → m' x = m x) :
    ChainAt m' start size chain := by
  induction chain with
  | nil => trivial
  | cons i rest ih =>
    refine ⟨?_, ih stored.2 fun j member => same j (List.mem_cons_of_mem _ member)⟩
    rw [ByteMem.load_congr (same i (List.mem_cons_self ..))]
    exact stored.1

/-- The word in a chunk is that of the chain behind it. -/
theorem ChainAt.word {chain : List Nat} {i : Nat} (stored : ChainAt m start size chain) (member : i ∈ chain) :
    ∃ rest, m.load (start + i * size) 4 = chainWord rest ∧ rest ⊆ chain := by
  induction chain with
  | nil => cases member
  | cons j rest ih =>
    rcases List.mem_cons.mp member with rfl | later
    · exact ⟨rest, stored.1, List.subset_cons_self ..⟩
    · obtain ⟨tail, word, inside⟩ := ih stored.2 later
      exact ⟨tail, word, List.Subset.trans inside (List.subset_cons_self ..)⟩

/-- Chunks do not overlap. -/
theorem chunk_apart {i j x : Nat} (size_pos : 4 ≤ size) (different : i ≠ j) (lower : start + i * size ≤ x)
    (upper : x < start + i * size + 4) : x < start + j * size ∨ start + j * size + size ≤ x := by
  rcases Nat.lt_or_gt_of_ne different with lt | gt
  · have step : i * size + size ≤ j * size := by
      rw [← Nat.succ_mul]
      exact Nat.mul_le_mul_right size lt
    omega
  · have step : j * size + size ≤ i * size := by
      rw [← Nat.succ_mul]
      exact Nat.mul_le_mul_right size gt
    omega

/-- What happens inside a chunk that is not free leaves the chain alone. -/
theorem ChainAt.outside {chain : List Nat} {i : Nat} (stored : ChainAt m start size chain) (size_pos : 4 ≤ size)
    (absent : i ∉ chain)
    (same : ∀ x, (x < start + i * size ∨ start + i * size + size ≤ x) → m' x = m x) :
    ChainAt m' start size chain :=
  stored.congr fun _ member x lower upper =>
    same x (chunk_apart size_pos (fun eq => absent (eq ▸ member)) lower upper)

/-- A chunk that is given back goes in front. -/
theorem ChainAt.push {chain : List Nat} {i : Nat} (stored : ChainAt m start size chain) (size_pos : 4 ≤ size)
    (absent : i ∉ chain) (bound : ∀ j ∈ chain, j < 2 ^ 32) :
    ChainAt (m.store (start + i * size) 4 (chainWord chain)) start size (i :: chain) := by
  have fits : chainWord chain < 256 ^ 4 := by
    cases chain with
    | nil => decide
    | cons j rest => exact bound j (List.mem_cons_self ..)
  refine ⟨ByteMem.load_store fits, stored.outside size_pos absent fun x away => ByteMem.store_outside ?_⟩
  omega

end Xv6
