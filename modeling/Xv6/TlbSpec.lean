import Xv6.Tlb
import Mathlib.Logic.Function.Basic
import Mathlib.Data.Nat.Bitwise

namespace Xv6

namespace TlbEntry

def half (e : TlbEntry) (odd : Bool) : Nat := if odd then e.lo1 else e.lo0

/-- The V bit of a half. -/
def Valid (e : TlbEntry) (odd : Bool) : Prop := e.half odd % 2 = 1

/-- The EntryLo value `tlbr` reads. -/
def entryLo (e : TlbEntry) (odd : Bool) : Nat := 2 * e.half odd + if e.global then 1 else 0

end TlbEntry

namespace Cpu

/-- The half of the pair of pages that `v` lies in. -/
theorem oddPage_eq (v : Nat) : oddPage v = decide (v / 16384 % 2 = 1) := by
  have bit : v &&& pgsize ≠ 0 ↔ v.testBit 14 = true := by
    rw [pgsize, show (16384 : Nat) = 2 ^ 14 from rfl, Nat.and_two_pow]
    cases v.testBit 14 <;> simp
  rw [oddPage, decide_eq_decide, bit, Nat.testBit_eq_decide_div_mod_eq]
  simp

theorem vpn2Of_eq (v : Nat) : vpn2Of v = v / 32768 := by
  rw [vpn2Of, pgshift, Nat.shiftRight_eq_div_pow]

theorem asid_or (a : Fin 256) (x : Nat) : a.val ||| x <<< (pgshift + 1) = x * 32768 + a.val := by
  have bound := a.isLt
  rw [pgshift, Nat.or_comm, ← Nat.shiftLeft_add_eq_or_of_lt (by omega), Nat.shiftLeft_eq]

theorem asid_eq (c : Cpu) : c.asid.val = c.entryHi % 256 :=
  Nat.and_two_pow_sub_one_eq_mod c.entryHi 8

/-- What `tlb_remove` leaves of an entry: one half is gone, and it translates no
further user address. -/
structure Cleared (odd : Bool) (new old : TlbEntry) : Prop where
  gone : new.half odd = 0
  other : new.half (!odd) = old.half (!odd)
  single : new.global = false
  matching : ∀ vpn2 a, vpn2 < 2 ^ 32 → Matches new vpn2 a → Matches old vpn2 a

/-- The probe names an entry, also when it misses. -/
theorem tlbp_cases (c : Cpu) (pos : 0 < c.tlbsize) :
    ∃ i index misses, i < c.tlbsize ∧ (index = i ∨ index = probeFailure + i) ∧
      c.tlbp = { c with index := index, misses := misses } ∧
      (Matches (c.tlb i) (vpn2Of c.entryHi) c.asid ∨
        (∀ j, j < c.tlbsize → ¬ Matches (c.tlb j) (vpn2Of c.entryHi) c.asid) ∧ i = c.stray c.misses % c.tlbsize) := by
  rw [tlbp]
  split
  · rename_i i found
    refine ⟨i, i, c.misses, ?_, .inl rfl, rfl, .inl ?_⟩
    · exact List.mem_range.mp (List.mem_of_find?_eq_some found)
    · simpa using List.find?_some found
  · rename_i none
    refine ⟨c.stray c.misses % c.tlbsize, _, _, Nat.mod_lt _ pos, .inr rfl, rfl, .inr ⟨?_, rfl⟩⟩
    intro j bound
    simpa using List.find?_eq_none.mp none j (List.mem_range.mpr bound)

/-- No user address has the number of a dummy. -/
theorem entryhiDummy_vpn2 {i : Nat} (small : i < 64) : 2 ^ 32 ≤ vpn2Of (entryhiDummy i) := by
  rw [vpn2Of_eq, entryhiDummy, pgshift]
  omega

/-- The P bit is shifted out. -/
theorem entryhiDummy_index {i index : Nat} (named : index = i ∨ index = probeFailure + i) :
    entryhiDummy index = entryhiDummy i := by
  rcases named with rfl | rfl
  · rfl
  · rw [entryhiDummy, entryhiDummy, probeFailure, pgshift]
    omega

theorem indexed_eq {c : Cpu} {i : Nat} (small : i < 64) (named : c.index = i ∨ c.index = probeFailure + i) :
    c.indexed = i := by
  rw [indexed]
  rw [probeFailure] at named ⊢
  omega

theorem vpn2Of_or (a : Fin 256) (x : Nat) : vpn2Of (a.val ||| x <<< (pgshift + 1)) = x := by
  have bound := a.isLt
  rw [asid_or, vpn2Of_eq]
  omega

theorem asid_mod (a : Fin 256) (x : Nat) : (a.val ||| x <<< (pgshift + 1)) % 256 = a.val := by
  have bound := a.isLt
  rw [asid_or]
  omega

theorem asid_of {c : Cpu} {a : Fin 256} {x : Nat} (hi : c.entryHi = a.val ||| x <<< (pgshift + 1)) : c.asid = a := by
  apply Fin.ext
  rw [asid_eq, hi, asid_mod]

theorem asid_dummy {c : Cpu} {i : Nat} (hi : c.entryHi = entryhiDummy i) : c.asid = 0 := by
  apply Fin.ext
  show c.asid.val = 0
  rw [asid_eq, hi, entryhiDummy, pgshift]
  omega

/-- The register of the other half, as it was before the entry is read. -/
def stale (c : Cpu) (v : Nat) : Nat := if oddPage v then c.entryLo0 else c.entryLo1

/-- What `tlb_remove` writes over the entry `i`. -/
def removed (c : Cpu) (v i : Nat) : TlbEntry where
  vpn2 := if c.stale v = 0 then vpn2Of (entryhiDummy i) else (c.tlb i).vpn2
  asid := if c.stale v = 0 then 0 else (c.tlb i).asid
  global := false
  lo0 := if oddPage v then (c.tlb i).lo0 else 0
  lo1 := if oddPage v then 0 else (c.tlb i).lo1

/-- The registers `tlb_remove` has loaded, of which it zeroed one half. -/
theorem latched_removed {c c' : Cpu} {v i : Nat}
    (hi : c'.entryHi = if c.stale v = 0 then entryhiDummy i else (c.tlb i).asid ||| (c.tlb i).vpn2 <<< (pgshift + 1))
    (lo0 : c'.entryLo0 = if oddPage v then 2 * (c.tlb i).lo0 + if (c.tlb i).global then 1 else 0 else 0)
    (lo1 : c'.entryLo1 = if oddPage v then 0 else 2 * (c.tlb i).lo1 + if (c.tlb i).global then 1 else 0) :
    c'.latched = c.removed v i := by
  have even : c'.entryLo0 / 2 = if oddPage v then (c.tlb i).lo0 else 0 := by
    rw [lo0]
    split_ifs <;> omega
  have odd : c'.entryLo1 / 2 = if oddPage v then 0 else (c.tlb i).lo1 := by
    rw [lo1]
    split_ifs <;> omega
  have single : (c'.entryLo0.testBit 0 && c'.entryLo1.testBit 0) = false := by
    rw [lo0, lo1]
    cases oddPage v <;> simp
  rw [latched, removed, even, odd, single]
  by_cases clear : c.stale v = 0
  · rw [if_pos clear] at hi
    simp only [hi, asid_dummy hi, clear, if_true]
  · rw [if_neg clear] at hi
    rw [asid_of hi]
    simp only [hi, vpn2Of_or, clear, if_false]

/-- `tlb_remove` writes over the entry that matches. When none does it writes over the one in the low bits of `Index`. -/
theorem tlbRemove_tlb (c : Cpu) (v : Nat) (pos : 0 < c.tlbsize) (size : c.tlbsize ≤ 64) :
    ∃ i, i < c.tlbsize ∧ (c.tlbRemove v).tlb = Function.update c.tlb i (c.removed v i) ∧
      (c.tlbRemove v).tlbsize = c.tlbsize ∧ (Matches (c.tlb i) (vpn2Of v) c.asid ∨
        (∀ j, j < c.tlbsize → ¬ Matches (c.tlb j) (vpn2Of v) c.asid) ∧ i = c.stray c.misses % c.tlbsize) := by
  let c₁ : Cpu := { c with entryHi := c.asid ||| (v >>> (pgshift + 1)) <<< (pgshift + 1) }
  obtain ⟨i, index, misses, bound, named, probe, found⟩ := tlbp_cases c₁ pos
  have pair : vpn2Of c₁.entryHi = vpn2Of v := vpn2Of_or c.asid (vpn2Of v)
  have space : c₁.asid = c.asid := asid_of rfl
  rw [pair, space] at found
  have small : i < 64 := Nat.lt_of_lt_of_le bound size
  have run : ∃ hi lo0 lo1, hi = (if c.stale v = 0 then entryhiDummy index else (c.tlb i).asid ||| (c.tlb i).vpn2 <<< (pgshift + 1)) ∧
      lo0 = (if oddPage v then 2 * (c.tlb i).lo0 + if (c.tlb i).global then 1 else 0 else 0) ∧
      lo1 = (if oddPage v then 0 else 2 * (c.tlb i).lo1 + if (c.tlb i).global then 1 else 0) ∧
      c.tlbRemove v = { c with index := index, misses := misses, entryHi := hi, entryLo0 := lo0, entryLo1 := lo1 }.tlbwi := by
    have here : ({ c₁ with index := index, misses := misses } : Cpu).indexed = i := indexed_eq small named
    refine ⟨_, _, _, rfl, rfl, rfl, ?_⟩
    simp only [tlbRemove, stale]
    rw [show ({ c with entryHi := c.asid ||| (v >>> (pgshift + 1)) <<< (pgshift + 1) } : Cpu).tlbp = _ from probe]
    simp only [tlbr, here, c₁]
    rcases Bool.eq_false_or_eq_true (oddPage v) with odd | odd
    · by_cases clear : c.entryLo0 = 0 <;> simp [odd, clear]
    · by_cases clear : c.entryLo1 = 0 <;> simp [odd, clear]
  obtain ⟨hi, lo0, lo1, own, even, odd, run⟩ := run
  rw [entryhiDummy_index named] at own
  let c₃ : Cpu := { c with index := index, misses := misses, entryHi := hi, entryLo0 := lo0, entryLo1 := lo1 }
  have place : c₃.indexed = i := indexed_eq small named
  have written : c₃.latched = c.removed v i := latched_removed own even odd
  refine ⟨i, bound, ?_, ?_, found⟩
  · rw [run, tlbwi, writeEntry, place, written]
  · rw [run, tlbwi, writeEntry]

theorem removed_half {c : Cpu} {v i : Nat} :
    (c.removed v i).half (oddPage v) = 0 ∧ (c.removed v i).half (!oddPage v) = (c.tlb i).half (!oddPage v) := by
  cases odd : oddPage v <;> simp [removed, TlbEntry.half, odd]

/-- `tlb_remove` clears one half of one entry: of the entry that matches, and of
any entry when none does. -/
theorem tlbRemove_spec (c : Cpu) (v : Nat) (pos : 0 < c.tlbsize) (size : c.tlbsize ≤ 64) :
    ∃ i new, i < c.tlbsize ∧ (c.tlbRemove v).tlb = Function.update c.tlb i new ∧
      (c.tlbRemove v).tlbsize = c.tlbsize ∧ Cleared (oddPage v) new (c.tlb i) ∧
      (Matches (c.tlb i) (vpn2Of v) c.asid ∨ ∀ j, j < c.tlbsize → ¬ Matches (c.tlb j) (vpn2Of v) c.asid) := by
  obtain ⟨i, bound, tlb, same, found⟩ := tlbRemove_tlb c v pos size
  refine ⟨i, c.removed v i, bound, tlb, same, ⟨removed_half.1, removed_half.2, rfl, ?_⟩, found.imp_right And.left⟩
  rintro vpn2 a user ⟨pair, space⟩
  have asid := space.resolve_left Bool.false_ne_true
  by_cases clear : c.stale v = 0
  · have high := entryhiDummy_vpn2 (Nat.lt_of_lt_of_le bound size)
    simp only [removed, clear, if_true] at pair
    omega
  · simp only [removed, clear, if_false] at pair asid
    exact ⟨pair, .inr asid⟩

theorem latched_asid (c : Cpu) : c.latched.asid = c.asid := rfl

theorem asid_congr {c c' : Cpu} (same : c'.entryHi = c.entryHi) : c'.asid = c.asid := by
  apply Fin.ext
  rw [asid_eq, asid_eq, same]

theorem tlbwr_self (c : Cpu) (i : Nat) : (c.tlbwr i).tlb i = c.latched := by
  simp [tlbwr, writeEntry]

/-- Some entry holds a valid half for the page of `v`. -/
def Cached (c : Cpu) (a : Fin 256) (v : Nat) : Prop :=
  ∃ i, i < c.tlbsize ∧ Matches (c.tlb i) (vpn2Of v) a ∧ (c.tlb i).Valid (oddPage v)

/-- The entries for the addresses of one space: one at most for each pair of
pages, and what its valid halves hold is the EntryLo value `lo` of the page. -/
structure Coherent (c : Cpu) (a : Fin 256) (lo : Nat → Nat) : Prop where
  nonempty : 0 < c.tlbsize
  size : c.tlbsize ≤ 64
  own : ∀ i v, i < c.tlbsize → v < 2 ^ 47 → Matches (c.tlb i) (vpn2Of v) a → (c.tlb i).global = false
  single : ∀ i j v, i < c.tlbsize → j < c.tlbsize → v < 2 ^ 47 → Matches (c.tlb i) (vpn2Of v) a →
    Matches (c.tlb j) (vpn2Of v) a → i = j
  current : ∀ i v, i < c.tlbsize → v < 2 ^ 47 → Matches (c.tlb i) (vpn2Of v) a → (c.tlb i).Valid (oddPage v) →
    (c.tlb i).entryLo (oddPage v) = lo v

theorem half_eq_iff {v w : Nat} : vpn2Of w = vpn2Of v ∧ oddPage w = oddPage v ↔ w / 16384 = v / 16384 := by
  rw [vpn2Of_eq, vpn2Of_eq, oddPage_eq, oddPage_eq, decide_eq_decide]
  omega

theorem vpn2_lt {v : Nat} (small : v < 2 ^ 47) : vpn2Of v < 2 ^ 32 := by
  rw [vpn2Of_eq]
  omega

namespace Coherent

variable {c c' : Cpu} {a : Fin 256} {lo lo' : Nat → Nat}

theorem start (nonempty : 0 < c.tlbsize) (size : c.tlbsize ≤ 64)
    (absent : ∀ i v, i < c.tlbsize → v < 2 ^ 47 → ¬ Matches (c.tlb i) (vpn2Of v) a) : Coherent c a lo :=
  ⟨nonempty, size, fun i v bound small found => absurd found (absent i v bound small),
    fun i _ v bound _ small found => absurd found (absent i v bound small),
    fun i v bound small found => absurd found (absent i v bound small)⟩

/-- The other registers do not matter. -/
theorem registers (coherent : Coherent c a lo) (size : c'.tlbsize = c.tlbsize) (same : c'.tlb = c.tlb) :
    Coherent c' a lo := by
  refine ⟨?_, ?_, ?_, ?_, ?_⟩ <;> rw [size]
  · exact coherent.nonempty
  · exact coherent.size
  all_goals rw [same]
  · exact coherent.own
  · exact coherent.single
  · exact coherent.current

/-- What is not cached may change. -/
theorem change (coherent : Coherent c a lo) (same : ∀ v, v < 2 ^ 47 → Cached c a v → lo' v = lo v) :
    Coherent c a lo' where
  nonempty := coherent.nonempty
  size := coherent.size
  own := coherent.own
  single := coherent.single
  current i v bound small found valid :=
    (coherent.current i v bound small found valid).trans (same v small ⟨i, bound, found, valid⟩).symm

/-- A half of the entry `i` is cleared. -/
theorem clear (coherent : Coherent c a lo) {i : Nat} {odd : Bool} {new : TlbEntry}
    (cleared : Cleared odd new (c.tlb i)) (size : c'.tlbsize = c.tlbsize)
    (tlb : c'.tlb = Function.update c.tlb i new) :
    Coherent c' a lo ∧ ∀ v, v < 2 ^ 47 → Cached c' a v → Cached c a v := by
  have matching : ∀ j v, v < 2 ^ 47 → Matches (c'.tlb j) (vpn2Of v) a → Matches (c.tlb j) (vpn2Of v) a := by
    intro j v small found
    rw [tlb] at found
    by_cases here : j = i
    · rw [here, Function.update_self] at found
      exact here ▸ cleared.matching _ a (vpn2_lt small) found
    · rwa [Function.update_of_ne here] at found
  have valid : ∀ j v, v < 2 ^ 47 → Matches (c'.tlb j) (vpn2Of v) a → (c'.tlb j).Valid (oddPage v) →
      (c.tlb j).Valid (oddPage v) ∧ (c'.tlb j).half (oddPage v) = (c.tlb j).half (oddPage v) := by
    intro j v small found valid
    rw [tlb] at valid ⊢
    by_cases here : j = i
    · rw [here, Function.update_self] at valid ⊢
      by_cases side : oddPage v = odd
      · rw [TlbEntry.Valid, side, cleared.gone] at valid
        cases valid
      · have other : oddPage v = !odd := Bool.eq_not.mpr side
        rw [other] at valid ⊢
        exact ⟨by rwa [TlbEntry.Valid, cleared.other] at valid, cleared.other⟩
    · rw [Function.update_of_ne here] at valid ⊢
      exact ⟨valid, rfl⟩
  have own : ∀ j v, j < c.tlbsize → v < 2 ^ 47 → Matches (c'.tlb j) (vpn2Of v) a → (c'.tlb j).global = false := by
    intro j v below small found
    have old := coherent.own j v below small (matching j v small found)
    rw [tlb]
    by_cases here : j = i
    · rw [here, Function.update_self]
      exact cleared.single
    · rwa [Function.update_of_ne here]
  refine ⟨⟨size ▸ coherent.nonempty, size ▸ coherent.size, size ▸ own, ?_, ?_⟩, ?_⟩
  · rw [size]
    intro j k v jBound kBound small left right
    exact coherent.single j k v jBound kBound small (matching j v small left) (matching k v small right)
  · rw [size]
    intro j v below small found isValid
    have old := matching j v small found
    obtain ⟨wasValid, half⟩ := valid j v small found isValid
    rw [← coherent.current j v below small old wasValid, TlbEntry.entryLo, TlbEntry.entryLo, half,
      own j v below small found, coherent.own j v below small old]
  · rintro v small ⟨j, below, found, isValid⟩
    rw [size] at below
    exact ⟨j, below, matching j v small found, (valid j v small found isValid).1⟩

/-- `tlb_remove` under the ASID of the space, or for a page that is not cached. -/
theorem remove (coherent : Coherent c a lo) {v : Nat} (vSmall : v < 2 ^ 47) (safe : c.asid = a ∨ ¬ Cached c a v)
    (same : ∀ w, w < 2 ^ 47 → w / 16384 ≠ v / 16384 → lo' w = lo w) : Coherent (c.tlbRemove v) a lo' := by
  obtain ⟨i, new, bound, tlb, size, cleared, found⟩ := tlbRemove_spec c v coherent.nonempty coherent.size
  obtain ⟨coherent', cached⟩ := coherent.clear cleared size tlb
  have gone : ¬ Cached (c.tlbRemove v) a v := by
    rcases safe with asid | absent
    · rintro ⟨j, below, match', isValid⟩
      rw [size] at below
      obtain ⟨k, kBound, kFound, -⟩ := cached v vSmall ⟨j, by rwa [size], match', isValid⟩
      rw [asid] at found
      have hit := found.resolve_right (fun none => none k kBound kFound)
      by_cases here : j = i
      · rw [tlb, here, Function.update_self, TlbEntry.Valid, cleared.gone] at isValid
        cases isValid
      · rw [tlb, Function.update_of_ne here] at match'
        exact here (coherent.single j i v below bound vSmall match' hit)
    · exact fun still => absent (cached v vSmall still)
  refine coherent'.change (fun w small held => same w small (fun page => gone ?_))
  obtain ⟨pair, side⟩ := half_eq_iff.mpr page
  rw [Cached, pair, side] at held
  exact held

/-- The refill handler writes the pair of pages of the address that missed. -/
theorem refill (coherent : Coherent c a lo) {v even odd random : Nat} (c' : Cpu)
    (miss : ∀ i, i < c.tlbsize → ¬ Matches (c.tlb i) (vpn2Of v) a)
    (size : c'.tlbsize = c.tlbsize) (tlb : c'.tlb = c.tlb) (pair : vpn2Of c'.entryHi = vpn2Of v)
    (evenLo : c'.entryLo0 = even) (oddLo : c'.entryLo1 = odd) (evenOwn : even % 2 = 0) (oddOwn : odd % 2 = 0)
    (values : ∀ w, w < 2 ^ 47 → vpn2Of w = vpn2Of v → lo w = if oddPage w then odd else even) :
    Coherent (c'.tlbwr random) a lo := by
  have entries : (c'.tlbwr random).tlb = Function.update c.tlb random c'.latched := by
    rw [tlbwr, writeEntry, tlb]
  have single : c'.latched.global = false := by
    simp [latched, evenLo, oddLo, Nat.testBit_zero, evenOwn]
  have half : ∀ b, 2 * c'.latched.half b = if b then odd else even := by
    intro b
    cases b <;> simp only [latched, TlbEntry.half, evenLo, oddLo, if_true, Bool.false_eq_true, if_false] <;> omega
  have old : ∀ j w, j < c.tlbsize → Matches ((c'.tlbwr random).tlb j) (vpn2Of w) a →
      (j = random ∧ vpn2Of w = vpn2Of v) ∨ (j ≠ random ∧ vpn2Of w ≠ vpn2Of v ∧ Matches (c.tlb j) (vpn2Of w) a) := by
    intro j w below found
    rw [entries] at found
    by_cases here : j = random
    · rw [here, Function.update_self] at found
      have same : vpn2Of c'.entryHi = vpn2Of w := found.1
      exact .inl ⟨here, same.symm.trans pair⟩
    · rw [Function.update_of_ne here] at found
      exact .inr ⟨here, fun same => miss j below (same ▸ found), found⟩
  refine ⟨size ▸ coherent.nonempty, size ▸ coherent.size, ?_, ?_, ?_⟩
  · intro j w below small found
    have below' : j < c.tlbsize := size ▸ below
    rcases old j w below' found with ⟨here, -⟩ | ⟨elsewhere, -, known⟩
    · rw [entries, here, Function.update_self, single]
    · rw [entries, Function.update_of_ne elsewhere]
      exact coherent.own j w below' small known
  · intro j k w jBelow kBelow small left right
    have jBound : j < c.tlbsize := size ▸ jBelow
    have kBound : k < c.tlbsize := size ▸ kBelow
    rcases old j w jBound left with ⟨jHere, same⟩ | ⟨-, other, jKnown⟩
    · rcases old k w kBound right with ⟨kHere, -⟩ | ⟨-, other, -⟩
      · rw [jHere, kHere]
      · exact absurd same other
    · rcases old k w kBound right with ⟨-, same⟩ | ⟨-, -, kKnown⟩
      · exact absurd same other
      · exact coherent.single j k w jBound kBound small jKnown kKnown
  · intro j w below small found valid
    have below' : j < c.tlbsize := size ▸ below
    rcases old j w below' found with ⟨here, same⟩ | ⟨elsewhere, -, known⟩
    · rw [entries, here, Function.update_self, TlbEntry.entryLo, single, half, values w small same]
      simp
    · rw [entries, Function.update_of_ne elsewhere] at valid ⊢
      exact coherent.current j w below' small known valid

end Coherent

end Cpu

end Xv6
