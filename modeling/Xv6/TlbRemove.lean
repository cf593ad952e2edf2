import Xv6.TlbSpec

namespace Xv6

namespace TlbEntry

/-- The entry has a valid half for the page of `w`, which is `lo`. -/
def Holds (e : TlbEntry) (a : Fin 256) (w lo : Nat) : Prop :=
  Cpu.Matches e (Cpu.vpn2Of w) a ∧ e.Valid (Cpu.oddPage w) ∧ e.half (Cpu.oddPage w) = lo

end TlbEntry

namespace Cpu

/-- The TLB translates the page of `w` for the ASID. -/
def Translates (c : Cpu) (a : Fin 256) (w lo : Nat) : Prop := ∃ i, i < c.tlbsize ∧ (c.tlb i).Holds a w lo

/-- No two entries match the same pair of pages, as the architecture demands. -/
def Distinct (c : Cpu) : Prop :=
  ∀ i j vpn2 a, i < c.tlbsize → j < c.tlbsize → Matches (c.tlb i) vpn2 a → Matches (c.tlb j) vpn2 a → i = j

/-- `tlb_remove` takes the page of `v` out of the TLB, and no other page. An entry that it leaves
without a valid half is at another address. -/
structure RemovesPage (c : Cpu) (v : Nat) : Prop where
  gone : ∀ lo, ¬ (c.tlbRemove v).Translates c.asid v lo
  others : ∀ a w lo, a ≠ c.asid ∨ w / 16384 ≠ v / 16384 → c.Translates a w lo → (c.tlbRemove v).Translates a w lo
  nothingNew : ∀ a w lo, (c.tlbRemove v).Translates a w lo → c.Translates a w lo
  miss : (∀ i, i < c.tlbsize → ¬ Matches (c.tlb i) (vpn2Of v) c.asid) →
    ∀ i, i < c.tlbsize → (c.tlbRemove v).tlb i = c.tlb i
  emptied : ∀ i, i < c.tlbsize → Matches (c.tlb i) (vpn2Of v) c.asid →
    (∀ odd, ¬ ((c.tlbRemove v).tlb i).Valid odd) → ((c.tlbRemove v).tlb i).vpn2 ≠ vpn2Of v

/-- The matching entry `i` is written as it should be: with another half that is valid it is not global and keeps
its address, and without one it loses its address and nothing else. -/
structure HitSafe (c : Cpu) (v i : Nat) : Prop where
  paired : (c.tlb i).Valid (!oddPage v) →
    (c.stale v ≠ 0 ∨ vpn2Of (entryhiDummy i) = vpn2Of v ∧ c.asid = 0) ∧ (c.tlb i).global = false
  single : ¬ (c.tlb i).Valid (!oddPage v) → c.stale v = 0 ∧ vpn2Of (entryhiDummy i) ≠ vpn2Of v ∧
    ((c.tlb i).global = true → ¬ (c.tlb i).Valid (oddPage v))

/-- The entry `i`, which does not match, is the same when it is written. -/
structure MissSafe (c : Cpu) (v i : Nat) : Prop where
  half : (c.tlb i).half (oddPage v) = 0
  single : (c.tlb i).global = false
  dummy : c.stale v = 0 → (c.tlb i).vpn2 = vpn2Of (entryhiDummy i) ∧ (c.tlb i).asid = 0

variable {c : Cpu} {v i : Nat}

theorem removed_invalid : ¬ (c.removed v i).Valid (oddPage v) := by
  rw [TlbEntry.Valid, removed_half.1]
  decide

theorem removed_other : (c.removed v i).Valid (!oddPage v) ↔ (c.tlb i).Valid (!oddPage v) := by
  rw [TlbEntry.Valid, TlbEntry.Valid, removed_half.2]

/-- Only the other half may be valid. -/
theorem odd_removed {odd : Bool} (valid : (c.removed v i).Valid odd) : odd = !oddPage v := by
  refine Bool.eq_not_of_ne fun same => ?_
  rw [same] at valid
  exact removed_invalid valid

theorem removed_none (single : ¬ (c.tlb i).Valid (!oddPage v)) (odd : Bool) : ¬ (c.removed v i).Valid odd := by
  intro valid
  rw [odd_removed valid] at valid
  exact single (removed_other.mp valid)

/-- What is translated after one entry was written. -/
theorem translates_update {c' : Cpu} {new : TlbEntry} {a : Fin 256} {w lo : Nat} (bound : i < c.tlbsize)
    (size : c'.tlbsize = c.tlbsize) (tlb : c'.tlb = Function.update c.tlb i new) :
    c'.Translates a w lo ↔ new.Holds a w lo ∨ ∃ j, j < c.tlbsize ∧ j ≠ i ∧ (c.tlb j).Holds a w lo := by
  rw [Translates, size, tlb]
  constructor
  · rintro ⟨j, inside, holds⟩
    by_cases same : j = i
    · rw [same, Function.update_self] at holds
      exact .inl holds
    · rw [Function.update_of_ne same] at holds
      exact .inr ⟨j, inside, same, holds⟩
  · rintro (holds | ⟨j, inside, other, holds⟩)
    · exact ⟨i, bound, by rwa [Function.update_self]⟩
    · exact ⟨j, inside, by rwa [Function.update_of_ne other]⟩

/-- Of two pages of one pair one is even and one is odd. -/
theorem other_half {w : Nat} (pair : vpn2Of w = vpn2Of v) (other : w / 16384 ≠ v / 16384) : oddPage w = !oddPage v :=
  Bool.eq_not_of_ne fun same => other (half_eq_iff.mp ⟨pair, same⟩)

/-- The other page of the pair. -/
theorem exists_partner (v : Nat) : ∃ w, vpn2Of w = vpn2Of v ∧ w / 16384 ≠ v / 16384 := by
  refine ⟨v / 32768 * 32768 + (if v / 16384 % 2 = 1 then 0 else 16384), ?_, ?_⟩
  · rw [vpn2Of_eq, vpn2Of_eq]
    split <;> omega
  · split <;> omega

/-- The page itself is not translated any more. -/
theorem gone_hit (distinct : c.Distinct) (bound : i < c.tlbsize) (found : Matches (c.tlb i) (vpn2Of v) c.asid)
    (tlb : (c.tlbRemove v).tlb = Function.update c.tlb i (c.removed v i)) (size : (c.tlbRemove v).tlbsize = c.tlbsize)
    (lo : Nat) : ¬ (c.tlbRemove v).Translates c.asid v lo := by
  intro translates
  rcases (translates_update bound size tlb).mp translates with holds | ⟨j, inside, other, holds⟩
  · exact removed_invalid holds.2.1
  · exact other (distinct j i _ _ inside bound holds.1 found)

/-- The other half is valid, and the entry keeps its pair and its ASID. -/
theorem removesPage_paired (distinct : c.Distinct) (bound : i < c.tlbsize) (found : Matches (c.tlb i) (vpn2Of v) c.asid)
    (tlb : (c.tlbRemove v).tlb = Function.update c.tlb i (c.removed v i)) (size : (c.tlbRemove v).tlbsize = c.tlbsize)
    (valid : (c.tlb i).Valid (!oddPage v)) (own : (c.tlb i).global = false)
    (stays : c.stale v ≠ 0 ∨ vpn2Of (entryhiDummy i) = vpn2Of v ∧ c.asid = 0) : c.RemovesPage v := by
  have after {a : Fin 256} {w lo : Nat} : (c.tlbRemove v).Translates a w lo ↔
      (c.removed v i).Holds a w lo ∨ ∃ j, j < c.tlbsize ∧ j ≠ i ∧ (c.tlb j).Holds a w lo :=
    translates_update bound size tlb
  have asid : (c.tlb i).asid = c.asid := found.2.resolve_left (by rw [own]; decide)
  have same : ∀ vpn2 a, Matches (c.removed v i) vpn2 a ↔ Matches (c.tlb i) vpn2 a := by
    intro vpn2 a
    rw [Matches, Matches, removed, own, found.1, asid]
    rcases stays with kept | ⟨place, zero⟩
    · simp only [kept, if_false]
    · by_cases clear : c.stale v = 0
      · simp only [clear, if_true, place, zero]
      · simp only [clear, if_false]
  refine ⟨gone_hit distinct bound found tlb size, fun a w lo other => ?_, fun a w lo translates => ?_,
    fun miss => absurd found (miss i bound), fun j inside matching none => ?_⟩
  · rintro ⟨j, inside, holds⟩
    refine after.mpr ?_
    by_cases written : j = i
    · subst written
      obtain ⟨matching, half, value⟩ := holds
      have space : a = c.asid := (matching.2.resolve_left (by rw [own]; decide)).symm.trans asid
      have odd := other_half (matching.1.symm.trans found.1) (other.resolve_left fun differs => differs space)
      rw [odd] at half value
      refine .inl ⟨(same _ _).mpr matching, ?_, ?_⟩
      · rw [odd]
        exact removed_other.mpr half
      · rw [odd, removed_half.2, value]
    · exact .inr ⟨j, inside, written, holds⟩
  · rcases after.mp translates with ⟨matching, half, value⟩ | ⟨j, inside, -, holds⟩
    · have odd := odd_removed half
      rw [odd] at half value
      refine ⟨i, bound, (same _ _).mp matching, ?_, ?_⟩
      · rw [odd]
        exact removed_other.mp half
      · rw [odd, ← removed_half.2, value]
    · exact ⟨j, inside, holds⟩
  · obtain rfl := distinct j i _ _ inside bound matching found
    rw [tlb, Function.update_self] at none
    exact absurd (removed_other.mpr valid) (none _)

/-- The other half is not valid, and the entry loses its address and nothing else. -/
theorem removesPage_single (distinct : c.Distinct) (bound : i < c.tlbsize) (found : Matches (c.tlb i) (vpn2Of v) c.asid)
    (tlb : (c.tlbRemove v).tlb = Function.update c.tlb i (c.removed v i)) (size : (c.tlbRemove v).tlbsize = c.tlbsize)
    (single : ¬ (c.tlb i).Valid (!oddPage v)) (clear : c.stale v = 0) (away : vpn2Of (entryhiDummy i) ≠ vpn2Of v)
    (global : (c.tlb i).global = true → ¬ (c.tlb i).Valid (oddPage v)) : c.RemovesPage v := by
  have after {a : Fin 256} {w lo : Nat} : (c.tlbRemove v).Translates a w lo ↔
      (c.removed v i).Holds a w lo ∨ ∃ j, j < c.tlbsize ∧ j ≠ i ∧ (c.tlb j).Holds a w lo :=
    translates_update bound size tlb
  refine ⟨gone_hit distinct bound found tlb size, fun a w lo other => ?_, fun a w lo translates => ?_,
    fun miss => absurd found (miss i bound), fun j inside matching _ => ?_⟩
  · rintro ⟨j, inside, holds⟩
    refine after.mpr (.inr ⟨j, inside, ?_, holds⟩)
    rintro rfl
    obtain ⟨matching, half, -⟩ := holds
    have pair := matching.1.symm.trans found.1
    have page : w / 16384 = v / 16384 := by
      by_contra differs
      rw [other_half pair differs] at half
      exact single half
    rw [(half_eq_iff.mpr page).2] at half
    have own : (c.tlb j).global = false := by
      by_contra shared
      exact global (by simpa using shared) half
    have space : a = c.asid := (matching.2.resolve_left (by rw [own]; decide)).symm.trans
      (found.2.resolve_left (by rw [own]; decide))
    exact other.elim (fun differs => differs space) fun differs => differs page
  · rcases after.mp translates with ⟨-, half, -⟩ | ⟨j, inside, -, holds⟩
    · exact absurd half (removed_none single _)
    · exact ⟨j, inside, holds⟩
  · obtain rfl := distinct j i _ _ inside bound matching found
    rw [tlb, Function.update_self, removed, if_pos clear]
    exact away

/-- The entry that matches is written as it should be. -/
theorem removesPage_hit (distinct : c.Distinct) (bound : i < c.tlbsize) (found : Matches (c.tlb i) (vpn2Of v) c.asid)
    (tlb : (c.tlbRemove v).tlb = Function.update c.tlb i (c.removed v i)) (size : (c.tlbRemove v).tlbsize = c.tlbsize)
    (safe : c.HitSafe v i) : c.RemovesPage v := by
  by_cases valid : (c.tlb i).Valid (!oddPage v)
  · obtain ⟨stays, own⟩ := safe.paired valid
    exact removesPage_paired distinct bound found tlb size valid own stays
  · obtain ⟨clear, away, global⟩ := safe.single valid
    exact removesPage_single distinct bound found tlb size valid clear away global

/-- Otherwise a half is lost, or an entry without a half stays where it was. -/
theorem hitSafe (distinct : c.Distinct) (bound : i < c.tlbsize) (found : Matches (c.tlb i) (vpn2Of v) c.asid)
    (tlb : (c.tlbRemove v).tlb = Function.update c.tlb i (c.removed v i)) (size : (c.tlbRemove v).tlbsize = c.tlbsize)
    (removes : c.RemovesPage v) : c.HitSafe v i := by
  have after {a : Fin 256} {w lo : Nat} : (c.tlbRemove v).Translates a w lo ↔
      (c.removed v i).Holds a w lo ∨ ∃ j, j < c.tlbsize ∧ j ≠ i ∧ (c.tlb j).Holds a w lo :=
    translates_update bound size tlb
  have here : (c.tlbRemove v).tlb i = c.removed v i := by rw [tlb, Function.update_self]
  -- a translation of the entry for another page must come from what is written
  have still : ∀ a w, a ≠ c.asid ∨ w / 16384 ≠ v / 16384 → Matches (c.tlb i) (vpn2Of w) a → (c.tlb i).Valid (oddPage w) →
      Matches (c.removed v i) (vpn2Of w) a := by
    intro a w other matching half
    rcases after.mp (removes.others a w _ other ⟨i, bound, matching, half, rfl⟩) with holds | ⟨j, inside, differs, holds⟩
    · exact holds.1
    · exact absurd (distinct j i _ _ inside bound holds.1 matching) differs
  obtain ⟨a', foreign⟩ : ∃ a' : Fin 256, a' ≠ c.asid := by
    by_cases zero : c.asid = 0
    · exact ⟨1, by rw [zero]; decide⟩
    · exact ⟨0, Ne.symm zero⟩
  constructor
  · intro valid
    obtain ⟨w, pair, differs⟩ := exists_partner v
    have odd := other_half pair differs
    have half : (c.tlb i).Valid (oddPage w) := odd ▸ valid
    have own := still c.asid w (.inr differs) (pair.symm ▸ found) half
    rw [pair] at own
    refine ⟨?_, ?_⟩
    · by_cases clear : c.stale v = 0
      · obtain ⟨place, space⟩ := own
        simp only [removed, clear, if_true, Bool.false_eq_true, false_or] at place space
        exact .inr ⟨place, space.symm⟩
      · exact .inl clear
    · by_contra shared
      have global : (c.tlb i).global = true := by simpa using shared
      have other := still a' w (.inl foreign) ⟨found.1.trans pair.symm, .inl global⟩ half
      have left := own.2.resolve_left (by simp [removed])
      have right := other.2.resolve_left (by simp [removed])
      exact foreign (right.symm.trans left)
  · intro invalid
    have moved := removes.emptied i bound found (by rw [here]; exact removed_none invalid)
    rw [here] at moved
    have clear : c.stale v = 0 := by
      by_contra kept
      rw [removed, if_neg kept] at moved
      exact moved found.1
    refine ⟨clear, ?_, fun global half => ?_⟩
    · rwa [removed, if_pos clear] at moved
    · have other := still a' v (.inl foreign) ⟨found.1, .inl global⟩ half
      exact moved other.1

theorem removed_eq (safe : c.MissSafe v i) : c.removed v i = c.tlb i := by
  obtain ⟨half, single, dummy⟩ := safe
  cases entry : c.tlb i with
  | mk vpn2 asid global lo0 lo1 =>
    rw [entry] at half single dummy
    simp only [removed, entry]
    simp only at single dummy
    by_cases clear : c.stale v = 0
    · obtain ⟨place, zero⟩ := dummy clear
      cases odd : oddPage v <;> simp_all [TlbEntry.half]
    · cases odd : oddPage v <;> simp_all [TlbEntry.half]

theorem missSafe (same : c.removed v i = c.tlb i) : c.MissSafe v i := by
  refine ⟨by rw [← same, removed_half.1], by rw [← same]; rfl, fun clear => ?_⟩
  rw [← same, removed, if_pos clear, if_pos clear]
  exact ⟨rfl, rfl⟩

/-- Exactly when what it writes fits the entry does `tlb_remove` remove the page. -/
theorem removesPage_iff (v : Nat) (pos : 0 < c.tlbsize) (size : c.tlbsize ≤ 64) (distinct : c.Distinct) :
    c.RemovesPage v ↔ (∀ i, i < c.tlbsize → Matches (c.tlb i) (vpn2Of v) c.asid → c.HitSafe v i) ∧
      ((∀ i, i < c.tlbsize → ¬ Matches (c.tlb i) (vpn2Of v) c.asid) → c.MissSafe v (c.stray c.misses % c.tlbsize)) := by
  obtain ⟨i, bound, tlb, same, found | ⟨miss, stray⟩⟩ := tlbRemove_tlb c v pos size
  · constructor
    · intro removes
      refine ⟨fun j inside matching => ?_, fun miss => absurd found (miss i bound)⟩
      obtain rfl := distinct j i _ _ inside bound matching found
      exact hitSafe distinct inside found tlb same removes
    · exact fun ⟨safe, _⟩ => removesPage_hit distinct bound found tlb same (safe i bound found)
  · constructor
    · intro removes
      refine ⟨fun j inside matching => absurd matching (miss j inside), fun _ => stray ▸ missSafe ?_⟩
      have unchanged := removes.miss miss i bound
      rwa [tlb, Function.update_self] at unchanged
    · rintro ⟨-, safe⟩
      have unchanged : (c.tlbRemove v).tlb = c.tlb := by
        rw [tlb, removed_eq (stray ▸ safe miss), Function.update_eq_self]
      have translates : ∀ a w lo, (c.tlbRemove v).Translates a w lo ↔ c.Translates a w lo := by
        intro a w lo
        rw [Translates, Translates, same, unchanged]
      refine ⟨fun lo still => ?_, fun a w lo _ => (translates a w lo).mpr, fun a w lo => (translates a w lo).mp,
        fun _ j _ => by rw [unchanged], fun j inside matching => absurd matching (miss j inside)⟩
      obtain ⟨j, inside, holds⟩ := (translates c.asid v lo).mp still
      exact miss j inside holds.1

/-- A TLB of two entries, of which the first one has both pages of the pair at `0x10000`. -/
def onePair (entryLo1 : Nat) : Cpu where
  tlbsize := 2
  tlb i := if i = 0 then ⟨2, 1, false, 3, 5⟩ else ⟨vpn2Of (entryhiDummy 1), 0, false, 0, 0⟩
  index := 0
  entryHi := 1
  entryLo0 := 0
  entryLo1 := entryLo1
  stray := fun _ => 0
  misses := 0

theorem onePair_distinct (entryLo1 : Nat) : (onePair entryLo1).Distinct := by
  rintro i j vpn2 a boundI boundJ ⟨left, -⟩ ⟨right, -⟩
  simp only [onePair] at boundI boundJ left right
  split_ifs at left right with first second
  · omega
  · rw [← left] at right
    exact absurd right (by decide)
  · rw [← left] at right
    exact absurd right (by decide)
  · omega

/-- The even page is removed, and the odd one stays. -/
theorem removesPage_pair : (onePair 10).RemovesPage 0x10000 :=
  (removesPage_iff 0x10000 (by decide) (by decide) (onePair_distinct 10)).mpr (by
    have here : Matches ((onePair 10).tlb 0) (vpn2Of 0x10000) (onePair 10).asid := by decide
    refine ⟨fun i bound found => ?_, fun miss => absurd here (miss 0 (by decide))⟩
    obtain rfl := onePair_distinct 10 i 0 _ _ bound (by decide) found here
    exact ⟨fun _ => ⟨.inl (by decide), rfl⟩, fun invalid => absurd rfl invalid⟩)

/-- When the register of the odd half is 0 both pages of the pair are lost. -/
theorem not_removesPage : ¬ ∀ (c : Cpu) (v : Nat), 0 < c.tlbsize → c.tlbsize ≤ 64 → c.Distinct → c.RemovesPage v := by
  intro always
  have removes := always (onePair 0) 0x10000 (by decide) (by decide) (onePair_distinct 0)
  obtain ⟨i, bound, matching, -⟩ := removes.others 1 0x14000 5 (.inr (by decide)) ⟨0, by decide, by decide, rfl, rfl⟩
  have small : i < 2 := bound
  have lost : ∀ j < 2, ¬ Matches (((onePair 0).tlbRemove 0x10000).tlb j) (vpn2Of 0x14000) 1 := by decide
  exact lost i small matching

end Cpu

end Xv6
