import Xv6.Exec
import Xv6.VmUnmap

namespace Xv6

/-- The last page that is counted is that of the last byte. -/
theorem spanned_page {u len i : Nat} (small : u < 2 ^ 64) (count : nrPagesSpanned u len = i + 1) :
    (u / 16384 + i) % 2 ^ 50 = (u + len + 2 ^ 64 - 1) % 2 ^ 64 / 16384 := by
  simp only [nrPagesSpanned, pgshift, Nat.shiftRight_eq_div_pow] at count
  have bound : (u + len + 2 ^ 64 - 1) % 2 ^ 64 < 2 ^ 64 := Nat.mod_lt _ (by decide)
  generalize (u + len + 2 ^ 64 - 1) % 2 ^ 64 = last at count bound ⊢
  omega

/-- The last chunk of a copy ends in its page. -/
theorem lastChunk_inside {u len start : Nat} (small : u < 2 ^ 64) (short : len < 2 ^ 64) (lower : start < 2 ^ 64)
    (page : start / 16384 = (u + len + 2 ^ 64 - 1) % 2 ^ 64 / 16384)
    (first : start = u ∧ len ≤ 16384 ∨ start % 16384 = 0) :
    start % 16384 + ((u + len) % 2 ^ 64 + 2 ^ 64 - start) % 2 ^ 64 ≤ 16384 := by
  have bound : (u + len + 2 ^ 64 - 1) % 2 ^ 64 < 2 ^ 64 := Nat.mod_lt _ (by decide)
  have next : (u + len) % 2 ^ 64 = ((u + len + 2 ^ 64 - 1) % 2 ^ 64 + 1) % 2 ^ 64 := by omega
  rcases first with ⟨rfl, limit⟩ | aligned
  · by_cases wraps : start + len < 2 ^ 64 + 1
    · omega
    · omega
  · rw [next]
    generalize (u + len + 2 ^ 64 - 1) % 2 ^ 64 = last at page bound ⊢
    omega

namespace PageMem

/-- The memory `m` is other in mapped pages only. -/
def Written (s : PageMem) (r : Dirs) (m : ByteMem) : Prop :=
  ∀ x, m x ≠ s.mem x → ∃ π w, r.leaf π = some w ∧ s.InPage w.1 x

theorem Written.refl (s : PageMem) (r : Dirs) : Written s r s.mem := fun _ changed => absurd rfl changed

theorem Written.trans {s : PageMem} {r : Dirs} {m m' : ByteMem} (first : Written s r m)
    (second : Written { s with mem := m } r m') : Written s r m' := by
  intro x changed
  by_cases early : m x = s.mem x
  · exact second x fun same => changed (same.trans early)
  · exact first x early

variable {root : Nat} {s : PageMem} {r : Dirs} {l : List Nat} {m : ByteMem}

theorem Written.agree (written : Written s r m) (kept : SpaceKept root s r l) {d : Nat} (other : ¬ Held s d) :
    s.Agree { s with mem := m } d := by
  refine ⟨rfl, Links.Same.refl _ _, fun x low high => ?_⟩
  by_contra changed
  obtain ⟨π, w, found, inside⟩ := written x changed
  have same : w.1 = d := inside.unique ⟨low, high⟩
  exact other (same ▸ kept.held π w found)

/-- Writing into mapped pages leaves the table as it is. -/
theorem SpaceKept.write (kept : SpaceKept root s r l) (written : Written s r m) :
    SpaceKept root { s with mem := m } r l := by
  have tree : Tree { s with mem := m } r := kept.tree.frame ⟨rfl, rfl⟩ fun d owned =>
    written.agree kept fun held => held.not_dir (kept.owned_dir owned) rfl
  have free := kept.free
  refine kept.fewer tree kept.rooted kept.full ⟨free.ring, free.sorted, free.count, free.unreserved, free.bound⟩
    ⟨rfl, rfl⟩ (fun _ _ found => found) ?_
  rintro π w - ⟨f, tl, set, member, type⟩
  exact ⟨f, tl, ⟨set.ring, set.sorted, set.reserved, set.bound, set.head, set.count, set.tails⟩, member, type⟩

/-- A user address is translated to a byte of the page that is mapped there. -/
theorem SpaceKept.uvaddrToKvaddr_leaf (kept : SpaceKept root s r l) {v : Nat}
    (mapped : s.uvaddrToKvaddr (s.pageToKvaddr root) v ≠ 0) :
    ∃ w, r.leaf (path v) = some w ∧ s.uvaddrToKvaddr (s.pageToKvaddr root) v = s.pageToKvaddr w.1 + v % 16384 := by
  have pfn := archMmGetPfn_spec kept.tree kept.rooted v
  cases found : r.leaf (path v) with
  | none =>
    rw [found, Option.elim_none] at pfn
    rw [uvaddrToKvaddr, pfn, if_pos rfl] at mapped
    exact absurd rfl mapped
  | some w =>
    rw [found, Option.elim_some] at pfn
    refine ⟨w, rfl, ?_⟩
    by_cases zero : s.pageToPfn w.1 = 0
    · rw [uvaddrToKvaddr, pfn, if_pos zero] at mapped
      exact absurd rfl mapped
    · rw [uvaddrToKvaddr, pfn, if_neg zero, pageOff_eq, pageToKvaddr, pageToPaddr]

/-- A chunk that ends in its page goes into a mapped page. -/
theorem SpaceKept.chunk (kept : SpaceKept root s r l) {v size : Nat} (kv : Nat)
    (mapped : s.uvaddrToKvaddr (s.pageToKvaddr root) v ≠ 0) (inside : v % 16384 + size ≤ 16384) :
    Written s r (s.mem.copyFrom s.mem (s.uvaddrToKvaddr (s.pageToKvaddr root) v) kv size) := by
  obtain ⟨w, found, place⟩ := kept.uvaddrToKvaddr_leaf mapped
  intro x changed
  refine ⟨path v, w, found, ?_⟩
  by_contra outside
  refine changed (ByteMem.copyFrom_outside ?_)
  rw [place]
  rw [InPage] at outside
  omega

/-- A copy to the user writes into mapped pages only, wherever its range ends. -/
theorem SpaceKept.copyLoop_writes {u len n i stop kv : Nat} (kept : SpaceKept root s r l) (small : u < 2 ^ 64)
    (short : len < 2 ^ 64) (whole : i + n = nrPagesSpanned u len) (single : nrPagesSpanned u len = 1 → len ≤ 16384)
    (place : i ≠ 0 → stop = 16384 * ((u / 16384 + i) % 2 ^ 50)) :
    ∃ m, (s.copyLoop (s.pageToKvaddr root) u len (nrPagesSpanned u len) true n i stop kv).2 = { s with mem := m } ∧
      Written s r m := by
  induction n generalizing s i stop kv with
  | zero => exact ⟨s.mem, rfl, .refl s r⟩
  | succ n ih =>
    obtain ⟨start, defStart⟩ : ∃ start, start = if i = 0 then u else stop := ⟨_, rfl⟩
    obtain ⟨next, defNext⟩ : ∃ next, next = if i = nrPagesSpanned u len - 1 then (u + len) % 2 ^ 64 else pgend start :=
      ⟨_, rfl⟩
    have low : start < 2 ^ 64 ∧ start / 16384 = (u / 16384 + i) % 2 ^ 50 ∧ (i ≠ 0 → start % 16384 = 0) := by
      rw [defStart]
      split_ifs with first
      · omega
      · have := place first
        omega
    obtain ⟨lower, page, aligned⟩ := low
    have round : pgend start = (start / 16384 * 16384 + 16384) % 2 ^ 64 := by
      rw [pgend, pgaddrRounddown_eq lower, pgsize]
    -- the last chunk ends where the range does, the others end with their pages
    have bounds : start % 16384 + (next + 2 ^ 64 - start) % 2 ^ 64 ≤ 16384 ∧
        (n ≠ 0 → next = 16384 * ((u / 16384 + (i + 1)) % 2 ^ 50)) := by
      rw [defNext]
      split_ifs with last
      · have count : nrPagesSpanned u len = i + 1 := by omega
        refine ⟨lastChunk_inside small short lower (page.trans (spanned_page small count)) ?_, fun more => by omega⟩
        by_cases first : i = 0
        · rw [if_pos first] at defStart
          rw [first] at count
          exact .inl ⟨defStart, single count⟩
        · exact .inr (aligned first)
      · rw [round]
        omega
    obtain ⟨inside, more⟩ := bounds
    obtain ⟨size, defSize⟩ : ∃ size, size = (next + 2 ^ 64 - start) % 2 ^ 64 := ⟨_, rfl⟩
    rw [← defSize] at inside
    simp only [copyLoop, ← defStart, ← defNext, ← defSize]
    by_cases mapped : s.uvaddrToKvaddr (s.pageToKvaddr root) start = 0
    · simp only [mapped, if_true]
      exact ⟨s.mem, rfl, .refl s r⟩
    · have written := kept.chunk kv mapped inside
      simp only [mapped, if_false, if_true]
      obtain ⟨m₁, def₁⟩ : ∃ m₁, m₁ = s.mem.copyFrom s.mem (s.uvaddrToKvaddr (s.pageToKvaddr root) start) kv size := ⟨_, rfl⟩
      rw [← def₁] at written ⊢
      by_cases done : n = 0
      · refine ⟨m₁, ?_, written⟩
        rw [done, copyLoop]
      · obtain ⟨m, run, rest⟩ := ih (kept.write written) (by omega) fun _ => more done
        exact ⟨m, run, written.trans rest⟩

end PageMem

namespace Mm

open PageMem

variable {k k' : Mm} {root u kv len : Nat} {ret : Int} {r : Dirs} {l : List Nat} {B : Heap.Slabs}
variable {areas : List (Nat × VmArea)}

/-- A copy to the user changes nothing but mapped pages. It is refused where user addresses end. -/
theorem Kept.copyToUvm (kept : k.Kept root r l B areas) (small : u < 2 ^ 64) (short : len < 2 ^ 64)
    (done : k.copyToUvm u kv len = .ok (ret, k')) :
    ∃ m, k' = k.setPm { k.heap.pm with mem := m } ∧ k'.Kept root r l B areas ∧ (ret = 0 → u ≤ xusegEnd) := by
  have written : ∃ m, (k.heap.pm.copyToUvm k.pgd u kv len).2 = { k.heap.pm with mem := m } ∧
      (Written k.heap.pm r m ∨ pgsize < len ∧ (k.heap.pm.copyToUvm k.pgd u kv len).1 = 0 ∧ nrPagesSpanned u len = 1) ∧
      ((k.heap.pm.copyToUvm k.pgd u kv len).1 = 0 → u ≤ xusegEnd) := by
    rw [PageMem.copyToUvm, copyUvm]
    by_cases accepted : u ≤ xusegEnd
    · rw [if_neg (not_not.mpr accepted)]
      by_cases long : nrPagesSpanned u len = 1 ∧ pgsize < len
      · simp only [long.1, copyLoop, Nat.sub_self, if_true]
        split_ifs with unmapped
        · exact ⟨k.heap.pm.mem, rfl, .inl (.refl _ _), fun _ => accepted⟩
        · exact ⟨_, rfl, .inr ⟨long.2, rfl, trivial⟩, fun _ => accepted⟩
      · obtain ⟨m, run, written⟩ := @SpaceKept.copyLoop_writes _ _ _ _ _ _ _ 0 0 kv kept.space small short (Nat.zero_add _)
          (fun one => by by_contra more; exact long ⟨one, Nat.lt_of_not_le more⟩) (by simp)
        rw [← kept.pgd] at run
        exact ⟨m, run, .inl written, fun _ => accepted⟩
    · rw [if_pos accepted]
      refine ⟨k.heap.pm.mem, rfl, .inl (.refl _ _), fun zero => ?_⟩
      have failed : -efault ≠ 0 := by decide
      exact absurd zero failed
  obtain ⟨m, run, written, refused⟩ := written
  rw [Mm.copyToUvm] at done
  split_ifs at done with null
  simp only at done
  split_ifs at done with wild
  obtain ⟨rfl, rfl⟩ := Prod.mk.inj (Except.ok.inj done)
  have inside : Written k.heap.pm r m := by
    rcases written with inside | ⟨long, zero, one⟩
    · exact inside
    · exact absurd ⟨zero, one, long⟩ wild
  refine ⟨m, by rw [run], ?_, refused⟩
  rw [run]
  exact kept.setPm (kept.space.write inside) ⟨rfl, rfl⟩ fun x slab => inside.agree kept.space slab.not_held

end Mm

end Xv6
