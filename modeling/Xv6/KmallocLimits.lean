import Xv6.HeapBlocks

namespace Xv6

/-- The sum in `ROUNDUP` wraps for the last seven sizes only, and then nothing is left of the size. -/
theorem roundup_eq {n : Nat} (word : n < 2 ^ 64) :
    roundup n kmallocAlign = if n ≤ 2 ^ 64 - 8 then (n + 7) / 8 * 8 else 0 := by
  simp only [roundup, kmallocAlign]
  split <;> omega

/-- The sum in `RSHIFT_ROUNDUP` wraps within a page of the end. -/
theorem blockPages_limit {n : Nat} (word : n < 2 ^ 64) :
    blockPages n = if n ≤ 2 ^ 64 - 16384 then (n + 16383) / 16384 else 0 := by
  rw [blockPages, roundup_eq word]
  simp only [nrPagesNeeded, rshiftRoundup, lowbits, pgshift, Nat.shiftRight_eq_div_pow]
  split_ifs <;> omega

namespace Heap

/-- Every byte of the block is in a chunk that was not live, or in a page that was free, and is in use now. -/
def Usable (h h' : Heap) (l : List Nat) (B : Slabs) (a bytes : Nat) : Prop :=
  ∃ l' B', Kept h' l' B' ∧ ∀ b, a ≤ b → b < a + bytes →
    (∃ c x i, B'.Live c x i ∧ ¬ B.Live c x i ∧ h.pm.pageToKvaddr x + i * cacheSize c ≤ b ∧
      b < h.pm.pageToKvaddr x + (i + 1) * cacheSize c) ∨
    ∃ p ∈ l, p ∉ l' ∧ ¬ B'.Slab p ∧ h.pm.InPage p b

/-- `kmalloc` comes to an end without an error. It returns NULL and changes nothing but
`kmcache_last_accessed`, or a block of that many bytes. -/
def KmallocSafe (h : Heap) (l : List Nat) (B : Slabs) (bytes : Nat) : Prop :=
  ∃ fuel a h', h.kmalloc fuel bytes = .ok (a, h') ∧
    (a = 0 → h' = { h with lastAccessed := h'.lastAccessed }) ∧ (a ≠ 0 → Usable h h' l B a bytes)

/-- The size is neither 0 nor within a page of the end; and a large block has too few free pages, or a run
of them in front of the last one. -/
structure Servable (l : List Nat) (bytes : Nat) : Prop where
  positive : 1 ≤ bytes
  small : bytes ≤ 2 ^ 64 - 16384
  run : largeChunk < bytes → l.length < blockPages bytes ∨
    ∃ f p, PageMem.LowestRun l (blockPages bytes) f ∧ p ∈ l ∧ f + blockPages bytes ≤ p

variable {h h' : Heap} {l : List Nat} {B : Slabs} {bytes : Nat}

/-- No cache serves the size 0. -/
theorem slabAlloc_zero (kept : Kept h l B) : h.slabAlloc 0 = .error .panic := by
  have unfit : ∀ c < 13, ¬ lbound (cacheSize c) ≤ 0 := by decide
  have none (c : Nat) (known : c < nrSlabOrders) : h.almostFit 0 c = false := by
    rw [almostFit, kept.sizes, decide_eq_false_iff_not]
    exact fun fits => unfit c known fits.1
  have last : h.lastAccessed.filter (h.almostFit 0) = .none := by
    rw [Option.filter_eq_none_iff]
    intro c accessed
    rw [none c (kept.last c accessed)]
    decide
  have all : (List.range nrSlabOrders).find? (h.almostFit 0) = .none := by
    rw [List.find?_eq_none]
    intro c member
    rw [none c (List.mem_range.mp member)]
    decide
  rw [slabAlloc, findKmcache, last, all]
  rfl

/-- A small size is served by a slab, or refused. -/
theorem kmallocSafe_small (kept : Kept h l B) (positive : 1 ≤ bytes) (small : bytes ≤ largeChunk) : h.KmallocSafe l B bytes := by
  have limit : largeChunk = 8192 := rfl
  have rounded := roundup_align (n := bytes) (by omega)
  obtain ⟨c, known, fits, ⟨-, -, run⟩ | ⟨x, i, h', l', B', run, served⟩⟩ :=
    slabAlloc_spec kept (n := roundup bytes kmallocAlign) (by omega) (by omega) (by omega)
  · refine ⟨0, 0, { h with lastAccessed := some c }, ?_, fun _ => rfl, fun other => absurd rfl other⟩
    rw [kmalloc, if_neg (by omega)]
    exact run
  · have nonzero : h.pm.pageToKvaddr x + i * cacheSize c ≠ 0 := SlabRun.address_ne_zero
    refine ⟨0, h.pm.pageToKvaddr x + i * cacheSize c, h', ?_, fun null => absurd null nonzero,
      fun _ => ⟨l', B', served.kept, fun b lower upper => .inl ?_⟩⟩
    · rw [kmalloc, if_neg (by omega)]
      exact run
    · refine ⟨c, x, i, (served.handed.live c x i).mpr (.inr ⟨rfl, rfl, rfl⟩), served.handed.fresh, lower, ?_⟩
      have enough := fits.2
      rw [Nat.succ_mul]
      omega

/-- A run of free pages in front of the last one is handed out. -/
theorem kmallocSafe_run (kept : Kept h l B) (big : largeChunk < bytes) (small : bytes ≤ 2 ^ 64 - 16384) {f p : Nat}
    (lowest : PageMem.LowestRun l (blockPages bytes) f) (inside : p ∈ l) (behind : f + blockPages bytes ≤ p) :
    h.KmallocSafe l B bytes := by
  have limit : largeChunk = 8192 := rfl
  have word : bytes < 2 ^ 64 := by omega
  have count := blockPages_limit word
  have rounded := roundup_eq word
  rw [if_pos small] at count
  rw [if_pos (by omega)] at rounded
  obtain ⟨n, found⟩ := PageMem.search_found kept.free (by omega) (by omega) lowest inside behind
  obtain ⟨pm, run, taken, -⟩ := PageMem.allocContPages_found kept.free (by omega) lowest.1 found
  have done : h.kmalloc n bytes = .ok (pm.pageToKvaddr f, { h with pm := pm }) := by
    rw [blockPages] at run
    simp only [kmalloc, if_pos (show largeChunk < roundup bytes kmallocAlign by omega), kmallocLarge, run, Res.ok_bind,
      setGeneric pm taken.type]
  refine ⟨n, _, _, done, fun null => absurd null (PageMem.kvaddr_pos _ _), fun _ => ?_⟩
  have slabs : ∀ c x, B.Holds c x → h.pm.Agree pm x := by
    intro c x holds
    obtain ⟨b, inUse⟩ := holds
    exact taken.outside x (kept.not_free inUse)
  refine ⟨_, B, kept.elsewhere taken.free taken.geometry slabs, fun b lower upper => .inr ?_⟩
  rw [taken.geometry.kvaddr, PageMem.pageToKvaddr_eq] at lower upper
  have member : f + (b - h.pm.pageToKvaddr f) / 16384 ∈ l := lowest.1 _ (by rw [PageMem.pageToKvaddr_eq]; omega)
  have notSlab : ¬ B.Slab (f + (b - h.pm.pageToKvaddr f) / 16384) := by
    intro slab
    obtain ⟨c, b, held⟩ := slab
    exact kept.not_free held member
  refine ⟨_, member, ?_, notSlab, ?_⟩
  · rw [List.mem_filter, PageMem.pageToKvaddr_eq]
    simp only [decide_eq_true_eq, not_and, not_or]
    omega
  · rw [PageMem.InPage, PageMem.pageToKvaddr_eq, PageMem.pageToKvaddr_eq]
    omega

/-- Too few free pages are refused. -/
theorem kmallocSafe_few (kept : Kept h l B) (big : largeChunk < bytes) (small : bytes ≤ 2 ^ 64 - 16384)
    (few : l.length < blockPages bytes) : h.KmallocSafe l B bytes := by
  have limit : largeChunk = 8192 := rfl
  have rounded := roundup_eq (n := bytes) (by omega)
  rw [if_pos (by omega)] at rounded
  have none : h.pm.allocContPages 0 (blockPages bytes) = .ok (.none, h.pm) := by
    rw [PageMem.allocContPages, if_pos (by rw [kept.free.count]; exact few)]
  rw [blockPages] at none
  refine ⟨0, 0, h, ?_, fun _ => rfl, fun other => absurd rfl other⟩
  simp only [kmalloc, if_pos (show largeChunk < roundup bytes kmallocAlign by omega), kmallocLarge, none, Res.ok_bind]

/-- The search that takes the head of the list for a page comes to nothing. -/
theorem allocContPages_gap {s s' : PageMem} {num n : Nat} {p : Option Nat} (free : s.FreeList l) (size : s.nrPages < 2 ^ 50)
    (positive : 0 < num) (gap : ∀ g, ¬ PageMem.RunAt l num g) (enough : num ≤ l.length) :
    s.allocContPages n num ≠ .ok (p, s') := by
  intro done
  have few := free.length_le
  have nonempty : l ≠ [] := List.ne_nil_of_length_pos (by omega)
  rw [PageMem.allocContPages, if_neg (by rw [free.count]; omega)] at done
  obtain ⟨⟨i, q⟩, searched, done⟩ := Res.bind_eq_ok.mp done
  obtain ⟨rfl, rfl⟩ := PageMem.search_none free positive (by omega) nonempty gap n searched
  obtain ⟨m, rfl⟩ : ∃ m, num = m + 1 := ⟨num - 1, by omega⟩
  simp only [Nat.lt_irrefl, if_false, PageMem.takeCont] at done
  cases done

/-- The search ends with its counter at 0. -/
theorem contSearch_zero {s : PageMem} {num n i j : Nat} {p np q : PageNode} (done : s.contSearch num n i p np = .ok (j, q)) : j = 0 := by
  induction n generalizing i p np with
  | zero => cases done
  | succ n ih =>
    rw [PageMem.contSearch] at done
    split at done
    · exact ih done
    · obtain ⟨rfl, -⟩ := Prod.mk.inj (Except.ok.inj done)
      omega

/-- When no page is asked for, there is no first page to go on with. -/
theorem allocContPages_zero {s s' : PageMem} {n : Nat} {p : Option Nat} : s.allocContPages n 0 ≠ .ok (p, s') := by
  intro done
  rw [PageMem.allocContPages, if_neg (Nat.not_lt_zero _)] at done
  obtain ⟨⟨i, q⟩, searched, done⟩ := Res.bind_eq_ok.mp done
  obtain rfl := contSearch_zero searched
  simp only [Nat.lt_irrefl, if_false, PageMem.takeCont] at done
  cases done

theorem kmallocLarge_stuck {fuel a : Nat} (stuck : ∀ p pm, h.pm.allocContPages fuel (nrPagesNeeded bytes) ≠ .ok (p, pm)) :
    h.kmallocLarge fuel bytes ≠ .ok (a, h') := by
  intro done
  obtain ⟨⟨p, pm⟩, pages, -⟩ := Res.bind_eq_ok.mp done
  exact stuck p pm pages

/-- Sizes for which the sums wrap, and runs that the search misses. -/
theorem servable_of_safe (kept : Kept h l B) (size : h.pm.nrPages < 2 ^ 50) (word : bytes < 2 ^ 64)
    (safe : h.KmallocSafe l B bytes) : Servable l bytes := by
  obtain ⟨fuel, a, h', done, -, -⟩ := safe
  have limit : largeChunk = 8192 := rfl
  have rounded := roundup_eq word
  have count := blockPages_limit word
  have notZero : roundup bytes kmallocAlign ≠ 0 := by
    intro zero
    rw [kmalloc, zero, if_neg (by decide), slabAlloc_zero kept] at done
    cases done
  have positive : 1 ≤ bytes := by
    by_contra zero
    obtain rfl : bytes = 0 := by omega
    exact notZero rfl
  have below : bytes ≤ 2 ^ 64 - 8 := by
    by_contra above
    rw [if_neg above] at rounded
    exact notZero rounded
  rw [if_pos below] at rounded
  -- a large block whose pages are not found
  have large (big : largeChunk < bytes) (stuck : ∀ p pm, h.pm.allocContPages fuel (blockPages bytes) ≠ .ok (p, pm)) : False := by
    rw [kmalloc, if_pos (show largeChunk < roundup bytes kmallocAlign by omega)] at done
    exact kmallocLarge_stuck stuck done
  have small : bytes ≤ 2 ^ 64 - 16384 := by
    by_contra above
    rw [if_neg above] at count
    refine large (by omega) fun p pm => ?_
    rw [count]
    exact allocContPages_zero
  rw [if_pos small] at count
  refine ⟨positive, small, fun big => ?_⟩
  by_cases few : l.length < blockPages bytes
  · exact .inl few
  right
  by_cases gap : ∀ g, ¬ PageMem.RunAt l (blockPages bytes) g
  · exact (large big fun p pm => allocContPages_gap kept.free size (by omega) gap (by omega)).elim
  obtain ⟨g, run⟩ := not_forall_not.mp gap
  obtain ⟨f, lowest⟩ := PageMem.exists_lowestRun run
  by_cases last : ∀ p ∈ l, p < f + blockPages bytes
  · refine (large big fun p pm found => ?_).elim
    rw [PageMem.allocContPages_last kept.free size (by omega) lowest last] at found
    cases found
  · obtain ⟨p, member, behind⟩ : ∃ p ∈ l, f + blockPages bytes ≤ p := by
      by_contra none
      exact last fun p member => Nat.lt_of_not_le fun behind => none ⟨p, member, behind⟩
    exact ⟨f, p, lowest, member, behind⟩

/-- In every state of the allocator and for every size, `kmalloc` does what it should just in these cases. -/
theorem kmallocSafe_iff (kept : Kept h l B) (size : h.pm.nrPages < 2 ^ 50) (word : bytes < 2 ^ 64) :
    h.KmallocSafe l B bytes ↔ Servable l bytes := by
  refine ⟨servable_of_safe kept size word, fun servable => ?_⟩
  obtain ⟨positive, small, run⟩ := servable
  by_cases big : largeChunk < bytes
  · rcases run big with few | ⟨f, p, lowest, member, behind⟩
    · exact kmallocSafe_few kept big small few
    · exact kmallocSafe_run kept big small lowest member behind
  · exact kmallocSafe_small kept positive (Nat.le_of_not_lt big)

/-- The heap of a machine with three free pages. -/
theorem bootHeap_kept : Kept (slabBootstrap (initPageArray 0 4 ⟨id, id⟩ fun _ => 0) ⟨id, id⟩) [1, 2, 3] ⟨fun _ => [], fun _ => []⟩ :=
  kept_bootstrap (PageMem.bootFree ⟨id, id⟩ fun _ => 0) (by decide) ⟨id, id⟩

theorem kmallocSafe_eight :
    KmallocSafe (slabBootstrap (initPageArray 0 4 ⟨id, id⟩ fun _ => 0) ⟨id, id⟩) [1, 2, 3] ⟨fun _ => [], fun _ => []⟩ 8 :=
  (kmallocSafe_iff bootHeap_kept (by decide) (by decide)).mpr ⟨by decide, by decide, fun big => absurd big (by decide)⟩

/-- The size 0 panics. -/
theorem not_kmallocSafe : ¬ ∀ (h : Heap) (l : List Nat) (B : Slabs) (bytes : Nat), h.Kept l B → h.pm.nrPages < 2 ^ 50 →
    bytes < 2 ^ 64 → h.KmallocSafe l B bytes := by
  intro always
  obtain ⟨fuel, a, h', done, -, -⟩ := always _ _ _ 0 bootHeap_kept (by decide) (by decide)
  have zero := slabAlloc_zero bootHeap_kept
  rw [kmalloc, if_neg (by decide), show roundup 0 kmallocAlign = 0 from rfl, zero] at done
  cases done

end Heap

end Xv6
