import Xv6.Lib.RingQueue
import Xv6.Lib.IndexChain
import Xv6.Slab
import Xv6.PageDirSpec

namespace Xv6.Heap

/-- The number of chunks in a slab of the cache. -/
def capacity (c : Nat) : Nat := 16384 / cacheSize c

/-- The cache serves this size. -/
def Fits (c n : Nat) : Prop := lbound (cacheSize c) ≤ n ∧ n ≤ cacheSize c

theorem cacheSize_bounds {c : Nat} (known : c < nrSlabOrders) :
    8 ≤ cacheSize c ∧ cacheSize c ≤ largeChunk ∧ cacheSize c % 8 = 0 ∧ 2 ≤ capacity c ∧ capacity c ≤ 2048 ∧
      capacity c * cacheSize c ≤ 16384 := by
  have all : ∀ c < 13, 8 ≤ cacheSize c ∧ cacheSize c ≤ largeChunk ∧ cacheSize c % 8 = 0 ∧ 2 ≤ capacity c ∧
      capacity c ≤ 2048 ∧ capacity c * cacheSize c ≤ 16384 := by decide
  exact all c known

/-- A chunk ends in its page. -/
theorem chunk_fits {c i : Nat} (known : c < nrSlabOrders) (bound : i < capacity c) :
    i * cacheSize c + cacheSize c ≤ 16384 := by
  obtain ⟨-, -, -, -, -, whole⟩ := cacheSize_bounds known
  rw [← Nat.succ_mul]
  exact le_trans (Nat.mul_le_mul_right _ bound) whole

/-- A cache serves what is too large for the one below it. -/
theorem lbound_cacheSize {c : Nat} (known : c < nrSlabOrders) :
    lbound (cacheSize c) = if c = 0 then 8 else cacheSize (c - 1) + 8 := by
  have all : ∀ c < 13, lbound (cacheSize c) = if c = 0 then 8 else cacheSize (c - 1) + 8 := by decide
  exact all c known

theorem cacheSize_lt {c d : Nat} (known : d < nrSlabOrders) (lt : c < d) : cacheSize c < cacheSize d := by
  have all : ∀ d < 13, ∀ c < d, cacheSize c < cacheSize d := by decide
  exact all d known c lt

theorem Fits.unique {c d n : Nat} (known : c < nrSlabOrders) (known' : d < nrSlabOrders) (left : Fits c n)
    (right : Fits d n) : c = d := by
  have below : ∀ {c d : Nat}, d < nrSlabOrders → Fits c n → Fits d n → ¬ c < d := by
    intro c d known left right lt
    have bound := right.1
    rw [lbound_cacheSize known, if_neg (by omega)] at bound
    have upper := left.2
    by_cases last : c = d - 1
    · subst last
      omega
    · have := cacheSize_lt (by omega : d - 1 < nrSlabOrders) (by omega : c < d - 1)
      omega
  rcases Nat.lt_trichotomy c d with lt | eq | gt
  · exact absurd lt (below known' left right)
  · exact eq
  · exact absurd gt (below known right left)

/-- A fitting class is the smallest one. -/
theorem Fits.smallest {c d n : Nat} (known : c < nrSlabOrders) (known' : d < nrSlabOrders) (fits : Fits c n)
    (serves : n ≤ cacheSize d) : cacheSize c ≤ cacheSize d := by
  by_contra larger
  have below : d < c := by
    by_contra above
    rcases Nat.lt_or_eq_of_le (Nat.le_of_not_lt above) with lt | rfl
    · exact larger (Nat.le_of_lt (cacheSize_lt known' lt))
    · exact larger (Nat.le_refl _)
  have lower := fits.1
  rw [lbound_cacheSize known, if_neg (by omega)] at lower
  by_cases last : d = c - 1
  · subst last
    omega
  · have := cacheSize_lt (by omega : c - 1 < nrSlabOrders) (by omega : d < c - 1)
    omega

/-- Every size that is a multiple of 8 has its cache. -/
theorem exists_fits {n : Nat} (positive : 0 < n) (aligned : n % 8 = 0) (small : n ≤ largeChunk) :
    ∃ c, c < nrSlabOrders ∧ Fits c n := by
  have top : n ≤ cacheSize 12 := small
  have some : ∃ c, n ≤ cacheSize c := ⟨12, top⟩
  classical
  have least := Nat.find_spec some
  have known : Nat.find some < nrSlabOrders := Nat.lt_of_le_of_lt (Nat.find_min' some top) (by decide)
  refine ⟨Nat.find some, known, ?_, least⟩
  rw [lbound_cacheSize known]
  split_ifs with zero
  · omega
  · have above := Nat.find_min some (by omega : Nat.find some - 1 < Nat.find some)
    have multiple := (cacheSize_bounds (by omega : Nat.find some - 1 < nrSlabOrders)).2.2.1
    omega

/-- The slabs of the heap: the available (`true`) and the full ones (`false`) of
each cache, and the free chunks of each slab. -/
structure Slabs where
  queue : Nat × Bool → List Nat
  chain : Nat → List Nat

/-- The heads of the queues. -/
def head (h : Heap) (k : Nat × Bool) : Option Nat := if k.2 then (h.kmcache k.1).avail else (h.kmcache k.1).full

/-- The page is a slab of the cache with these free chunks. -/
structure SlabAt (h : Heap) (c p : Nat) (chain : List Nat) : Prop where
  known : c < nrSlabOrders
  set : h.pm.AllocSet p []
  type : (h.pm.page p).type = .slab
  extra : (h.pm.page p).extra = .slab ⟨c, chain.head?.elim (-1) Nat.cast, chain.length, capacity c⟩
  nodup : chain.Nodup
  bound : ∀ i ∈ chain, i < capacity c
  stored : ChainAt h.pm.mem (h.pm.pageToKvaddr p) (cacheSize c) chain

/-- The heap holds these slabs, and `l` is the free list. -/
structure Kept (h : Heap) (l : List Nat) (B : Slabs) : Prop where
  free : h.pm.FreeList l
  small : h.pm.nrPages < 2 ^ 64
  sizes : ∀ c, (h.kmcache c).size = cacheSize c
  last : ∀ c, h.lastAccessed = some c → c < nrSlabOrders
  queues : h.slabLink.Queues h.head B.queue
  slabs : ∀ k p, p ∈ B.queue k → SlabAt h k.1 p (B.chain p)
  state : ∀ k p, p ∈ B.queue k → (B.chain p ≠ [] ↔ k.2 = true)

theorem SlabAt.slab_eq {h : Heap} {c p : Nat} {chain : List Nat} (slab : SlabAt h c p chain) :
    h.slab p = ⟨c, chain.head?.elim (-1) Nat.cast, chain.length, capacity c⟩ := by
  rw [Heap.slab, slab.extra]

theorem SlabAt.frame {h h' : Heap} {c p : Nat} {chain : List Nat} (slab : SlabAt h c p chain)
    (geometry : h.pm.SameGeometry h'.pm) (agree : h.pm.Agree h'.pm p) : SlabAt h' c p chain where
  known := slab.known
  set := slab.set.frame geometry fun q member => by
    obtain rfl : q = p := by simpa using member
    exact agree
  type := by rw [agree.page]; exact slab.type
  extra := by rw [agree.page]; exact slab.extra
  nodup := slab.nodup
  bound := slab.bound
  stored := by
    rw [geometry.kvaddr]
    refine slab.stored.congr fun i member x lower upper => agree.mem x (by omega) ?_
    obtain ⟨eight, -, -, -, -, inside⟩ := cacheSize_bounds slab.known
    have step : i * cacheSize c + cacheSize c ≤ capacity c * cacheSize c := by
      rw [← Nat.succ_mul]
      exact Nat.mul_le_mul_right _ (slab.bound i member)
    omega

namespace Kept

variable {h : Heap} {l : List Nat} {B : Slabs}

theorem not_free (kept : Kept h l B) {k : Nat × Bool} {p : Nat} (inside : p ∈ B.queue k) : p ∉ l :=
  (kept.slabs k p inside).set.disjoint_free kept.free (List.mem_cons_self ..)

end Kept

theorem findKmcache_fits {h : Heap} {c n : Nat} (sizes : ∀ c, (h.kmcache c).size = cacheSize c)
    (last : ∀ c, h.lastAccessed = some c → c < nrSlabOrders) (known : c < nrSlabOrders) (fits : Fits c n) :
    h.findKmcache n = .ok (c, { h with lastAccessed := some c }) := by
  have fit : ∀ c, h.almostFit n c = true ↔ Fits c n := by
    intro c
    rw [almostFit, sizes, decide_eq_true_eq, Fits]
  cases cached : h.lastAccessed.filter (h.almostFit n) with
  | some d =>
    obtain ⟨isLast, found⟩ := Option.filter_eq_some_iff.mp cached
    obtain rfl : d = c := ((fit d).mp found).unique (last d isLast) known fits
    have same : { h with lastAccessed := some d } = h := by rw [← isLast]
    rw [findKmcache, cached, same]
  | none =>
    cases found : (List.range nrSlabOrders).find? (h.almostFit n) with
    | none =>
      have unfit := List.find?_eq_none.mp found c (List.mem_range.mpr known)
      exact absurd ((fit c).mpr fits) unfit
    | some d =>
      have known' : d < nrSlabOrders := List.mem_range.mp (List.mem_of_find?_eq_some found)
      obtain rfl : d = c := ((fit d).mp (List.find?_some found)).unique known' known fits
      rw [findKmcache, cached, found]

/-- A slab moves to the end of the available or of the full slabs. -/
def moveTo (h : Heap) (c : Nat) (links : Links Nat) (avail full : Option Nat) : Heap :=
  { h with
    slabLink := links
    kmcache := Function.update h.kmcache c { h.kmcache c with avail := avail, full := full } }

theorem setSlabAvailable_eq (h : Heap) (p : Nat) {c : Nat} (cache : (h.slab p).cache = c) :
    h.setSlabAvailable p = h.moveTo c ((h.slabLink.delInit p).joined (h.kmcache c).avail p)
      (some ((h.kmcache c).avail.getD p)) (h.slabLink.headWithout (h.kmcache c).full p) := by
  simp only [setSlabAvailable, cache, Links.headWithout, moveTo, slabDelInit]
  by_cases head : (h.kmcache c).full = some p
  · rw [if_pos head, if_pos head]
    cases avail : (h.kmcache c).avail <;> simp [setFull, avail, setAvail, slabAddBefore, Links.joined]
  · rw [if_neg head, if_neg head]
    cases avail : (h.kmcache c).avail with
    | none => simp [setAvail, Links.joined]
    | some q =>
      have same : ({ h.kmcache c with avail := some q } : KmemCache) = h.kmcache c := by rw [← avail]
      simp [slabAddBefore, Links.joined, same]

theorem setSlabFull_eq (h : Heap) (p : Nat) {c : Nat} (cache : (h.slab p).cache = c) :
    h.setSlabFull p = h.moveTo c ((h.slabLink.delInit p).joined (h.kmcache c).full p)
      (h.slabLink.headWithout (h.kmcache c).avail p) (some ((h.kmcache c).full.getD p)) := by
  simp only [setSlabFull, cache, Links.headWithout, moveTo, slabDelInit]
  by_cases head : (h.kmcache c).avail = some p
  · rw [if_pos head, if_pos head]
    cases full : (h.kmcache c).full <;> simp [setFull, full, setAvail, slabAddBefore, Links.joined]
  · rw [if_neg head, if_neg head]
    cases full : (h.kmcache c).full with
    | none => simp [setFull, Links.joined]
    | some q =>
      have same : ({ h.kmcache c with full := some q } : KmemCache) = h.kmcache c := by rw [← full]
      simp [slabAddBefore, Links.joined, same]

theorem setSlabEmpty_eq (h : Heap) (p : Nat) {c : Nat} (cache : (h.slab p).cache = c)
    (notFull : (h.kmcache c).full ≠ some p) :
    h.setSlabEmpty p = .ok (h.moveTo c (h.slabLink.delInit p) (h.slabLink.headWithout (h.kmcache c).avail p)
      (h.kmcache c).full) := by
  simp only [setSlabEmpty, cache, Links.headWithout, moveTo, slabDelInit]
  by_cases head : (h.kmcache c).avail = some p
  · rw [if_pos head, if_pos head]
    simp [setAvail, notFull]
  · rw [if_neg head, if_neg head]
    simp [notFull]

theorem head_moveTo (h : Heap) (c : Nat) (links : Links Nat) (avail full : Option Nat) :
    (h.moveTo c links avail full).head =
      Function.update (Function.update h.head (c, true) avail) (c, false) full := by
  funext ⟨d, which⟩
  by_cases same : d = c
  · subst same
    cases which <;> simp [head, moveTo, Function.update]
  · have other : ∀ b, ((d, which) : Nat × Bool) ≠ (c, b) := fun b eq => same (congrArg Prod.fst eq)
    rw [Function.update_of_ne (other _), Function.update_of_ne (other _)]
    simp [head, moveTo, same]

end Xv6.Heap
