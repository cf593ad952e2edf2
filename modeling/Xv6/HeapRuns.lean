import Xv6.HeapBlocks

namespace Xv6

namespace Heap

variable {h h' : Heap} {B : Slabs} {l : List Nat} {live : Nat → Option Nat} {sets : Set (List Nat)}

/-- The chunks in the list of free chunks of the slab, followed through the memory. -/
inductive FreeChunk (h : Heap) (c p : Nat) : Nat → Prop
  | first {i : Nat} (index : (h.slab p).index = i) : FreeChunk h c p i
  | next {i j : Nat} (before : FreeChunk h c p i)
      (word : wordInt (h.pm.mem.load (h.pm.pageToKvaddr p + i * (h.kmcache c).size) 4) = j) : FreeChunk h c p j

theorem Kept.freeChunk (kept : Kept h l B) {c p i : Nat} (holds : B.Holds c p) (free : FreeChunk h c p i) :
    i ∈ B.chain p := by
  have slab := kept.slab_of_holds holds
  have short : ∀ j ∈ B.chain p, j < 2 ^ 31 := by
    intro j member
    have bound := slab.bound j member
    obtain ⟨-, -, -, -, few, -⟩ := cacheSize_bounds slab.known
    omega
  have head : ∀ {rest : List Nat} {j : Nat}, rest.head?.elim (-1) Nat.cast = (j : Int) → j ∈ rest := by
    intro rest j eq
    cases rest with
    | nil =>
      simp only [List.head?_nil, Option.elim] at eq
      omega
    | cons k rest =>
      simp only [List.head?_cons, Option.elim] at eq
      exact Int.ofNat_inj.mp eq ▸ List.mem_cons_self ..
  induction free with
  | first index =>
    rw [slab.slab_eq] at index
    exact head index
  | next _ word ih =>
    rw [kept.sizes] at word
    obtain ⟨rest, stored, inside⟩ := slab.stored.word ih
    rw [stored, wordInt_chainWord fun j member => short j (inside member)] at word
    exact inside (head word)

/-- What the users of the heap rely on. -/
structure Safe (h : Heap) (live : Nat → Option Nat) : Prop where
  aligned : ∀ a n, live a = some n → a % 8 = 0
  reserved : ∀ a n, live a = some n → ∀ b, a ≤ b → b < a + n →
    ∃ p, p < h.pm.nrPages ∧ h.pm.InPage p b ∧ (h.pm.page p).reserved = true ∧ ∀ l, h.pm.FreeList l → p ∉ l
  apart : ∀ a n a' n', live a = some n → live a' = some n' → a ≠ a' → a + n ≤ a' ∨ a' + n' ≤ a
  links : ∀ a n, live a = some n → ∀ c p i, h.HeldBy c p → h.FreeChunk c p i →
    a + n ≤ h.pm.pageToKvaddr p + i * (h.kmcache c).size ∨ h.pm.pageToKvaddr p + i * (h.kmcache c).size + 4 ≤ a
  smallest : ∀ a n, live a = some n → n ≤ largeChunk → ∃ c p i, c < nrSlabOrders ∧ h.HeldBy c p ∧
    a = h.pm.pageToKvaddr p + i * (h.kmcache c).size ∧ n ≤ (h.kmcache c).size ∧
    ∀ d < nrSlabOrders, n ≤ (h.kmcache d).size → (h.kmcache c).size ≤ (h.kmcache d).size
  routes : ∀ a n, live a = some n → h.kfree a = if n ≤ largeChunk then h.slabFree a else h.kfreeLarge a

theorem HeapKept.apart (kept : HeapKept h live sets l B) {a n a' n' : Nat} (left : live a = some n) (right : live a' = some n')
    (different : a ≠ a') : a + n ≤ a' ∨ a' + n' ≤ a := by
  by_contra overlap
  have positive := (kept.asked a n left).1
  have positive' := (kept.asked a' n' right).1
  -- a byte of both blocks
  obtain ⟨b, above, below, above', below'⟩ : ∃ b, a ≤ b ∧ b < a + n ∧ a' ≤ b ∧ b < a' + n' :=
    ⟨max a a', by omega, by omega, by omega, by omega⟩
  obtain ⟨c, x, i, chunk, enough, here⟩ | ⟨f, p, block, member, here⟩ := kept.page_of left above below
  · obtain ⟨d, y, j, chunk', enough', there⟩ | ⟨g, q, block', member', there⟩ := kept.page_of right above' below'
    · obtain rfl := here.unique there
      obtain rfl := kept.kept.holds_unique chunk.2.1.1 chunk'.2.1.1
      obtain ⟨-, -, rfl⟩ := chunk
      obtain ⟨-, -, rfl⟩ := chunk'
      have indices : i ≠ j := fun same => different (by rw [same])
      rcases Nat.lt_or_gt_of_ne indices with lt | gt
      · have step : i * cacheSize c + cacheSize c ≤ j * cacheSize c := by
          rw [← Nat.succ_mul]
          exact Nat.mul_le_mul_right _ lt
        omega
      · have step : j * cacheSize c + cacheSize c ≤ i * cacheSize c := by
          rw [← Nat.succ_mul]
          exact Nat.mul_le_mul_right _ gt
        omega
    · exact block'.own.not_holds kept.kept (here.unique there ▸ member') c chunk.2.1.1
  · obtain ⟨d, y, j, chunk', -, there⟩ | ⟨g, q, block', member', there⟩ := kept.page_of right above' below'
    · exact block.own.not_holds kept.kept (there.unique here ▸ member) d chunk'.2.1.1
    · obtain rfl := here.unique there
      obtain ⟨rfl, -⟩ := block.own.set.unique block'.own.set member member'
      exact different (block.address.trans block'.address.symm)

theorem HeapKept.safe (kept : HeapKept h live sets l B) : Safe h live where
  aligned a n isLive := by
    by_cases little : n ≤ largeChunk
    · obtain ⟨c, x, i, -, chunk, rfl⟩ := kept.small a n isLive little
      obtain ⟨-, -, whole, -⟩ := cacheSize_bounds (kept.kept.slab_of_holds chunk.1).known
      obtain ⟨k, multiple⟩ := Nat.dvd_of_mod_eq_zero whole
      rw [PageMem.pageToKvaddr_eq, multiple, ← Nat.mul_assoc, Nat.mul_comm i 8, Nat.mul_assoc]
      omega
    · obtain ⟨f, block⟩ := kept.large a n isLive (by omega)
      rw [block.address, PageMem.pageToKvaddr_eq]
      omega
  reserved a n isLive b lower upper := by
    obtain ⟨c, x, i, chunk, -, here⟩ | ⟨f, p, block, member, here⟩ := kept.page_of isLive lower upper
    · have set := (kept.kept.slab_of_holds chunk.2.1.1).set
      exact ⟨x, set.bound x (by simp), here, set.reserved x (by simp), fun l free => set.disjoint_free free (by simp)⟩
    · have set := block.own.set
      exact ⟨p, set.bound p member, here, set.reserved p member, fun l free => set.disjoint_free free member⟩
  apart a n a' n' left right := kept.apart left right
  links a n isLive c p i held free := by
    have holds := kept.kept.heldBy_iff.mp held
    have inChain := kept.kept.freeChunk holds free
    have positive := (kept.asked a n isLive).1
    rw [kept.kept.sizes]
    by_contra overlap
    exact kept.word_apart holds inChain
      (show h.pm.pageToKvaddr p + i * cacheSize c ≤ max a (h.pm.pageToKvaddr p + i * cacheSize c) by omega) (by omega) isLive
      ⟨by omega, by omega⟩
  smallest a n isLive little := by
    obtain ⟨c, x, i, fits, chunk, address⟩ := kept.small a n isLive little
    have known := (kept.kept.slab_of_holds chunk.1).known
    have rounded := roundup_align (kept.asked a n isLive).2
    simp only [kept.kept.sizes]
    refine ⟨c, x, i, known, kept.kept.heldBy_iff.mpr chunk.1, address, ?_, ?_⟩
    · have := fits.2
      omega
    · intro d known' serves
      have multiple := (cacheSize_bounds known').2.2.1
      exact fits.smallest known known' (by omega)
  routes a n isLive := by
    split_ifs with little
    · obtain ⟨c, x, i, chunk⟩ := kept.small a n isLive little
      exact chunk.kfree kept.kept
    · obtain ⟨f, block⟩ := kept.large a n isLive (by omega)
      exact block.kfree

end Heap

open Heap

/-- A run of the kernel heap and the other users of the page allocator: the live
blocks with the bytes they were asked for, and the sets of pages of the others. -/
inductive HeapRun (pm : PageMem) (links : Links Nat) : Heap → (Nat → Option Nat) → Set (List Nat) → Prop
  | bootstrap : HeapRun pm links (slabBootstrap pm links) (fun _ => none) ∅
  | kmalloc {h h' : Heap} {live : Nat → Option Nat} {sets : Set (List Nat)} {fuel n a : Nat}
      (before : HeapRun pm links h live sets) (positive : 1 ≤ n) (bound : n < 2 ^ 63)
      (run : h.kmalloc fuel n = .ok (a, h')) (found : h.RunFound n a) :
      HeapRun pm links h' (if a = 0 then live else Function.update live a (some n)) sets
  | kfree {h h' : Heap} {live : Nat → Option Nat} {sets : Set (List Nat)} {n a : Nat}
      (before : HeapRun pm links h live sets) (isLive : live a = some n) (run : h.kfree a = .ok h') :
      HeapRun pm links h' (Function.update live a none) sets
  | allocPages {h : Heap} {pm' : PageMem} {live : Nat → Option Nat} {sets : Set (List Nat)} {num f : Nat} {tl : List Nat}
      (before : HeapRun pm links h live sets) (run : h.pm.allocPages num = .ok (some f, pm')) (set : pm'.AllocSet f tl) :
      HeapRun pm links { h with pm := pm' } live (insert (f :: tl) sets)
  | refusePages {h : Heap} {pm' : PageMem} {live : Nat → Option Nat} {sets : Set (List Nat)} {num : Nat}
      (before : HeapRun pm links h live sets) (run : h.pm.allocPages num = .ok (none, pm')) :
      HeapRun pm links { h with pm := pm' } live sets
  | freePages {h : Heap} {pm' : PageMem} {live : Nat → Option Nat} {sets : Set (List Nat)} {r : Option Nat} {f base : Nat}
      {tl xs ms ys : List Nat} (before : HeapRun pm links h live sets) (member : f :: tl ∈ sets)
      (split : f :: tl = xs ++ (base :: ms) ++ ys) (run : h.pm.freePages (some base) (ms.length + 1) = .ok (r, pm')) :
      HeapRun pm links { h with pm := pm' } live (splitSets sets (f :: tl) xs ys)
  | setType {h : Heap} {live : Nat → Option Nat} {sets : Set (List Nat)} {f : Nat} {tl : List Nat} {t : PageType}
      (before : HeapRun pm links h live sets) (member : f :: tl ∈ sets) (head : t ≠ .tail) :
      HeapRun pm links { h with pm := h.pm.setType f t } live sets
  | write {h : Heap} {live : Nat → Option Nat} {sets : Set (List Nat)} {m : ByteMem}
      (before : HeapRun pm links h live sets) (within : h.Within live sets m) :
      HeapRun pm links { h with pm := { h.pm with mem := m } } live sets

namespace HeapRun

variable {pm : PageMem} {links : Links Nat} {l₀ : List Nat} {h : Heap} {live : Nat → Option Nat} {sets : Set (List Nat)}

theorem small_iff {n : Nat} (bound : n < 2 ^ 63) : largeChunk < roundup n kmallocAlign ↔ largeChunk < n := by
  have limit : largeChunk = 8192 := rfl
  rw [roundup_align bound, limit]
  omega

theorem kept (run : HeapRun pm links h live sets) (start : pm.FreeList l₀) (size : pm.nrPages < 2 ^ 64) :
    ∃ l B, HeapKept h live sets l B := by
  induction run with
  | bootstrap =>
    refine ⟨l₀, ⟨fun _ => [], fun _ => []⟩, kept_bootstrap start size links, ?_, ?_, ?_, ?_⟩
    all_goals simp
  | kmalloc before positive bound run found ih =>
    obtain ⟨l, B, kept⟩ := ih
    rw [Heap.kmalloc] at run
    split_ifs at run with big
    · obtain ⟨-, l', kept'⟩ := kept.kmallocLarge positive bound ((small_iff bound).mp big) run found
      exact ⟨l', B, kept'⟩
    · obtain ⟨a, h', run', -, -, l', B', kept'⟩ :=
        kept.slabAlloc positive (Nat.le_of_not_lt fun large => big ((small_iff bound).mpr large))
      obtain ⟨rfl, rfl⟩ := Prod.mk.inj (Except.ok.inj (run.symm.trans run'))
      exact ⟨l', B', kept'⟩
  | @kfree _ _ _ _ n _ before isLive run ih =>
    obtain ⟨l, B, kept⟩ := ih
    by_cases little : n ≤ largeChunk
    · obtain ⟨h', run', l', B', kept'⟩ := kept.kfreeSmall isLive little
      obtain rfl := Except.ok.inj (run.symm.trans run')
      exact ⟨l', B', kept'⟩
    · obtain ⟨h', run', l', kept'⟩ := kept.kfreeLarge isLive (Nat.lt_of_not_le little)
      obtain rfl := Except.ok.inj (run.symm.trans run')
      exact ⟨l', B, kept'⟩
  | allocPages before run set ih =>
    obtain ⟨l, B, kept⟩ := ih
    obtain ⟨l', kept'⟩ := kept.allocPages run set
    exact ⟨l', B, kept'⟩
  | refusePages before run ih =>
    obtain ⟨l, B, kept⟩ := ih
    obtain rfl := PageMem.allocPages_null run
    exact ⟨l, B, kept⟩
  | freePages before member split run ih =>
    obtain ⟨l, B, kept⟩ := ih
    obtain ⟨l', kept'⟩ := kept.freePages member split run
    exact ⟨l', B, kept'⟩
  | setType before member head ih =>
    obtain ⟨l, B, kept⟩ := ih
    exact ⟨l, B, kept.setType member head⟩
  | write before within ih =>
    obtain ⟨l, B, kept⟩ := ih
    exact ⟨l, B, kept.write within⟩

/-- The heap is safe in every state of every run, and no call of it stops the kernel. -/
theorem heapSafe (start : pm.FreeList l₀) (size : pm.nrPages < 2 ^ 64) (run : HeapRun pm links h live sets) :
    h.Safe live ∧
    (∀ n, 1 ≤ n → n ≤ largeChunk → ∀ fuel, ∃ a h', h.kmalloc fuel n = .ok (a, h')) ∧
    (∀ n fuel a h', 1 ≤ n → n < 2 ^ 63 → h.kmalloc fuel n = .ok (a, h') →
      (a = 0 → h' = { h with lastAccessed := h'.lastAccessed }) ∧ (a ≠ 0 → h.RunFound n a → live a = none)) ∧
    (∀ a n, live a = some n → ∃ h', h.kfree a = .ok h') := by
  obtain ⟨l, B, kept⟩ := run.kept start size
  refine ⟨kept.safe, ?_, ?_, ?_⟩
  · intro n positive small fuel
    obtain ⟨a, h', done, -⟩ := kept.slabAlloc positive small
    have bound : n < 2 ^ 63 := Nat.lt_of_le_of_lt small (by decide)
    refine ⟨a, h', ?_⟩
    rw [Heap.kmalloc, if_neg fun big => absurd ((small_iff bound).mp big) (Nat.not_lt.mpr small)]
    exact done
  · intro n fuel a h' positive bound done
    rw [Heap.kmalloc] at done
    split_ifs at done with big
    · refine ⟨fun null => ?_, fun some found => ?_⟩
      · obtain rfl := kmallocLarge_null done null
        rfl
      · exact (kept.kmallocLarge positive bound ((small_iff bound).mp big) done found).1 some
    · obtain ⟨a', h'', done', null, fresh, -⟩ :=
        kept.slabAlloc positive (Nat.le_of_not_lt fun large => big ((small_iff bound).mpr large))
      obtain ⟨rfl, rfl⟩ := Prod.mk.inj (Except.ok.inj (done.symm.trans done'))
      exact ⟨null, fun some _ => fresh some⟩
  · intro a n isLive
    by_cases little : n ≤ largeChunk
    · obtain ⟨h', done, -⟩ := kept.kfreeSmall isLive little
      exact ⟨h', done⟩
    · obtain ⟨h', done, -⟩ := kept.kfreeLarge isLive (Nat.lt_of_not_le little)
      exact ⟨h', done⟩

/-- A block of `n` bytes is taken. -/
def took (h : Heap) (n : Nat) : Nat × Heap := (h.kmalloc 0 n).value (0, h)

def gave (h : Heap) (a : Nat) : Heap := (h.kfree a).value h

theorem took_run {x : Nat × Heap} {n : Nat} (run : HeapRun pm links h live sets) (taken : x = took h n)
    (small : 1 ≤ n ∧ n ≤ largeChunk) (returns : (h.kmalloc 0 n).isOk = true) (some : x.1 ≠ 0) :
    HeapRun pm links x.2 (Function.update live x.1 (Option.some n)) sets := by
  have bound : n < 2 ^ 63 := Nat.lt_of_le_of_lt small.2 (by decide)
  have done : h.kmalloc 0 n = .ok x := by
    rw [taken, took]
    exact Res.eq_value (0, h) returns
  obtain ⟨a, h'⟩ := x
  have next := run.kmalloc small.1 bound done fun big => absurd small.2 (Nat.not_le.mpr big)
  rwa [if_neg some] at next

theorem gave_run {x : Heap} {a n : Nat} (run : HeapRun pm links h live sets) (given : x = gave h a) (isLive : live a = some n)
    (returns : (h.kfree a).isOk = true) : HeapRun pm links x (Function.update live a none) sets := by
  rw [given, gave]
  exact run.kfree isLive (Res.eq_value h returns)

/-- The heap of the machine with four pages. -/
def heap₀ : Heap := slabBootstrap (initPageArray 0 4 ⟨id, id⟩ fun _ => 0) ⟨id, id⟩

def block₁ : Nat × Heap := took heap₀ 5000
def block₂ : Nat × Heap := took block₁.2 700
def heap₃ : Heap := gave block₂.2 block₁.1
def block₄ : Nat × Heap := took heap₃ 6000

/-- The addresses and sizes of the blocks, at the end of it. -/
def blocks : Nat → Option Nat :=
  Function.update (Function.update (Function.update (Function.update (fun _ => none) block₁.1 (some 5000)) block₂.1 (some 700))
    block₁.1 none) block₄.1 (some 6000)

/-- Two blocks are taken; the first one is given back, and its place is taken again. -/
theorem heapSafe_reused : block₁.1 = block₄.1 ∧ block₂.1 ≠ block₄.1 ∧
    HeapRun (initPageArray 0 4 ⟨id, id⟩ fun _ => 0) ⟨id, id⟩ block₄.2 blocks ∅ ∧ block₄.2.Safe blocks ∧
    ∃ h', block₄.2.kfree block₂.1 = .ok h' := by
  have start := PageMem.bootFree ⟨id, id⟩ fun _ => 0
  have size : (initPageArray 0 4 ⟨id, id⟩ fun _ => 0).nrPages < 2 ^ 64 := (by decide : 4 < 2 ^ 64)
  have apart : block₁.1 ≠ block₂.1 := by decide +kernel
  have again : block₁.1 = block₄.1 := by decide +kernel
  have run₀ : HeapRun (initPageArray 0 4 ⟨id, id⟩ fun _ => 0) ⟨id, id⟩ heap₀ _ _ := .bootstrap
  have run₁ := run₀.took_run (x := block₁) rfl (by decide) (by decide +kernel) (by decide +kernel)
  have run₂ := run₁.took_run (x := block₂) rfl (by decide) (by decide +kernel) (by decide +kernel)
  have live₁ : Function.update (Function.update (fun _ => none) block₁.1 (some 5000)) block₂.1 (some 700) block₁.1 = some 5000 := by
    rw [Function.update_of_ne apart]
    exact Function.update_self ..
  have run₃ := run₂.gave_run (x := heap₃) rfl live₁ (by decide +kernel)
  have run₄ : HeapRun _ _ block₄.2 blocks ∅ := run₃.took_run rfl (by decide) (by decide +kernel) (by decide +kernel)
  have live₂ : blocks block₂.1 = some 700 := by
    rw [blocks, ← again, Function.update_of_ne apart.symm, Function.update_of_ne apart.symm]
    exact Function.update_self ..
  obtain ⟨safe, -, -, freed⟩ := heapSafe start size run₄
  exact ⟨again, again ▸ apart.symm, run₄, safe, freed _ _ live₂⟩

end HeapRun

end Xv6
