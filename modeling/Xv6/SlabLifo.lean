import Xv6.SlabRuns

namespace Xv6

namespace Heap

/-- `slab_free` of several chunks, in this order. -/
def slabFrees (h : Heap) : List Nat → Res Heap
  | [] => .ok h
  | a :: ptrs => do (← h.slabFree a).slabFrees ptrs

/-- Several calls of `slab_alloc`. -/
def slabAllocs (h : Heap) : List Nat → Res (List Nat × Heap)
  | [] => .ok ([], h)
  | n :: sizes => do
    let (a, h) ← h.slabAlloc n
    let (ptrs, h) ← h.slabAllocs sizes
    .ok (a :: ptrs, h)

/-- `n` free indices, read off the chunks from the index `i` on. -/
def indicesFrom (m : ByteMem) (start size : Nat) : Nat → Int → List Int
  | 0, _ => []
  | n + 1, i => i :: indicesFrom m start size n (wordInt (m.load (start + i.toNat * size) 4))

/-- The chain of free indices of a slab. -/
def freeIndices (h : Heap) (p : Nat) : List Int :=
  let s := h.slab p
  indicesFrom h.pm.mem (h.pm.pageToKvaddr p) (h.kmcache s.cache).size s.count s.index

variable {h h' : Heap} {l : List Nat} {B : Slabs} {c x : Nat} {chain : List Nat}

theorem indicesFrom_eq {m : ByteMem} {start size : Nat} (stored : ChainAt m start size chain) (bound : ∀ i ∈ chain, i < 2 ^ 31) :
    indicesFrom m start size chain.length (chain.head?.elim (-1) Nat.cast) = chain.map Nat.cast := by
  induction chain with
  | nil => rfl
  | cons i rest ih =>
    obtain ⟨word, stored'⟩ := stored
    have bound' : ∀ j ∈ rest, j < 2 ^ 31 := fun j member => bound j (List.mem_cons_of_mem _ member)
    rw [List.length_cons, List.head?_cons, Option.elim_some, indicesFrom, Int.toNat_natCast, word, wordInt_chainWord bound',
      ih stored' bound', List.map_cons]

theorem SlabAt.freeIndices_eq (slab : SlabAt h c x chain) (sizes : ∀ c, (h.kmcache c).size = cacheSize c) :
    h.freeIndices x = chain.map Nat.cast := by
  have few := (cacheSize_bounds slab.known).2.2.2.2.1
  rw [freeIndices, slab.slab_eq]
  simp only [sizes]
  exact indicesFrom_eq slab.stored fun i member => by
    have bound := slab.bound i member
    omega

/-- The slabs with other free chunks of `x`. -/
def Slabs.rechain (B : Slabs) (x : Nat) (chain : List Nat) : Slabs := ⟨B.queue, Function.update B.chain x chain⟩

theorem Slabs.rechain_self (B : Slabs) (x : Nat) : B.rechain x (B.chain x) = B := by
  rw [rechain, Function.update_eq_self]

theorem Slabs.rechain_rechain (B : Slabs) (x : Nat) (chain chain' : List Nat) :
    (B.rechain x chain).rechain x chain' = B.rechain x chain' := by
  rw [rechain, rechain, rechain, Function.update_idem]

@[simp] theorem Slabs.rechain_chain (B : Slabs) (x : Nat) (chain : List Nat) : (B.rechain x chain).chain x = chain :=
  Function.update_self ..

/-- A chunk is given back to a slab that stays where it is. -/
theorem Kept.slabFree_push (kept : Kept h l B) {b : Bool} {i : Nat} (member : x ∈ B.queue (c, b)) (bound : i < capacity c)
    (absent : i ∉ B.chain x) (some : B.chain x ≠ []) (more : (B.chain x).length + 1 < capacity c) :
    ∃ h' l', h.slabFree (h.pm.pageToKvaddr x + i * cacheSize c) = .ok h' ∧ Kept h' l' (B.rechain x (i :: B.chain x)) ∧
      h.pm.SameGeometry h'.pm := by
  obtain ⟨h', l', run, kept', geometry, -, -⟩ := slabFree_spec kept member bound absent
  rw [Slabs.put, if_neg (Nat.ne_of_lt more), if_neg some] at kept'
  exact ⟨h', l', run, kept', geometry⟩

/-- The first free chunk of the first available slab is handed out, and is not the last one. -/
theorem Kept.slabAlloc_pop (kept : Kept h l B) {i n : Nat} {rest others : List Nat} (known : c < nrSlabOrders) (fits : Fits c n)
    (first : B.queue (c, true) = x :: others) (taken : B.chain x = i :: rest) (more : rest ≠ []) :
    ∃ h', h.slabAlloc n = .ok (h.pm.pageToKvaddr x + i * cacheSize c, h') ∧ Kept h' l (B.rechain x rest) ∧
      h.pm.SameGeometry h'.pm := by
  obtain ⟨h', run, kept', inside⟩ := kept.slabAlloc_take known fits (by rw [first]; rfl) taken
  rw [Slabs.take, if_neg more] at kept'
  exact ⟨h', run, kept', inside.lists.geometry⟩

/-- The chunks `is` of a slab go in front of its free ones, each in front of the one before. -/
theorem Kept.slabFrees_push (kept : Kept h l B) {b : Bool} {is : List Nat} (member : x ∈ B.queue (c, b))
    (bound : ∀ i ∈ is, i < capacity c) (absent : ∀ i ∈ is, i ∉ B.chain x) (nodup : is.Nodup) (some : B.chain x ≠ [])
    (more : (B.chain x).length + is.length < capacity c) :
    ∃ h' l', h.slabFrees (is.map fun i => h.pm.pageToKvaddr x + i * cacheSize c) = .ok h' ∧
      Kept h' l' (B.rechain x (is.reverse ++ B.chain x)) ∧ h.pm.SameGeometry h'.pm := by
  induction is generalizing h l B with
  | nil => exact ⟨h, l, rfl, by rw [List.reverse_nil, List.nil_append, B.rechain_self]; exact kept, .refl _⟩
  | cons i is ih =>
    obtain ⟨fresh, nodup'⟩ := List.nodup_cons.mp nodup
    rw [List.length_cons] at more
    obtain ⟨h₁, l₁, run₁, kept₁, geometry₁⟩ := kept.slabFree_push member (bound i (List.mem_cons_self ..))
      (absent i (List.mem_cons_self ..)) some (by omega)
    have absent₁ : ∀ j ∈ is, j ∉ (B.rechain x (i :: B.chain x)).chain x := by
      intro j later inside
      rw [B.rechain_chain] at inside
      rcases List.mem_cons.mp inside with rfl | old
      · exact fresh later
      · exact absent j (List.mem_cons_of_mem _ later) old
    obtain ⟨h', l', run', kept', geometry'⟩ := @ih h₁ l₁ (B.rechain x (i :: B.chain x)) kept₁ member
      (fun j later => bound j (List.mem_cons_of_mem _ later)) absent₁ nodup' (by simp)
      (by rw [B.rechain_chain, List.length_cons]; omega)
    rw [B.rechain_chain, B.rechain_rechain] at kept'
    refine ⟨h', l', ?_, by rw [List.reverse_cons, List.append_assoc]; exact kept', geometry₁.trans geometry'⟩
    simp only [geometry₁.kvaddr] at run'
    rw [List.map_cons, slabFrees, run₁, Res.ok_bind, run']

/-- They are handed out again from the front. -/
theorem Kept.slabAllocs_pop (kept : Kept h l B) {is sizes rest others : List Nat} (known : c < nrSlabOrders)
    (fits : ∀ n ∈ sizes, Fits c n) (many : sizes.length = is.length) (first : B.queue (c, true) = x :: others)
    (taken : B.chain x = is ++ rest) (more : rest ≠ []) :
    ∃ h', h.slabAllocs sizes = .ok (is.map fun i => h.pm.pageToKvaddr x + i * cacheSize c, h') ∧
      Kept h' l (B.rechain x rest) ∧ h.pm.SameGeometry h'.pm := by
  induction is generalizing h B sizes with
  | nil =>
    obtain rfl := List.length_eq_zero_iff.mp many
    rw [List.nil_append] at taken
    exact ⟨h, rfl, by rw [← taken, B.rechain_self]; exact kept, .refl _⟩
  | cons i is ih =>
    obtain ⟨n, sizes, rfl⟩ := List.exists_cons_of_length_eq_add_one many
    obtain ⟨h₁, run₁, kept₁, geometry₁⟩ := kept.slabAlloc_pop known (fits n (List.mem_cons_self ..)) first taken
      (by simp [more])
    obtain ⟨h', run', kept', geometry'⟩ := @ih h₁ (B.rechain x (is ++ rest)) kept₁ sizes
      (fun m later => fits m (List.mem_cons_of_mem _ later)) (by simpa using many) first (B.rechain_chain ..)
    rw [B.rechain_rechain] at kept'
    refine ⟨h', ?_, kept', geometry₁.trans geometry'⟩
    simp only [geometry₁.kvaddr] at run'
    rw [slabAllocs, run₁, Res.ok_bind]
    simp only [run', Res.ok_bind, List.map_cons]

end Heap

open Heap

namespace SlabRun

variable {pm : PageMem} {links : Links Nat} {l₀ : List Nat} {h : Heap} {live : Nat → Option Nat}

/-- The addresses of live chunks in a slab are those of places in it. -/
theorem Booked.places {l : List Nat} {B : Slabs} (booked : Booked pm l₀ h live l B) {c x : Nat} (holds : B.Holds c x)
    {ptrs : List Nat} (chunks : ∀ a ∈ ptrs, live a ≠ none ∧ h.pm.pageToKvaddr x ≤ a ∧ a < h.pm.pageToKvaddr x + 16384) :
    ∃ is : List Nat, ptrs = is.map (fun i => h.pm.pageToKvaddr x + i * cacheSize c) ∧ ∀ i ∈ is, B.Live c x i := by
  induction ptrs with
  | nil => exact ⟨[], rfl, nofun⟩
  | cons a ptrs ih =>
    obtain ⟨is, places, alive⟩ := ih fun b later => chunks b (List.mem_cons_of_mem _ later)
    obtain ⟨isLive, lower, upper⟩ := chunks a (List.mem_cons_self ..)
    obtain ⟨n, size⟩ := Option.ne_none_iff_exists'.mp isLive
    obtain ⟨d, y, i, -, chunk, address⟩ := booked.chunk a n size
    obtain ⟨-, -, -, -, -, whole⟩ := cacheSize_bounds (booked.known chunk.1)
    have inside : i * cacheSize d + cacheSize d ≤ capacity d * cacheSize d := by
      rw [← Nat.succ_mul]
      exact Nat.mul_le_mul_right _ chunk.2.1
    have positive := (cacheSize_bounds (booked.known chunk.1)).1
    obtain rfl : y = x := by
      rw [address, PageMem.pageToKvaddr_eq, PageMem.pageToKvaddr_eq] at lower
      rw [address, PageMem.pageToKvaddr_eq, PageMem.pageToKvaddr_eq] at upper
      omega
    obtain rfl : d = c := booked.kept.holds_unique chunk.1 holds
    refine ⟨i :: is, by rw [List.map_cons, ← places, address], fun j member => ?_⟩
    rcases List.mem_cons.mp member with rfl | later
    · exact chunk
    · exact alive j later

/-- Chunks of the first available slab that are given back are handed out again in the opposite order, and the slab is
as it was before. -/
theorem lifo (start : pm.FreeList l₀) (size : pm.nrPages < 2 ^ 64) (run : SlabRun pm links h live) {c x : Nat}
    (known : c < nrSlabOrders) (first : (h.kmcache c).avail = some x) {ptrs sizes : List Nat} (distinct : ptrs.Nodup)
    (chunks : ∀ a ∈ ptrs, live a ≠ none ∧ h.pm.pageToKvaddr x ≤ a ∧ a < h.pm.pageToKvaddr x + 16384)
    (stays : (h.slab x).count + ptrs.length < (h.slab x).capacity) (fits : ∀ n ∈ sizes, Fits c n)
    (many : sizes.length = ptrs.length) :
    ∃ h₁ h₂, h.slabFrees ptrs = .ok h₁ ∧ h₁.slabAllocs sizes = .ok (ptrs.reverse, h₂) ∧ h₂.slab x = h.slab x ∧
      h₂.freeIndices x = h.freeIndices x := by
  obtain ⟨l, B, booked⟩ := run.booked start size
  have kept := booked.kept
  have head : (B.queue (c, true)).head? = some x := (kept.queues.isQueue (c, true)).head.symm.trans first
  obtain ⟨others, queue⟩ : ∃ others, B.queue (c, true) = x :: others := List.head?_eq_some_iff.mp head
  have member : x ∈ B.queue (c, true) := queue ▸ List.mem_cons_self ..
  have slab := kept.slabs (c, true) x member
  have some : B.chain x ≠ [] := (kept.state (c, true) x member).mpr rfl
  obtain ⟨is, rfl, alive⟩ := booked.places ⟨true, member⟩ chunks
  rw [slab.slab_eq, List.length_map] at stays
  obtain ⟨h₁, l₁, freed, kept₁, geometry₁⟩ := kept.slabFrees_push member (fun i inside => (alive i inside).2.1)
    (fun i inside => (alive i inside).2.2) distinct.of_map some stays
  obtain ⟨h₂, taken, kept₂, geometry₂⟩ := kept₁.slabAllocs_pop known fits
    (show sizes.length = is.reverse.length by rw [many, List.length_map, List.length_reverse]) queue (B.rechain_chain ..) some
  rw [B.rechain_rechain, B.rechain_self] at kept₂
  have slab₂ := kept₂.slabs (c, true) x member
  simp only [geometry₁.kvaddr] at taken
  refine ⟨h₁, h₂, freed, by rw [← List.map_reverse]; exact taken, by rw [slab₂.slab_eq, slab.slab_eq], ?_⟩
  rw [slab₂.freeIndices_eq kept₂.sizes, slab.freeIndices_eq kept.sizes]

/-- A chunk for `n` bytes is taken. -/
def took (h : Heap) (n : Nat) : Nat × Heap := (h.slabAlloc n).value (0, h)

theorem took_run {y : Nat × Heap} {n : Nat} (run : SlabRun pm links h live) (taken : y = took h n)
    (small : 0 < n ∧ n % 8 = 0 ∧ n ≤ largeChunk) (returns : (h.slabAlloc n).isOk = true) (some : y.1 ≠ 0) :
    SlabRun pm links y.2 (Function.update live y.1 (Option.some n)) := by
  have done : h.slabAlloc n = .ok y := by
    rw [taken, took]
    exact Res.eq_value (0, h) returns
  obtain ⟨a, h'⟩ := y
  have next := run.alloc small.1 small.2.1 small.2.2 done
  rwa [if_neg some] at next

/-- Three chunks of one slab, on the machine with four pages. -/
def chunk₁ : Nat × Heap := took (slabBootstrap (initPageArray 0 4 ⟨id, id⟩ fun _ => 0) ⟨id, id⟩) 2048
def chunk₂ : Nat × Heap := took chunk₁.2 2000
def chunk₃ : Nat × Heap := took chunk₂.2 1800

/-- Two of the chunks are given back, and the one given back last is taken first. -/
theorem lifo_three : chunk₁.1 ≠ chunk₃.1 ∧ ∃ (h₁ h₂ : Heap), chunk₃.2.slabFrees [chunk₁.1, chunk₃.1] = .ok h₁ ∧
    h₁.slabAllocs [2048, 1600] = .ok ([chunk₃.1, chunk₁.1], h₂) ∧ h₂.slab 1 = chunk₃.2.slab 1 ∧
      h₂.freeIndices 1 = chunk₃.2.freeIndices 1 := by
  have start := PageMem.bootFree ⟨id, id⟩ fun _ => 0
  have size : (initPageArray 0 4 ⟨id, id⟩ fun _ => 0).nrPages < 2 ^ 64 := (by decide : 4 < 2 ^ 64)
  have run₀ : SlabRun (initPageArray 0 4 ⟨id, id⟩ fun _ => 0) ⟨id, id⟩ _ _ := .bootstrap
  have run₁ := run₀.took_run (y := chunk₁) rfl (by decide) (by decide +kernel) (by decide +kernel)
  have run₂ := run₁.took_run (y := chunk₂) rfl (by decide) (by decide +kernel) (by decide +kernel)
  have run₃ := run₂.took_run (y := chunk₃) rfl (by decide) (by decide +kernel) (by decide +kernel)
  have apart : chunk₁.1 ≠ chunk₃.1 ∧ chunk₁.1 ≠ chunk₂.1 := by decide +kernel
  have first : (chunk₃.2.kmcache 10).avail = some 1 := by decide +kernel
  have stays : (chunk₃.2.slab 1).count + [chunk₁.1, chunk₃.1].length < (chunk₃.2.slab 1).capacity := by decide +kernel
  have inside : ∀ a ∈ [chunk₁.1, chunk₃.1], chunk₃.2.pm.pageToKvaddr 1 ≤ a ∧ a < chunk₃.2.pm.pageToKvaddr 1 + 16384 := by
    decide +kernel
  have live : ∀ a ∈ [chunk₁.1, chunk₃.1], Function.update (Function.update (Function.update (fun _ => none) chunk₁.1
      (some 2048)) chunk₂.1 (some 2000)) chunk₃.1 (some 1800) a ≠ none := by
    intro a member
    rcases List.mem_pair.mp member with same | same
    · rw [same, Function.update_of_ne apart.1, Function.update_of_ne apart.2, Function.update_self]
      exact Option.some_ne_none 2048
    · rw [same, Function.update_self]
      exact Option.some_ne_none 1800
  have fits : ∀ n ∈ [2048, 1600], Fits 10 n := by
    intro n member
    rcases List.mem_pair.mp member with rfl | rfl <;> exact ⟨by decide, by decide⟩
  have distinct : [chunk₁.1, chunk₃.1].Nodup := by
    rw [List.nodup_cons, List.mem_singleton]
    exact ⟨apart.1, List.nodup_singleton _⟩
  exact ⟨apart.1, lifo start size run₃ (by decide) first distinct
    (fun a member => ⟨live a member, inside a member⟩) stays fits (by simp)⟩

end SlabRun

end Xv6
