import Xv6.SlabSpec

namespace Xv6

namespace PageMem

/-- Only the structure and the contents of page `d` changed. -/
structure Inside (s s' : PageMem) (d : Nat) : Prop where
  lists : SameLists s s'
  page : ∀ q, q ≠ d → s'.page q = s.page q
  count : (s'.page d).pageCount = (s.page d).pageCount
  mem : ∀ x, (x < s.pageToKvaddr d ∨ s.pageToKvaddr d + 16384 ≤ x) → s'.mem x = s.mem x

theorem Inside.trans {s s' s'' : PageMem} {d : Nat} (first : Inside s s' d) (second : Inside s' s'' d) :
    Inside s s'' d where
  lists := ⟨second.lists.link.trans first.lists.link, second.lists.free.trans first.lists.free,
    fun p => (second.lists.reserved p).trans (first.lists.reserved p), first.lists.geometry.trans second.lists.geometry⟩
  page q other := (second.page q other).trans (first.page q other)
  count := second.count.trans first.count
  mem x outside := (second.mem x (by rwa [first.lists.geometry.kvaddr])).trans (first.mem x outside)

theorem Inside.agree {s s' : PageMem} {d q : Nat} (inside : Inside s s' d) (other : q ≠ d) : s.Agree s' q := by
  refine ⟨inside.page q other, by rw [inside.lists.link]; exact Links.Same.refl _ _, fun x lower upper => inside.mem x ?_⟩
  rw [pageToKvaddr_eq] at lower upper ⊢
  omega

/-- The bytes of the other pages are the same. -/
theorem Inside.bytes {s s' : PageMem} {d q a : Nat} (inside : Inside s s' d) (other : q ≠ d) (here : s.InPage q a) :
    s'.mem a = s.mem a := by
  refine inside.mem a ?_
  obtain ⟨low, high⟩ := here
  rw [pageToKvaddr_eq] at low high ⊢
  omega

theorem Inside.single {s s' : PageMem} {d : Nat} (inside : Inside s s' d) (set : AllocSet s d [])
    (head : (s'.page d).type ≠ .tail) : AllocSet s' d [] where
  ring := by rw [inside.lists.link]; exact set.ring
  sorted := set.sorted
  reserved p member := by rw [inside.lists.reserved]; exact set.reserved p member
  bound p member := by rw [inside.lists.geometry.pages]; exact set.bound p member
  head := head
  count := inside.count.trans set.count
  tails := by simp

end PageMem

namespace Heap

section Moves

variable {h : Heap} {queue : Nat × Bool → List Nat} {c x : Nat}

theorem not_head (queues : h.slabLink.Queues h.head queue) {k : Nat × Bool} (absent : x ∉ queue k) :
    h.head k ≠ some x := by
  intro same
  have first := (queues.isQueue k).head
  rw [same] at first
  exact absent (List.mem_of_mem_head? first.symm)

/-- A new slab becomes available. -/
theorem queues_enter (queues : h.slabLink.Queues h.head queue) (cache : (h.slab x).cache = c)
    (absent : ∀ k, x ∉ queue k) (alone : h.slabLink.IsRing x []) :
    (h.setSlabAvailable x).slabLink.Queues (h.setSlabAvailable x).head
      (Function.update queue (c, true) (queue (c, true) ++ [x])) := by
  have kept : h.slabLink.headWithout (h.kmcache c).full x = (h.kmcache c).full := by
    have other : (h.kmcache c).full ≠ some x := not_head queues (absent (c, false))
    rw [Links.headWithout, if_neg other]
  have joined := (queues.unlink absent alone).join (k := (c, true)) absent (Links.delInit_ring _ _)
  rw [setSlabAvailable_eq h x cache, head_moveTo, kept]
  have heads : Function.update (Function.update h.head (c, true) (some ((h.kmcache c).avail.getD x))) (c, false)
      (h.kmcache c).full = Function.update h.head (c, true) (some ((h.head (c, true)).getD x)) := by
    rw [Function.update_comm (by simp)]
    congr 1
    exact Function.update_eq_self (c, false) h.head
  rw [heads]
  exact joined

/-- A slab that was full becomes available. -/
theorem queues_reopen (queues : h.slabLink.Queues h.head queue) (cache : (h.slab x).cache = c)
    (member : x ∈ queue (c, false)) :
    (h.setSlabAvailable x).slabLink.Queues (h.setSlabAvailable x).head
      (Links.moved queue (c, false) (c, true) x) := by
  have left := queues.leave member
  have absent : ∀ j, x ∉ Function.update queue (c, false) ((queue (c, false)).erase x) j := by
    intro j inside
    by_cases same : j = (c, false)
    · subst same
      rw [Function.update_self] at inside
      exact (queues.isQueue _).nodup.not_mem_erase inside
    · rw [Function.update_of_ne same] at inside
      exact same (queues.apart j _ x inside member)
  have joined := left.join (k := (c, true)) absent (Links.delInit_ring _ _)
  rw [setSlabAvailable_eq h x cache, head_moveTo, Function.update_comm (by simp)]
  simp only [ne_eq, Prod.mk.injEq, reduceCtorEq, and_false, not_false_eq_true, Function.update_of_ne] at joined
  exact joined

/-- A slab that was available becomes full. -/
theorem queues_close (queues : h.slabLink.Queues h.head queue) (cache : (h.slab x).cache = c)
    (member : x ∈ queue (c, true)) :
    (h.setSlabFull x).slabLink.Queues (h.setSlabFull x).head
      (Links.moved queue (c, true) (c, false) x) := by
  have left := queues.leave member
  have absent : ∀ j, x ∉ Function.update queue (c, true) ((queue (c, true)).erase x) j := by
    intro j inside
    by_cases same : j = (c, true)
    · subst same
      rw [Function.update_self] at inside
      exact (queues.isQueue _).nodup.not_mem_erase inside
    · rw [Function.update_of_ne same] at inside
      exact same (queues.apart j _ x inside member)
  have joined := left.join (k := (c, false)) absent (Links.delInit_ring _ _)
  rw [setSlabFull_eq h x cache, head_moveTo]
  simp only [ne_eq, Prod.mk.injEq, reduceCtorEq, and_false, not_false_eq_true, Function.update_of_ne] at joined
  exact joined

/-- An available slab without live chunks leaves the heap. -/
theorem queues_drop (queues : h.slabLink.Queues h.head queue) (cache : (h.slab x).cache = c)
    (member : x ∈ queue (c, true)) :
    ∃ h', h.setSlabEmpty x = .ok h' ∧ h'.pm = h.pm ∧ h'.lastAccessed = h.lastAccessed ∧
      (∀ d, (h'.kmcache d).size = (h.kmcache d).size) ∧
      h'.slabLink.Queues h'.head (Function.update queue (c, true) ((queue (c, true)).erase x)) := by
  have left := queues.leave member
  have outFull : x ∉ queue (c, false) := fun there => by
    have same := queues.apart _ _ x member there
    simp at same
  have notFull : (h.kmcache c).full ≠ some x := not_head queues outFull
  refine ⟨_, setSlabEmpty_eq h x cache notFull, rfl, rfl, ?_, ?_⟩
  · intro d
    by_cases same : d = c
    · subst same
      simp [moveTo]
    · simp [moveTo, same]
  · rw [head_moveTo, Function.update_comm (by simp)]
    have heads : Function.update h.head (c, false) (h.kmcache c).full = h.head :=
      Function.update_eq_self (c, false) h.head
    rw [heads]
    exact left

end Moves

/-- `fill_slab` chains the chunks in their order. -/
theorem fillChunks_spec (start : Nat) {size cap : Nat} (size_pos : 4 ≤ size) (small : cap < 2 ^ 32) {n i : Nat} {m : ByteMem}
    (whole : i + n = cap) :
    ChainAt (fillChunks size cap n i (start + i * size) m) start size (List.range' i n) ∧
      ∀ x, (x < start + i * size ∨ start + cap * size ≤ x) →
        fillChunks size cap n i (start + i * size) m x = m x := by
  induction n generalizing i m with
  | zero => exact ⟨trivial, fun _ _ => rfl⟩
  | succ n ih =>
    have next : start + i * size + size = start + (i + 1) * size := by
      rw [Nat.succ_mul]
      omega
    have last : (i + 1) * size ≤ cap * size := Nat.mul_le_mul_right _ (by omega)
    rw [Nat.succ_mul] at last
    obtain ⟨stored, frame⟩ := ih (i := i + 1)
      (m := m.store (start + i * size) 4 (if i = cap - 1 then indexInvalid else i + 1)) (by omega)
    rw [fillChunks, next]
    refine ⟨⟨?_, stored⟩, ?_⟩
    · have word : (if i = cap - 1 then indexInvalid else i + 1) = chainWord (List.range' (i + 1) n) := by
        cases n with
        | zero => rw [if_pos (by omega)]; rfl
        | succ n => rw [if_neg (by omega)]; rfl
      have fits : (if i = cap - 1 then indexInvalid else i + 1) < 256 ^ 4 := by
        split
        · decide
        · omega
      rw [ByteMem.load_congr fun x lower upper => frame x (.inl (by rw [Nat.succ_mul]; omega)),
        ByteMem.load_store fits, word]
    · intro x outside
      rw [frame x (by rw [Nat.succ_mul]; omega), ByteMem.store_outside (by omega)]

/-- The heap after an operation on the slab `x`, whatever happened to its page. -/
theorem Kept.renew {h h' : Heap} {l l' chain : List Nat} {B : Slabs} {queue : Nat × Bool → List Nat} {x : Nat}
    (kept : Kept h l B) (free : h'.pm.FreeList l') (geometry : h.pm.SameGeometry h'.pm)
    (sizes : ∀ c, (h'.kmcache c).size = (h.kmcache c).size) (last : ∀ c, h'.lastAccessed = some c → c < nrSlabOrders)
    (queues : h'.slabLink.Queues h'.head queue) (old : ∀ k p, p ∈ queue k → p ≠ x → p ∈ B.queue k)
    (agree : ∀ k p, p ∈ B.queue k → p ≠ x → h.pm.Agree h'.pm p)
    (new : ∀ k, x ∈ queue k → SlabAt h' k.1 x chain ∧ (chain ≠ [] ↔ k.2 = true)) :
    Kept h' l' ⟨queue, Function.update B.chain x chain⟩ where
  free := free
  small := by rw [geometry.pages]; exact kept.small
  sizes c := (sizes c).trans (kept.sizes c)
  last := last
  queues := queues
  slabs k p member := by
    show SlabAt h' k.1 p (Function.update B.chain x chain p)
    by_cases same : p = x
    · subst same
      rw [Function.update_self]
      exact (new k member).1
    · rw [Function.update_of_ne same]
      exact (kept.slabs k p (old k p member same)).frame geometry (agree k p (old k p member same) same)
  state k p member := by
    show Function.update B.chain x chain p ≠ [] ↔ k.2 = true
    by_cases same : p = x
    · subst same
      rw [Function.update_self]
      exact (new k member).2
    · rw [Function.update_of_ne same]
      exact kept.state k p (old k p member same)

/-- The two queue operations touch the links and the heads only. -/
structure SameBut (h h' : Heap) : Prop where
  pm : h'.pm = h.pm
  last : h'.lastAccessed = h.lastAccessed
  sizes : ∀ c, (h'.kmcache c).size = (h.kmcache c).size

theorem sameBut_moveTo (h : Heap) (c : Nat) (links : Links Nat) (avail full : Option Nat) :
    SameBut h (h.moveTo c links avail full) := by
  refine ⟨rfl, rfl, fun d => ?_⟩
  by_cases same : d = c
  · subst same
    simp [moveTo]
  · simp [moveTo, same]

theorem sameBut_available (h : Heap) (x : Nat) : SameBut h (h.setSlabAvailable x) := by
  rw [setSlabAvailable_eq h x rfl]
  exact sameBut_moveTo ..

theorem sameBut_full (h : Heap) (x : Nat) : SameBut h (h.setSlabFull x) := by
  rw [setSlabFull_eq h x rfl]
  exact sameBut_moveTo ..

/-- Writing the type or the extra data of a page. -/
theorem setPage_inside (pm : PageMem) (x : Nat) (v : Page) (reserved : v.reserved = (pm.page x).reserved)
    (count : v.pageCount = (pm.page x).pageCount) : pm.Inside (pm.setPage x v) x where
  lists := by
    refine ⟨rfl, rfl, fun p => ?_, ⟨rfl, rfl⟩⟩
    by_cases same : p = x
    · subst same
      simpa [PageMem.setPage] using reserved
    · simp [PageMem.setPage, same]
  page q other := by simp [PageMem.setPage, other]
  count := by simpa [PageMem.setPage] using count
  mem _ _ := rfl

theorem setSlab_inside (h : Heap) (x : Nat) (s : KmemSlab) : h.pm.Inside (h.setSlab x s).pm x :=
  setPage_inside _ _ _ rfl rfl

@[simp] theorem setSlab_slab (h : Heap) (x : Nat) (s : KmemSlab) : (h.setSlab x s).slab x = s := by
  simp [setSlab, PageMem.setPage, Heap.slab]

/-- Writing inside of the page `x` only. -/
theorem mem_inside (pm : PageMem) (m : ByteMem) (x : Nat)
    (same : ∀ a, (a < pm.pageToKvaddr x ∨ pm.pageToKvaddr x + 16384 ≤ a) → m a = pm.mem a) :
    pm.Inside { pm with mem := m } x where
  lists := ⟨rfl, rfl, fun _ => rfl, ⟨rfl, rfl⟩⟩
  page _ _ := rfl
  count := rfl
  mem := same

/-- A page from the free list becomes a slab with all of its chunks free. -/
theorem slabNew_spec {h : Heap} {rest : List Nat} {B : Slabs} {c x : Nat} (kept : Kept h (x :: rest) B)
    (known : c < nrSlabOrders) (empty : B.queue (c, true) = []) :
    ∃ h', h.slabNew c = .ok (some x, h') ∧
      Kept h' rest ⟨Function.update B.queue (c, true) [x], Function.update B.chain x (List.range (capacity c))⟩ ∧
      h'.lastAccessed = h.lastAccessed ∧ h.pm.SameGeometry h'.pm ∧ (∀ q, q ∉ x :: rest → h.pm.Agree h'.pm q) ∧
      ∀ q, q ≠ x → ∀ a, h.pm.InPage q a → h'.pm.mem a = h.pm.mem a := by
  obtain ⟨pm, run, free, set, -, geometry, memory, agree⟩ := PageMem.allocPage_spec kept.free
  obtain ⟨eight, -, -, two, short, whole⟩ := cacheSize_bounds known
  have absent : ∀ k, x ∉ B.queue k := fun k member => kept.not_free member (by simp)
  have one : (pm.setType x .slab).pageCount x = 1 := by
    simp [PageMem.pageCount, PageMem.firstPage, PageMem.isTail, PageMem.setType, PageMem.setPage, set.count]
  have chunks : pgsize * 1 / cacheSize c % 2 ^ 32 = capacity c := Nat.mod_eq_of_lt (by
    show capacity c < 2 ^ 32
    omega)
  obtain ⟨h₁, def₁⟩ : ∃ h₁ : Heap, h₁ = { h with pm := pm.setType x .slab, slabLink := h.slabLink.init x } := ⟨_, rfl⟩
  obtain ⟨h₂, def₂⟩ : ∃ h₂, h₂ = h₁.setSlab x ⟨c, 0, capacity c, capacity c⟩ := ⟨_, rfl⟩
  have slab₂ : h₂.slab x = ⟨c, 0, capacity c, capacity c⟩ := by rw [def₂, setSlab_slab]
  have same := sameBut_available h₂ x
  obtain ⟨m, filled⟩ : ∃ m, m = fillChunks (cacheSize c) (capacity c) (capacity c) 0 (h₂.pm.pageToKvaddr x) h₂.pm.mem :=
    ⟨_, rfl⟩
  have fill := fillChunks_spec (h₂.pm.pageToKvaddr x) (m := h₂.pm.mem) (i := 0) (by omega : 4 ≤ cacheSize c)
    (by omega : capacity c < 2 ^ 32) (Nat.zero_add (capacity c))
  rw [Nat.zero_mul, Nat.add_zero, ← filled] at fill
  obtain ⟨stored, outside⟩ := fill
  have inside₁ : pm.Inside h₁.pm x := by
    rw [def₁]
    exact setPage_inside _ _ _ rfl rfl
  have inside : pm.Inside { h₂.pm with mem := m } x := by
    have second : h₁.pm.Inside h₂.pm x := by
      rw [def₂]
      exact setSlab_inside ..
    exact (inside₁.trans second).trans (mem_inside _ m x fun a away => outside a (by omega))
  have page₂ : h₂.pm.page x = { pm.page x with type := .slab, extra := .slab ⟨c, 0, capacity c, capacity c⟩ } := by
    rw [def₂, def₁]
    simp [setSlab, PageMem.setType, PageMem.setPage]
  have whole : h.pm.SameGeometry ({ h₂.pm with mem := m } : PageMem) := geometry.trans inside.lists.geometry
  have others : ∀ q, q ∉ x :: rest → h.pm.Agree ({ h₂.pm with mem := m } : PageMem) q := fun q out =>
    (agree q out).trans geometry (inside.agree fun same => out (by simp [same]))
  have bytes : ∀ q, q ≠ x → ∀ a, h.pm.InPage q a → m a = h.pm.mem a := by
    intro q other a here
    rw [← memory]
    refine inside.bytes other ?_
    rwa [PageMem.InPage, geometry.kvaddr]
  refine ⟨{ h₂.setSlabAvailable x with pm := { h₂.pm with mem := m } }, ?_, ?_, ?_, whole, others, bytes⟩
  · rw [slabNew, run]
    simp only [Res.ok_bind, one, kept.sizes, chunks]
    rw [← def₁, ← def₂, fillSlab, same.pm, ← filled]
  · have queues := queues_enter (h := h₂) (c := c) (x := x) (by
      rw [def₂, def₁]
      exact kept.queues.init absent) (by rw [slab₂]) absent (by
      rw [def₂, def₁]
      exact Links.init_ring _ _)
    rw [empty, List.nil_append] at queues
    refine kept.renew (inside.lists.freeList free) whole ?_ ?_ queues ?_ ?_ ?_
    · intro d
      refine (same.sizes d).trans ?_
      rw [def₂, def₁]
      rfl
    · intro d last
      refine kept.last d ?_
      rw [← last]
      show h.lastAccessed = (h₂.setSlabAvailable x).lastAccessed
      rw [same.last, def₂, def₁]
      rfl
    · intro k p member other
      by_cases here : k = (c, true)
      · subst here
        rw [Function.update_self] at member
        exact absurd (List.mem_singleton.mp member) other
      · rwa [Function.update_of_ne here] at member
    · intro k p member other
      exact others p fun inList => kept.not_free member inList
    · intro k member
      have here : k = (c, true) := by
        by_contra there
        rw [Function.update_of_ne there] at member
        exact absent k member
      subst here
      have head : (List.range (capacity c)).head? = some 0 := by
        rw [List.head?_range, if_neg (by omega)]
      refine ⟨⟨known, inside.single set ?_, ?_, ?_, List.nodup_range, fun i => List.mem_range.mp, ?_⟩, ?_⟩
      · rw [page₂]
        simp
      · rw [page₂]
      · rw [page₂, head, List.length_range]
        rfl
      · rw [← List.range_eq_range'] at stored
        exact stored
      · simp only [iff_true]
        intro none
        rw [none] at head
        cases head
  · show (h₂.setSlabAvailable x).lastAccessed = h.lastAccessed
    rw [same.last, def₂, def₁]
    rfl

/-- The heads are part of the caches. Not by `rfl`, which would compare the pages. -/
theorem head_congr {h h' : Heap} (same : h'.kmcache = h.kmcache) : h'.head = h.head := by
  funext k
  rw [head, head, same]

theorem wordInt_chainWord {chain : List Nat} (bound : ∀ i ∈ chain, i < 2 ^ 31) :
    wordInt (chainWord chain) = chain.head?.elim (-1) Nat.cast := by
  cases chain with
  | nil => rfl
  | cons i rest =>
    have small : i < 2 ^ 31 := bound i (List.mem_cons_self ..)
    rw [chainWord, wordInt, if_pos small]
    rfl

theorem intWord_chain {chain : List Nat} (bound : ∀ i ∈ chain, i < 2 ^ 32) :
    intWord (chain.head?.elim (-1) Nat.cast) = chainWord chain := by
  cases chain with
  | nil => rfl
  | cons i rest =>
    have small : i < 2 ^ 32 := bound i (List.mem_cons_self ..)
    show (((i : Int) % 2 ^ 32).toNat) = i
    omega

/-- The slabs after the first free chunk of `x` was taken. -/
def Slabs.take (B : Slabs) (c x : Nat) (rest : List Nat) : Slabs :=
  ⟨if rest = [] then Links.moved B.queue (c, true) (c, false) x else B.queue, Function.update B.chain x rest⟩

theorem takeChunk_spec {h : Heap} {l rest : List Nat} {B : Slabs} {c x i n : Nat} (kept : Kept h l B)
    (member : x ∈ B.queue (c, true)) (chain : B.chain x = i :: rest) (fits : n ≤ cacheSize c) :
    ∃ h', h.takeChunk x c n = .ok (h.pm.pageToKvaddr x + i * cacheSize c, h') ∧ Kept h' l (B.take c x rest) ∧
      h'.lastAccessed = h.lastAccessed ∧ h.pm.Inside h'.pm x := by
  have slab : SlabAt h c x (B.chain x) := kept.slabs (c, true) x member
  rw [chain] at slab
  obtain ⟨eight, -, -, two, short, whole⟩ := cacheSize_bounds slab.known
  have bound : ∀ j ∈ i :: rest, j < capacity c := slab.bound
  have value : h.slab x = ⟨c, (i : Int), rest.length + 1, capacity c⟩ := slab.slab_eq
  have length : (i :: rest).length ≤ capacity c := by
    have sub : (i :: rest).Subperm (List.range (capacity c)) :=
      List.subperm_of_subset slab.nodup fun j inside => List.mem_range.mpr (bound j inside)
    simpa using sub.length_le
  rw [List.length_cons] at length
  have stored := slab.stored
  have word : wordInt (h.pm.mem.load (h.pm.pageToKvaddr x + i * cacheSize c) 4) = rest.head?.elim (-1) Nat.cast := by
    rw [stored.1]
    exact wordInt_chainWord fun j inside => by
      have := bound j (List.mem_cons_of_mem _ inside)
      omega
  have count : (rest.length + 1 + 2 ^ 32 - 1) % 2 ^ 32 = rest.length := by omega
  obtain ⟨h₁, def₁⟩ : ∃ h₁, h₁ = h.setSlab x ⟨c, rest.head?.elim (-1) Nat.cast, rest.length, capacity c⟩ := ⟨_, rfl⟩
  have slab₁ : h₁.slab x = ⟨c, rest.head?.elim (-1) Nat.cast, rest.length, capacity c⟩ := by rw [def₁, setSlab_slab]
  obtain ⟨h₂, def₂⟩ : ∃ h₂, h₂ = if rest.length = 0 then h₁.setSlabFull x else h₁ := ⟨_, rfl⟩
  have same : SameBut h₁ h₂ := by
    rw [def₂]
    split
    · exact sameBut_full ..
    · exact ⟨rfl, rfl, fun _ => rfl⟩
  have run : h.takeChunk x c n = .ok (h.pm.pageToKvaddr x + i * cacheSize c,
      { h₂ with pm := { h₂.pm with mem := h₂.pm.mem.fill (h.pm.pageToKvaddr x + i * cacheSize c) n 0x02 } }) := by
    have known : ¬ ((i : Int) < 0) := by omega
    simp only [takeChunk, value, known, if_false, kept.sizes, Int.toNat_natCast, word, count]
    rw [← def₁, ← def₂]
  have address : h₂.pm.pageToKvaddr x = h.pm.pageToKvaddr x := by
    rw [same.pm, def₁]
    exact (setSlab_inside h x _).lists.geometry.kvaddr x
  have chunk := chunk_fits slab.known (bound i (List.mem_cons_self ..))
  have inside₁ : h.pm.Inside h₂.pm x := by
    rw [same.pm, def₁]
    exact setSlab_inside ..
  have inside : h.pm.Inside
      { h₂.pm with mem := h₂.pm.mem.fill (h.pm.pageToKvaddr x + i * cacheSize c) n 0x02 } x :=
    inside₁.trans (mem_inside _ _ x fun a away => ByteMem.fill_outside (by rw [address] at away; omega))
  have page : h₂.pm.page x = { h.pm.page x with
      extra := .slab ⟨c, rest.head?.elim (-1) Nat.cast, rest.length, capacity c⟩ } := by
    rw [same.pm, def₁]
    simp [setSlab, PageMem.setPage]
  have memory : h₂.pm.mem = h.pm.mem := by
    rw [same.pm, def₁]
    rfl
  have taken : SlabAt { h₂ with pm := { h₂.pm with
      mem := h₂.pm.mem.fill (h.pm.pageToKvaddr x + i * cacheSize c) n 0x02 } } c x rest := by
    refine ⟨slab.known, inside.single slab.set ?_, ?_, ?_, (List.nodup_cons.mp slab.nodup).2,
      fun j later => bound j (List.mem_cons_of_mem _ later), ?_⟩
    · rw [page]
      exact slab.set.head
    · rw [page]
      exact slab.type
    · rw [page]
    · rw [inside.lists.geometry.kvaddr]
      refine stored.2.outside (by omega) (List.nodup_cons.mp slab.nodup).1 fun a away => ?_
      show h₂.pm.mem.fill _ _ _ a = _
      rw [ByteMem.fill_outside (by omega), memory]
  obtain ⟨h₃, def₃⟩ : ∃ h₃ : Heap, h₃ = { h₂ with pm := { h₂.pm with
      mem := h₂.pm.mem.fill (h.pm.pageToKvaddr x + i * cacheSize c) n 0x02 } } := ⟨_, rfl⟩
  have pm₃ : h₃.pm = { h₂.pm with mem := h₂.pm.mem.fill (h.pm.pageToKvaddr x + i * cacheSize c) n 0x02 } := by
    rw [def₃]
  rw [← def₃] at run taken
  rw [← pm₃] at inside
  have sizes : ∀ d, (h₃.kmcache d).size = (h.kmcache d).size := by
    intro d
    rw [def₃]
    refine (same.sizes d).trans ?_
    rw [def₁]
    rfl
  have last : h₃.lastAccessed = h.lastAccessed := by
    rw [def₃]
    refine same.last.trans ?_
    rw [def₁]
    rfl
  have links₃ : h₃.slabLink = h₂.slabLink := by rw [def₃]
  have head₃ : h₃.head = h₂.head := head_congr (by rw [def₃])
  have queues₁ : h₁.slabLink.Queues h₁.head B.queue := by
    have links : h₁.slabLink = h.slabLink := by
      rw [def₁]
      rfl
    have heads : h₁.head = h.head := head_congr (by
      rw [def₁]
      rfl)
    rw [links, heads]
    exact kept.queues
  have lasts : ∀ d, h₃.lastAccessed = some d → d < nrSlabOrders := fun d eq => kept.last d (last.symm.trans eq)
  refine ⟨h₃, run, ?_, last, inside⟩
  rw [Slabs.take]
  by_cases none : rest = []
  · have closed := queues_close queues₁ (by rw [slab₁]) member
    have zero : rest.length = 0 := by rw [none, List.length_nil]
    rw [if_pos zero] at def₂
    rw [← def₂, ← links₃, ← head₃] at closed
    rw [if_pos none]
    have apart : ∀ k p, p ∈ Links.moved B.queue (c, true) (c, false) x k ↔
        (p ≠ x ∧ p ∈ B.queue k) ∨ (p = x ∧ k = (c, false)) := fun k p => kept.queues.mem_moved member (by simp)
    refine kept.renew (inside.lists.freeList kept.free) inside.lists.geometry sizes lasts closed ?_
      (fun k p _ other => inside.agree other) ?_
    · intro k p here other
      rcases (apart k p).mp here with ⟨-, old⟩ | ⟨same, -⟩
      · exact old
      · exact absurd same other
    · intro k here
      rcases (apart k x).mp here with ⟨other, -⟩ | ⟨-, rfl⟩
      · exact absurd rfl other
      · exact ⟨taken, by simp [none]⟩
  · have more : rest.length ≠ 0 := fun zero => none (List.eq_nil_of_length_eq_zero zero)
    rw [if_neg more] at def₂
    rw [← def₂, ← links₃, ← head₃] at queues₁
    rw [if_neg none]
    refine kept.renew (inside.lists.freeList kept.free) inside.lists.geometry sizes lasts queues₁
      (fun k p here _ => here) (fun k p _ other => inside.agree other) ?_
    intro k here
    obtain rfl := kept.queues.apart k _ x here member
    exact ⟨taken, by simp [none]⟩

theorem slab_congr {h h' : Heap} (same : h'.pm = h.pm) (x : Nat) : h'.slab x = h.slab x := by
  rw [Heap.slab, Heap.slab, same]

/-- The chunk goes in front of the free ones; nothing else changes. -/
theorem putChunk_spec {h : Heap} {c x i : Nat} {chain : List Nat} (sizes : ∀ d, (h.kmcache d).size = cacheSize d)
    (slab : SlabAt h c x chain) (bound : i < capacity c) (absent : i ∉ chain) :
    h.pm.Inside (h.putChunk x i).pm x ∧ (h.putChunk x i).slab x = ⟨c, i, chain.length, capacity c⟩ ∧
      (h.putChunk x i).kmcache = h.kmcache ∧ (h.putChunk x i).slabLink = h.slabLink ∧
      (h.putChunk x i).lastAccessed = h.lastAccessed ∧ ((h.putChunk x i).pm.page x).type = .slab ∧
      ChainAt (h.putChunk x i).pm.mem (h.pm.pageToKvaddr x) (cacheSize c) (i :: chain) := by
  obtain ⟨eight, -, -, two, short, whole⟩ := cacheSize_bounds slab.known
  have chunk := chunk_fits slab.known bound
  have small : ∀ j ∈ chain, j < 2 ^ 32 := fun j member => by
    have := slab.bound j member
    omega
  have form : h.putChunk x i = ({ h with pm := { h.pm with
      mem := h.pm.mem.store (h.pm.pageToKvaddr x + i * cacheSize c) 4 (chainWord chain) } } : Heap).setSlab x
      ⟨c, i, chain.length, capacity c⟩ := by
    simp only [putChunk, slab.slab_eq, sizes, intWord_chain small, Nat.mul_comm (cacheSize c) i]
  have stored := slab.stored.push (by omega : 4 ≤ cacheSize c) absent small
  have inside := mem_inside h.pm (h.pm.mem.store (h.pm.pageToKvaddr x + i * cacheSize c) 4 (chainWord chain)) x
    fun a away => ByteMem.store_outside (by omega)
  obtain ⟨h₀, def₀⟩ : ∃ h₀ : Heap, h₀ = { h with pm := { h.pm with
      mem := h.pm.mem.store (h.pm.pageToKvaddr x + i * cacheSize c) 4 (chainWord chain) } } := ⟨_, rfl⟩
  rw [← def₀] at form
  have pm₀ : h₀.pm = { h.pm with
      mem := h.pm.mem.store (h.pm.pageToKvaddr x + i * cacheSize c) 4 (chainWord chain) } := by rw [def₀]
  rw [← pm₀] at inside
  have page₀ : h₀.pm.page x = h.pm.page x := by rw [pm₀]
  have mem₀ : (h.putChunk x i).pm.mem =
      h.pm.mem.store (h.pm.pageToKvaddr x + i * cacheSize c) 4 (chainWord chain) := by
    rw [form, setSlab, PageMem.setPage, pm₀]
  refine ⟨?_, ?_, ?_, ?_, ?_, ?_, ?_⟩
  · rw [form]
    exact inside.trans (setSlab_inside h₀ x _)
  · rw [form, setSlab_slab]
  · rw [form, setSlab, def₀]
  · rw [form, setSlab, def₀]
  · rw [form, setSlab, def₀]
  · rw [form, setSlab, PageMem.setPage]
    simpa [page₀] using slab.type
  · rw [mem₀]
    exact stored

/-- The slabs after the chunk `i` of `x` was given back. -/
def Slabs.put (B : Slabs) (c x i : Nat) : Slabs :=
  ⟨if (B.chain x).length + 1 = capacity c then Function.update B.queue (c, true) ((B.queue (c, true)).erase x)
    else if B.chain x = [] then Links.moved B.queue (c, false) (c, true) x else B.queue,
    Function.update B.chain x (i :: B.chain x)⟩

/-- The part of `slab_free` before the slab may be given back. -/
def freeChunk (h : Heap) (x i : Nat) : Heap :=
  let h := h.putChunk x i
  let h := if (h.slab x).count = 0 then h.setSlabAvailable x else h
  h.setSlab x { h.slab x with count := ((h.slab x).count + 1) % 2 ^ 32 }

/-- The slab is available, with one more free chunk. -/
theorem freeChunk_spec {h : Heap} {l : List Nat} {B : Slabs} {c x i : Nat} {b : Bool} (kept : Kept h l B)
    (member : x ∈ B.queue (c, b)) (bound : i < capacity c) (absent : i ∉ B.chain x) :
    h.pm.Inside (h.freeChunk x i).pm x ∧ SlabAt (h.freeChunk x i) c x (i :: B.chain x) ∧
      (∀ d, ((h.freeChunk x i).kmcache d).size = (h.kmcache d).size) ∧
      (h.freeChunk x i).lastAccessed = h.lastAccessed ∧
      (h.freeChunk x i).slabLink.Queues (h.freeChunk x i).head
        (if B.chain x = [] then Links.moved B.queue (c, false) (c, true) x else B.queue) := by
  have slab : SlabAt h c x (B.chain x) := kept.slabs (c, b) x member
  obtain ⟨inside₁, value₁, caches₁, links₁, last₁, type₁, stored₁⟩ := putChunk_spec kept.sizes slab bound absent
  obtain ⟨h₁, def₁⟩ : ∃ h₁, h₁ = h.putChunk x i := ⟨_, rfl⟩
  rw [← def₁] at inside₁ value₁ caches₁ links₁ last₁ type₁ stored₁
  have queues₁ : h₁.slabLink.Queues h₁.head B.queue := by
    rw [links₁, head_congr caches₁]
    exact kept.queues
  obtain ⟨h₂, def₂⟩ : ∃ h₂, h₂ = if (B.chain x).length = 0 then h₁.setSlabAvailable x else h₁ := ⟨_, rfl⟩
  have same : SameBut h₁ h₂ := by
    rw [def₂]
    split
    · exact sameBut_available ..
    · exact ⟨rfl, rfl, fun _ => rfl⟩
  have value₂ : h₂.slab x = ⟨c, i, (B.chain x).length, capacity c⟩ := by
    rw [slab_congr same.pm, value₁]
  have length : ((B.chain x).length + 1) % 2 ^ 32 = (B.chain x).length + 1 := by
    have sub : (B.chain x).Subperm (List.range (capacity c)) :=
      List.subperm_of_subset slab.nodup fun j inside => List.mem_range.mpr (slab.bound j inside)
    have le := sub.length_le
    have short := (cacheSize_bounds slab.known).2.2.2.2.1
    rw [List.length_range] at le
    omega
  obtain ⟨h₃, def₃⟩ : ∃ h₃, h₃ = h₂.setSlab x ⟨c, i, (B.chain x).length + 1, capacity c⟩ := ⟨_, rfl⟩
  have form : h.freeChunk x i = h₃ := by
    simp only [freeChunk]
    rw [← def₁]
    simp only [value₁]
    rw [← def₂, value₂, def₃]
    simp only [length]
  have queues₂ : h₂.slabLink.Queues h₂.head
      (if B.chain x = [] then Links.moved B.queue (c, false) (c, true) x else B.queue) := by
    by_cases none : B.chain x = []
    · have zero : (B.chain x).length = 0 := by rw [none, List.length_nil]
      have closed : b = false := by
        by_contra opened
        exact (kept.state (c, b) x member).mpr (by simpa using opened) none
      rw [if_pos zero] at def₂
      rw [if_pos none, def₂]
      exact queues_reopen queues₁ (by rw [value₁]) (closed ▸ member)
    · have more : (B.chain x).length ≠ 0 := fun zero => none (List.eq_nil_of_length_eq_zero zero)
      rw [if_neg more] at def₂
      rw [if_neg none, def₂]
      exact queues₁
  have inside : h.pm.Inside h₃.pm x := by
    rw [def₃]
    have second := setSlab_inside h₂ x ⟨c, i, (B.chain x).length + 1, capacity c⟩
    rw [same.pm] at second
    exact inside₁.trans second
  have page : h₃.pm.page x = { h₁.pm.page x with extra := .slab ⟨c, i, (B.chain x).length + 1, capacity c⟩ } := by
    rw [def₃, setSlab, PageMem.setPage, same.pm]
    simp
  have memory : h₃.pm.mem = h₁.pm.mem := by
    rw [def₃, setSlab, PageMem.setPage, same.pm]
  rw [form]
  refine ⟨inside, ⟨slab.known, inside.single slab.set ?_, ?_, ?_, List.nodup_cons.mpr ⟨absent, slab.nodup⟩, ?_, ?_⟩,
    ?_, ?_, ?_⟩
  · rw [page]
    simp [type₁]
  · rw [page]
    exact type₁
  · rw [page]
    rfl
  · intro j here
    rcases List.mem_cons.mp here with rfl | old
    · exact bound
    · exact slab.bound j old
  · rw [inside.lists.geometry.kvaddr, memory]
    exact stored₁
  · intro d
    rw [def₃, setSlab, same.sizes, caches₁]
  · rw [def₃, setSlab, same.last, last₁]
  · have links₃ : h₃.slabLink = h₂.slabLink := by rw [def₃, setSlab]
    have heads₃ : h₃.head = h₂.head := head_congr (by rw [def₃, setSlab])
    rw [links₃, heads₃]
    exact queues₂

/-- Where the slabs are after a chunk of `x` became free: only `x` moved, to the available ones. -/
theorem Kept.mem_opened {h : Heap} {l : List Nat} {B : Slabs} {c x p : Nat} {b : Bool} {k : Nat × Bool} (kept : Kept h l B)
    (member : x ∈ B.queue (c, b))
    (inQueue : p ∈ (if B.chain x = [] then Links.moved B.queue (c, false) (c, true) x else B.queue) k) :
    (p ≠ x → p ∈ B.queue k) ∧ (p = x → k = (c, true)) := by
  by_cases none : B.chain x = []
  · have closed : b = false := by
      by_contra opened
      exact (kept.state (c, b) x member).mpr (by simpa using opened) none
    subst closed
    rw [if_pos none] at inQueue
    rcases (kept.queues.mem_moved member (by simp)).mp inQueue with ⟨other, old⟩ | ⟨same, there⟩
    · exact ⟨fun _ => old, fun same => absurd same other⟩
    · exact ⟨fun other => absurd same other, fun _ => there⟩
  · have opened : b = true := (kept.state (c, b) x member).mp none
    subst opened
    rw [if_neg none] at inQueue
    exact ⟨fun _ => inQueue, fun same => kept.queues.apart k _ x (same ▸ inQueue) member⟩

/-- `slab_free` of a chunk that is not free. A slab without live chunks goes back to the free pages. -/
theorem slabFree_spec {h : Heap} {l : List Nat} {B : Slabs} {c x i : Nat} {b : Bool} (kept : Kept h l B)
    (member : x ∈ B.queue (c, b)) (bound : i < capacity c) (absent : i ∉ B.chain x) :
    ∃ h' l', h.slabFree (h.pm.pageToKvaddr x + i * cacheSize c) = .ok h' ∧ Kept h' l' (B.put c x i) ∧
      h.pm.SameGeometry h'.pm ∧ (∀ q, q ∉ l → q ≠ x → h.pm.Agree h'.pm q) ∧
      l'.Perm (if (B.chain x).length + 1 = capacity c then x :: l else l) ∧
      (∀ q, q ≠ x → ∀ a, h.pm.InPage q a → h'.pm.mem a = h.pm.mem a) ∧
      ((B.chain x).length + 1 = capacity c → ∀ a, h.pm.InPage x a → h'.pm.mem a = 1) := by
  have slab : SlabAt h c x (B.chain x) := kept.slabs (c, b) x member
  obtain ⟨eight, -, -, two, short, whole⟩ := cacheSize_bounds slab.known
  have chunk := chunk_fits slab.known bound
  obtain ⟨inside, slab', sizes, last, queues⟩ := freeChunk_spec kept member bound absent
  have page : h.pm.kvaddrToPage (h.pm.pageToKvaddr x + i * cacheSize c) = .ok x :=
    PageMem.kvaddrToPage_eq h.pm (by omega)
  have first : h.pm.firstPage x = x := slab.set.firstPage_eq (List.mem_cons_self ..)
  have index : (h.pm.pageToKvaddr x + i * cacheSize c - h.pm.pageToKvaddr x) / cacheSize c = i := by
    rw [Nat.add_sub_cancel_left, Nat.mul_div_cancel _ (by omega)]
  obtain ⟨h₁, def₁⟩ : ∃ h₁, h₁ = h.freeChunk x i := ⟨_, rfl⟩
  rw [← def₁] at inside slab' sizes last queues
  have value := slab'.slab_eq
  have run : h.slabFree (h.pm.pageToKvaddr x + i * cacheSize c) =
      if (B.chain x).length + 1 = capacity c then do
        let h ← h₁.setSlabEmpty x
        let pm ← h.pm.pgfree (some x)
        .ok { h with pm := pm }
      else .ok h₁ := by
    rw [slabFree, page]
    simp only [Res.ok_bind, first, slab.type, if_true, slab.slab_eq, kept.sizes, index]
    rw [freeChunk] at def₁
    rw [← def₁, value, List.length_cons]
  have lasts : ∀ d, h₁.lastAccessed = some d → d < nrSlabOrders := fun d eq => kept.last d (last.symm.trans eq)
  have notFree : x ∉ l := kept.not_free member
  rw [run, Slabs.put]
  by_cases bare : (B.chain x).length + 1 = capacity c
  · have some : B.chain x ≠ [] := fun none => by
      rw [none, List.length_nil] at bare
      omega
    have opened : b = true := (kept.state (c, b) x member).mp some
    subst opened
    rw [if_neg some] at queues
    obtain ⟨h₂, empty, pm₂, last₂, sizes₂, queues₂⟩ := queues_drop queues (by rw [value]) member
    have set₂ : h₂.pm.AllocSet x [] := by
      rw [pm₂]
      exact slab'.set
    have free₂ : h₂.pm.FreeList l := by
      rw [pm₂]
      exact inside.lists.freeList kept.free
    have small₂ : h₂.pm.nrPages < 2 ^ 64 := by
      rw [pm₂, inside.lists.geometry.pages]
      exact kept.small
    obtain ⟨pm, l', freed, free', perm, geometry, shredded, agree⟩ := PageMem.pgfree_spec free₂ set₂ small₂
    obtain ⟨h₃, def₃⟩ : ∃ h₃ : Heap, h₃ = { h₂ with pm := pm } := ⟨_, rfl⟩
    have pm₃ : h₃.pm = pm := by rw [def₃]
    have whole' : h.pm.SameGeometry h₃.pm := by
      rw [pm₃]
      exact inside.lists.geometry.trans (pm₂ ▸ geometry)
    have agree₃ : ∀ q, q ∉ l → q ≠ x → h.pm.Agree h₃.pm q := by
      intro q outside other
      rw [pm₃]
      exact (inside.agree other).trans inside.lists.geometry (pm₂ ▸ agree q outside other)
    have here₂ : ∀ q a, h.pm.InPage q a → h₂.pm.InPage q a := by
      intro q a here
      rwa [pm₂, PageMem.InPage, inside.lists.geometry.kvaddr]
    have bytes : ∀ q, q ≠ x → ∀ a, h.pm.InPage q a → h₃.pm.mem a = h.pm.mem a := by
      intro q other a here
      rw [pm₃, shredded.other a, pm₂, inside.bytes other here]
      intro p only inX
      obtain rfl := List.mem_singleton.mp only
      exact other ((here₂ q a here).unique inX)
    have erased := fun k p => kept.queues.mem_erased member (j := k) (x := p)
    refine ⟨h₃, l', ?_, ?_, whole', agree₃, ?_, bytes, fun _ a here => ?_⟩
    · rw [if_pos bare, empty]
      simp only [Res.ok_bind, freed, def₃]
    · rw [if_pos bare]
      have links₃ : h₃.slabLink = h₂.slabLink := by rw [def₃]
      have heads₃ : h₃.head = h₂.head := head_congr (by rw [def₃])
      rw [← links₃, ← heads₃] at queues₂
      refine kept.renew (by rw [pm₃]; exact free') whole' (fun d => ?_) (fun d eq => lasts d ?_) queues₂
        (fun k p inQueue _ => ((erased k p).mp inQueue).2)
        (fun k p inQueue other => agree₃ p (kept.not_free inQueue) other)
        (fun k inQueue => absurd rfl ((erased k x).mp inQueue).1)
      · rw [def₃]
        exact (sizes₂ d).trans (sizes d)
      · rw [← last₂, ← eq, def₃]
    · rw [if_pos bare]
      exact perm
    · rw [pm₃]
      exact shredded.junk x (List.mem_singleton_self x) a (here₂ x a here)
  · refine ⟨h₁, l, if_neg bare, ?_, inside.lists.geometry, fun q _ other => inside.agree other, ?_,
      fun q other a here => inside.bytes other here, fun full => absurd full bare⟩
    · rw [if_neg bare]
      refine kept.renew (inside.lists.freeList kept.free) inside.lists.geometry sizes lasts queues
        (fun k p inQueue => (kept.mem_opened member inQueue).1) (fun k p _ other => inside.agree other) ?_
      intro k inQueue
      obtain rfl := (kept.mem_opened member inQueue).2 rfl
      exact ⟨slab', by simp⟩
    · rw [if_neg bare]

end Heap

end Xv6
