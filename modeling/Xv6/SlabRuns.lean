import Xv6.PageContRuns
import Xv6.SlabOps

namespace Xv6

namespace Heap

namespace Slabs

/-- The cache holds the slab. -/
def Holds (B : Slabs) (c x : Nat) : Prop := ∃ b, x ∈ B.queue (c, b)

/-- The page is a slab. -/
def Slab (B : Slabs) (x : Nat) : Prop := ∃ c, B.Holds c x

/-- The chunk `i` of the slab is in use. -/
def Live (B : Slabs) (c x i : Nat) : Prop := B.Holds c x ∧ i < capacity c ∧ i ∉ B.chain x

/-- Every slab has a chunk in use. -/
def Used (B : Slabs) : Prop := ∀ c x, B.Holds c x → (B.chain x).length < capacity c

end Slabs

/-- What `slab_alloc` does to the slabs: the chunk `i` of `x` is handed out. -/
structure Handed (B B' : Slabs) (c x i : Nat) : Prop where
  bound : i < capacity c
  fresh : ¬ B.Live c x i
  live : ∀ d y j, B'.Live d y j ↔ B.Live d y j ∨ (d = c ∧ y = x ∧ j = i)
  holds : ∀ d y, B'.Holds d y ↔ B.Holds d y ∨ (d = c ∧ y = x)
  used : (∀ d y, y ≠ x → B.Holds d y → (B.chain y).length < capacity d) → B'.Used

variable {h : Heap} {l : List Nat} {B : Slabs}

/-- In the beginning there are no slabs. -/
theorem kept_bootstrap {pm : PageMem} {l : List Nat} (free : pm.FreeList l) (size : pm.nrPages < 2 ^ 64) (links : Links Nat) :
    Kept (slabBootstrap pm links) l ⟨fun _ => [], fun _ => []⟩ where
  free := free
  small := size
  sizes _ := rfl
  last := by simp [slabBootstrap]
  queues := ⟨fun ⟨_, b⟩ => by cases b <;> rfl, fun _ _ _ inside => by cases inside⟩
  slabs := by simp
  state := by simp

theorem Kept.holds_unique (kept : Kept h l B) {c d x : Nat} (left : B.Holds c x) (right : B.Holds d x) : c = d := by
  obtain ⟨b, left⟩ := left
  obtain ⟨b', right⟩ := right
  exact congrArg Prod.fst (kept.queues.apart _ _ x left right)

/-- Taking the first free chunk of an available slab. -/
theorem Kept.handed_take (kept : Kept h l B) {c x i : Nat} {rest : List Nat} (member : x ∈ B.queue (c, true))
    (chain : B.chain x = i :: rest) (short : rest.length + 1 ≤ capacity c) : Handed B (B.take c x rest) c x i := by
  have slab : SlabAt h c x (B.chain x) := kept.slabs (c, true) x member
  rw [chain] at slab
  have holds : ∀ d y, (B.take c x rest).Holds d y ↔ B.Holds d y := by
    intro d y
    simp only [Slabs.Holds, Slabs.take]
    by_cases none : rest = []
    · simp only [if_pos none, kept.queues.mem_moved member (by simp : (c, true) ≠ (c, false)), Prod.mk.injEq]
      constructor
      · rintro ⟨b, ⟨-, old⟩ | ⟨rfl, rfl, rfl⟩⟩
        · exact ⟨b, old⟩
        · exact ⟨true, member⟩
      · rintro ⟨b, old⟩
        by_cases same : y = x
        · subst same
          exact ⟨false, .inr ⟨rfl, kept.holds_unique ⟨b, old⟩ ⟨true, member⟩, rfl⟩⟩
        · exact ⟨b, .inl ⟨same, old⟩⟩
    · simp only [if_neg none]
  have other : ∀ y, y ≠ x → (B.take c x rest).chain y = B.chain y := fun y ne => Function.update_of_ne ne ..
  have here : (B.take c x rest).chain x = rest := Function.update_self ..
  have holdsX : B.Holds c x := ⟨true, member⟩
  refine ⟨slab.bound i (List.mem_cons_self ..), fun live => live.2.2 (by simp [chain]), ?_, ?_, ?_⟩
  · intro d y j
    simp only [Slabs.Live, holds]
    by_cases same : y = x
    · subst same
      rw [here, chain, List.mem_cons]
      constructor
      · rintro ⟨held, bound, absent⟩
        by_cases first : j = i
        · exact .inr ⟨kept.holds_unique held holdsX, rfl, first⟩
        · exact .inl ⟨held, bound, fun either => either.elim first absent⟩
      · rintro (⟨held, bound, absent⟩ | ⟨rfl, -, rfl⟩)
        · exact ⟨held, bound, fun old => absent (.inr old)⟩
        · exact ⟨holdsX, slab.bound j (List.mem_cons_self ..), (List.nodup_cons.mp slab.nodup).1⟩
    · rw [other y same]
      simp [same]
  · intro d y
    rw [holds]
    refine ⟨.inl, fun either => either.elim id ?_⟩
    rintro ⟨rfl, rfl⟩
    exact holdsX
  · intro used d y held
    have before := (holds d y).mp held
    by_cases same : y = x
    · subst same
      obtain rfl := kept.holds_unique before holdsX
      rw [here]
      omega
    · rw [other y same]
      exact used d y same before

theorem SlabAt.length_le {c x : Nat} {chain : List Nat} (slab : SlabAt h c x chain) : chain.length ≤ capacity c := by
  have sub : chain.Subperm (List.range (capacity c)) :=
    List.subperm_of_subset slab.nodup fun j inside => List.mem_range.mpr (slab.bound j inside)
  simpa using sub.length_le

/-- A slab without live chunks comes in and serves its first chunk. -/
theorem Kept.handed_new {h₁ : Heap} {l₁ : List Nat} {c x : Nat} {rest : List Nat} (kept : Kept h (x :: l₁) B)
    (empty : B.queue (c, true) = [])
    (renewed : Kept h₁ l₁ ⟨Function.update B.queue (c, true) [x], Function.update B.chain x (List.range (capacity c))⟩)
    (chain : List.range (capacity c) = 0 :: rest) :
    Handed B (Slabs.take ⟨Function.update B.queue (c, true) [x], Function.update B.chain x (List.range (capacity c))⟩
      c x rest) c x 0 := by
  obtain ⟨B₁, def₁⟩ : ∃ B₁ : Slabs,
      B₁ = ⟨Function.update B.queue (c, true) [x], Function.update B.chain x (List.range (capacity c))⟩ := ⟨_, rfl⟩
  rw [← def₁] at renewed ⊢
  have absent : ∀ d, ¬ B.Holds d x := fun d ⟨b, inside⟩ => kept.not_free inside (List.mem_cons_self ..)
  have here : B₁.chain x = List.range (capacity c) := by
    rw [def₁]
    exact Function.update_self ..
  have other : ∀ y, y ≠ x → B₁.chain y = B.chain y := by
    intro y ne
    rw [def₁]
    exact Function.update_of_ne ne ..
  have member : x ∈ B₁.queue (c, true) := by
    rw [def₁]
    simp
  have holds : ∀ d y, B₁.Holds d y ↔ B.Holds d y ∨ (d = c ∧ y = x) := by
    intro d y
    rw [def₁]
    constructor
    · rintro ⟨b, inside⟩
      by_cases same : (d, b) = (c, true)
      · rw [same] at inside
        exact .inr ⟨congrArg Prod.fst same, by simpa using inside⟩
      · exact .inl ⟨b, by simpa [Function.update_of_ne same] using inside⟩
    · rintro (⟨b, inside⟩ | ⟨rfl, rfl⟩)
      · have different : (d, b) ≠ (c, true) := by
          intro same
          rw [same, empty] at inside
          cases inside
        exact ⟨b, by simpa [Function.update_of_ne different] using inside⟩
      · exact ⟨true, by simp⟩
  have live : ∀ d y j, B₁.Live d y j ↔ B.Live d y j := by
    intro d y j
    simp only [Slabs.Live, holds]
    by_cases same : y = x
    · subst same
      rw [here, List.mem_range]
      constructor
      · rintro ⟨old | ⟨rfl, -⟩, bound, outside⟩
        · exact absurd old (absent d)
        · exact absurd bound outside
      · rintro ⟨old, -⟩
        exact absurd old (absent d)
    · simp [other y same, same]
  have handed := renewed.handed_take member (here.trans chain) (by
    rw [← List.length_cons (a := 0), ← chain, List.length_range])
  refine ⟨handed.bound, fun old => absent c old.1, ?_, ?_, ?_⟩
  · intro d y j
    rw [handed.live, live]
  · intro d y
    rw [handed.holds, holds]
    tauto
  · intro used
    refine handed.used fun d y ne held => ?_
    rw [other y ne]
    exact used d y ne (((holds d y).mp held).resolve_right fun both => ne both.2)

theorem Kept.remember (kept : Kept h l B) {c : Nat} (known : c < nrSlabOrders) :
    Kept { h with lastAccessed := some c } l B where
  free := kept.free
  small := kept.small
  sizes := kept.sizes
  last d same := by
    obtain rfl := Option.some.inj same
    exact known
  queues := kept.queues
  slabs k p member := (kept.slabs k p member).frame (.refl _) (.refl _ _)
  state := kept.state

/-- The chunk `i` of `x` was handed out, on a slab of the cache or on a new one. -/
structure Served (h h' : Heap) (l l' : List Nat) (B B' : Slabs) (c x i : Nat) : Prop where
  kept : Kept h' l' B'
  handed : Handed B B' c x i
  pages : (l' = l ∧ B.Holds c x) ∨ B.queue (c, true) = [] ∧ l = x :: l'
  geometry : h.pm.SameGeometry h'.pm
  agree : ∀ q, q ∉ l → q ≠ x → h.pm.Agree h'.pm q

/-- Without a free page there is no new slab. -/
theorem slabNew_null (free : h.pm.FreeList []) (c : Nat) : h.slabNew c = .ok (none, h) := by
  have none : h.pm.allocPage = .ok (none, h.pm) := PageMem.allocPages_none free (by simp)
  have same : ({ h with pm := h.pm } : Heap) = h := by cases h; rfl
  rw [slabNew, none]
  show Except.ok (_, { h with pm := h.pm }) = _
  rw [same]

/-- Without a slab that is available and without a free page `slab_alloc` fails. -/
theorem slabAlloc_null (kept : Kept h [] B) {c n : Nat} (known : c < nrSlabOrders) (fits : Fits c n)
    (bare : B.queue (c, true) = []) : h.slabAlloc n = .ok (0, { h with lastAccessed := some c }) := by
  have found := findKmcache_fits kept.sizes kept.last known fits
  obtain ⟨h₀, def₀⟩ : ∃ h₀ : Heap, h₀ = { h with lastAccessed := some c } := ⟨_, rfl⟩
  have kept₀ : Kept h₀ [] B := by
    rw [def₀]
    exact kept.remember known
  have head : (h₀.kmcache c).avail = (B.queue (c, true)).head? := (kept₀.queues.isQueue (c, true)).head
  rw [bare, List.head?_nil] at head
  rw [← def₀] at found ⊢
  simp only [slabAlloc, found, Res.ok_bind, findSlab, head, slabNew_null kept₀.free c]

/-- `slab_alloc` on the first available slab of the cache. -/
theorem Kept.slabAlloc_take (kept : Kept h l B) {c x i n : Nat} {rest : List Nat} (known : c < nrSlabOrders) (fits : Fits c n)
    (first : (B.queue (c, true)).head? = some x) (taken : B.chain x = i :: rest) :
    ∃ h', h.slabAlloc n = .ok (h.pm.pageToKvaddr x + i * cacheSize c, h') ∧ Kept h' l (B.take c x rest) ∧
      h.pm.Inside h'.pm x := by
  obtain ⟨h₀, def₀⟩ : ∃ h₀ : Heap, h₀ = { h with lastAccessed := some c } := ⟨_, rfl⟩
  have kept₀ : Kept h₀ l B := by
    rw [def₀]
    exact kept.remember known
  have pm₀ : h₀.pm = h.pm := by rw [def₀]
  have found := findKmcache_fits kept.sizes kept.last known fits
  rw [← def₀] at found
  have head : (h₀.kmcache c).avail = some x := (kept₀.queues.isQueue (c, true)).head.trans first
  obtain ⟨h', run, kept', -, inside⟩ := takeChunk_spec kept₀ (List.mem_of_mem_head? first) taken fits.2
  rw [pm₀] at run
  refine ⟨h', ?_, kept', pm₀ ▸ inside⟩
  simp only [slabAlloc, found, Res.ok_bind, findSlab, head]
  exact run

/-- `slab_alloc` on a new slab. -/
theorem Kept.slabAlloc_new {l₁ : List Nat} {c x n : Nat} {rest : List Nat} (kept : Kept h (x :: l₁) B) (known : c < nrSlabOrders)
    (fits : Fits c n) (empty : B.queue (c, true) = []) (chain : List.range (capacity c) = 0 :: rest) :
    ∃ h' B', B' = Slabs.take ⟨Function.update B.queue (c, true) [x], Function.update B.chain x (List.range (capacity c))⟩ c x rest ∧
      h.slabAlloc n = .ok (h.pm.pageToKvaddr x + 0 * cacheSize c, h') ∧ Kept h' l₁ B' ∧ Handed B B' c x 0 ∧
      h.pm.SameGeometry h'.pm ∧ (∀ q, q ∉ x :: l₁ → q ≠ x → h.pm.Agree h'.pm q) ∧
      ∀ q, q ≠ x → ∀ a, h.pm.InPage q a → h'.pm.mem a = h.pm.mem a := by
  obtain ⟨h₀, def₀⟩ : ∃ h₀ : Heap, h₀ = { h with lastAccessed := some c } := ⟨_, rfl⟩
  have kept₀ : Kept h₀ (x :: l₁) B := by
    rw [def₀]
    exact kept.remember known
  have pm₀ : h₀.pm = h.pm := by rw [def₀]
  have found := findKmcache_fits kept.sizes kept.last known fits
  rw [← def₀] at found
  have head : (h₀.kmcache c).avail = none := (kept₀.queues.isQueue (c, true)).head.trans (by rw [empty]; rfl)
  obtain ⟨h₁, new, kept₁, -, geometry₁, agree₁, bytes₁⟩ := slabNew_spec kept₀ known empty
  obtain ⟨h', run, kept', -, inside⟩ := takeChunk_spec kept₁ (x := x) (i := 0) (by simp)
    (show Function.update B.chain x (List.range (capacity c)) x = 0 :: rest by simpa using chain) fits.2
  refine ⟨h', _, rfl, ?_, kept', kept₀.handed_new empty kept₁ chain, pm₀ ▸ geometry₁.trans inside.lists.geometry, ?_, ?_⟩
  · simp only [slabAlloc, found, Res.ok_bind, findSlab, head, new]
    rw [run, geometry₁.kvaddr, pm₀]
  · intro q outside other
    rw [← pm₀]
    exact (agree₁ q outside).trans geometry₁ (inside.agree other)
  · intro q other a here
    rw [← pm₀] at here ⊢
    rw [inside.bytes other (by rwa [PageMem.InPage, geometry₁.kvaddr]), bytes₁ q other a here]

/-- `slab_alloc` fails only when a page is needed and none is free. -/
theorem slabAlloc_spec (kept : Kept h l B) {n : Nat} (positive : 0 < n) (aligned : n % 8 = 0) (small : n ≤ largeChunk) :
    ∃ c, c < nrSlabOrders ∧ Fits c n ∧
      ((l = [] ∧ B.queue (c, true) = [] ∧ h.slabAlloc n = .ok (0, { h with lastAccessed := some c })) ∨
        ∃ x i h' l' B', h.slabAlloc n = .ok (h.pm.pageToKvaddr x + i * cacheSize c, h') ∧
          Served h h' l l' B B' c x i) := by
  obtain ⟨c, known, fits⟩ := exists_fits positive aligned small
  refine ⟨c, known, fits, ?_⟩
  cases queue : B.queue (c, true) with
  | cons x others =>
    right
    have member : x ∈ B.queue (c, true) := by simp [queue]
    obtain ⟨i, rest, chain⟩ := List.exists_cons_of_ne_nil ((kept.state (c, true) x member).mpr rfl)
    obtain ⟨h', run, kept', inside⟩ := kept.slabAlloc_take known fits (by rw [queue]; rfl) chain
    have short : rest.length + 1 ≤ capacity c := by
      have all := (kept.slabs (c, true) x member).length_le
      rwa [chain] at all
    exact ⟨x, i, h', l, B.take c x rest, run, kept', kept.handed_take member chain short, .inl ⟨rfl, true, member⟩,
      inside.lists.geometry, fun q _ other => inside.agree other⟩
  | nil =>
    cases l with
    | nil => exact .inl ⟨rfl, rfl, slabAlloc_null kept known fits queue⟩
    | cons x l₁ =>
      right
      have two := (cacheSize_bounds known).2.2.2.1
      obtain ⟨rest, chain⟩ : ∃ rest, List.range (capacity c) = 0 :: rest := by
        obtain ⟨m, eq⟩ : ∃ m, capacity c = m + 1 := ⟨capacity c - 1, by omega⟩
        exact ⟨_, by rw [eq, List.range_succ_eq_map]⟩
      obtain ⟨h', B', -, run, kept', handed, geometry, agree, -⟩ := kept.slabAlloc_new known fits queue chain
      exact ⟨x, 0, h', l₁, B', run, kept', handed, .inr ⟨queue, rfl⟩, geometry, agree⟩

/-- What `slab_free` does to the slabs: the chunk `i` of `x` was given back. -/
structure Released (B B' : Slabs) (c x i : Nat) : Prop where
  live : ∀ d y j, B'.Live d y j ↔ B.Live d y j ∧ ¬ (y = x ∧ j = i)
  holds : ∀ d y, B'.Holds d y ↔ B.Holds d y ∧ ¬ (y = x ∧ (B.chain x).length + 1 = capacity c)
  used : B.Used → B'.Used

theorem Kept.released_put (kept : Kept h l B) {c x i : Nat} {b : Bool} (member : x ∈ B.queue (c, b))
    (bound : i < capacity c) (absent : i ∉ B.chain x) : Released B (B.put c x i) c x i := by
  have slab : SlabAt h c x (B.chain x) := kept.slabs (c, b) x member
  have holdsX : B.Holds c x := ⟨b, member⟩
  have here : (B.put c x i).chain x = i :: B.chain x := Function.update_self ..
  have other : ∀ y, y ≠ x → (B.put c x i).chain y = B.chain y := fun y ne => Function.update_of_ne ne ..
  have holds : ∀ d y, (B.put c x i).Holds d y ↔ B.Holds d y ∧ ¬ (y = x ∧ (B.chain x).length + 1 = capacity c) := by
    intro d y
    by_cases bare : (B.chain x).length + 1 = capacity c
    · have some : B.chain x ≠ [] := fun none => by
        have two := (cacheSize_bounds slab.known).2.2.2.1
        rw [none, List.length_nil] at bare
        omega
      have opened : b = true := (kept.state (c, b) x member).mp some
      subst opened
      have queue : (B.put c x i).queue = Function.update B.queue (c, true) ((B.queue (c, true)).erase x) := if_pos bare
      simp only [Slabs.Holds, queue, kept.queues.mem_erased member, bare, and_true]
      exact ⟨fun ⟨b, ne, inside⟩ => ⟨⟨b, inside⟩, ne⟩, fun ⟨⟨b, inside⟩, ne⟩ => ⟨b, ne, inside⟩⟩
    · have queue : (B.put c x i).queue =
          if B.chain x = [] then Links.moved B.queue (c, false) (c, true) x else B.queue := if_neg bare
      simp only [Slabs.Holds, queue, bare, and_false, not_false_eq_true, and_true]
      by_cases none : B.chain x = []
      · have closed : b = false := by
          by_contra opened
          exact (kept.state (c, b) x member).mpr (by simpa using opened) none
        subst closed
        simp only [if_pos none, kept.queues.mem_moved member (by simp : (c, false) ≠ (c, true)), Prod.mk.injEq]
        constructor
        · rintro ⟨b, ⟨-, old⟩ | ⟨rfl, rfl, rfl⟩⟩
          · exact ⟨b, old⟩
          · exact holdsX
        · rintro ⟨b, old⟩
          by_cases same : y = x
          · subst same
            exact ⟨true, .inr ⟨rfl, kept.holds_unique ⟨b, old⟩ holdsX, rfl⟩⟩
          · exact ⟨b, .inl ⟨same, old⟩⟩
      · simp only [if_neg none]
  refine ⟨?_, holds, ?_⟩
  · intro d y j
    simp only [Slabs.Live, holds]
    by_cases same : y = x
    · subst same
      rw [here, List.mem_cons]
      constructor
      · rintro ⟨⟨held, -⟩, small, outside⟩
        exact ⟨⟨held, small, fun old => outside (.inr old)⟩, fun both => outside (.inl both.2)⟩
      · rintro ⟨⟨held, small, outside⟩, ne⟩
        obtain rfl := kept.holds_unique held holdsX
        have fresh : j ≠ i := fun same => ne ⟨rfl, same⟩
        refine ⟨⟨held, fun bare => ?_⟩, small, fun either => either.elim fresh outside⟩
        -- two free chunks more than the chain has, in a slab with one less
        have nodup : (j :: i :: B.chain y).Nodup := by
          simp only [List.nodup_cons, List.mem_cons, not_or]
          exact ⟨⟨fresh, outside⟩, absent, slab.nodup⟩
        have sub : (j :: i :: B.chain y).Subperm (List.range (capacity d)) := by
          refine List.subperm_of_subset nodup fun k inside => List.mem_range.mpr ?_
          rcases List.mem_cons.mp inside with rfl | inside
          · exact small
          · rcases List.mem_cons.mp inside with rfl | inside
            · exact bound
            · exact slab.bound k inside
        have length := sub.length_le
        rw [List.length_cons, List.length_cons, List.length_range] at length
        omega
    · simp [other y same, same]
  · intro used d y held
    obtain ⟨before, stays⟩ := (holds d y).mp held
    by_cases same : y = x
    · subst same
      obtain rfl := kept.holds_unique before holdsX
      have length := used d y before
      have notBare : (B.chain y).length + 1 ≠ capacity d := fun bare => stays ⟨rfl, bare⟩
      rw [here, List.length_cons]
      omega
    · rw [other y same]
      exact used d y before

/-- What the owner of a chunk writes into it leaves the slabs alone. -/
theorem Kept.write (kept : Kept h l B) {c x i : Nat} (live : B.Live c x i) {m : ByteMem}
    (within : ∀ a, (a < h.pm.pageToKvaddr x + i * cacheSize c ∨ h.pm.pageToKvaddr x + i * cacheSize c + cacheSize c ≤ a) →
      m a = h.pm.mem a) : Kept { h with pm := { h.pm with mem := m } } l B := by
  obtain ⟨⟨b, member⟩, bound, absent⟩ := live
  have slab : SlabAt h c x (B.chain x) := kept.slabs (c, b) x member
  have eight := (cacheSize_bounds slab.known).1
  have chunk := chunk_fits slab.known bound
  have inside : h.pm.Inside { h.pm with mem := m } x := mem_inside _ _ x fun a away => within a (by omega)
  obtain ⟨h', def'⟩ : ∃ h' : Heap, h' = { h with pm := { h.pm with mem := m } } := ⟨_, rfl⟩
  have pm' : h'.pm = { h.pm with mem := m } := by rw [def']
  have heads : h'.head = h.head := head_congr (by rw [def'])
  rw [← def']
  rw [← pm'] at inside
  have stored : ChainAt h'.pm.mem (h'.pm.pageToKvaddr x) (cacheSize c) (B.chain x) := by
    rw [inside.lists.geometry.kvaddr]
    exact slab.stored.outside (by omega) absent fun a away => by
      rw [pm']
      exact within a away
  have renewed : Kept h' l ⟨B.queue, Function.update B.chain x (B.chain x)⟩ := kept.renew
    (inside.lists.freeList kept.free) inside.lists.geometry (by rw [def']; exact fun _ => rfl)
    (by rw [def']; exact kept.last) (by rw [heads, def']; exact kept.queues) (fun k p here _ => here)
    (fun k p _ other => inside.agree other) (fun k here => by
      obtain rfl := kept.queues.apart k _ x here member
      refine ⟨⟨slab.known, inside.single slab.set ?_, ?_, ?_, slab.nodup, slab.bound, stored⟩, kept.state _ x member⟩
      · rw [pm']
        exact slab.set.head
      · rw [pm']
        exact slab.type
      · rw [pm']
        exact slab.extra)
  rw [Function.update_eq_self] at renewed
  exact renewed

/-- The address of a chunk tells its slab and its place in it. -/
theorem chunk_inj {pm : PageMem} {c d x y i j : Nat} (knownC : c < nrSlabOrders) (knownD : d < nrSlabOrders)
    (boundI : i < capacity c) (boundJ : j < capacity d)
    (same : pm.pageToKvaddr x + i * cacheSize c = pm.pageToKvaddr y + j * cacheSize d) :
    x = y ∧ (c = d → i = j) := by
  have inside : ∀ {c i : Nat}, c < nrSlabOrders → i < capacity c → 4 ≤ cacheSize c ∧ i * cacheSize c < 16384 := by
    intro c i known bound
    have eight := (cacheSize_bounds known).1
    have step := chunk_fits known bound
    omega
  obtain ⟨four, left⟩ := inside knownC boundI
  obtain ⟨-, right⟩ := inside knownD boundJ
  have pages : x = y := by
    rw [PageMem.pageToKvaddr_eq, PageMem.pageToKvaddr_eq] at same
    omega
  refine ⟨pages, ?_⟩
  rintro rfl
  rw [pages] at same
  exact Nat.eq_of_mul_eq_mul_right (by omega) (Nat.add_left_cancel same)

/-- The page is in one of the two queues of the cache. -/
def HeldBy (h : Heap) (c p : Nat) : Prop :=
  h.slabLink.Reached (h.kmcache c).avail p ∨ h.slabLink.Reached (h.kmcache c).full p

theorem Kept.heldBy_iff (kept : Kept h l B) {c p : Nat} : h.HeldBy c p ↔ B.Holds c p := by
  have avail := (kept.queues.isQueue (c, true)).reached_iff (x := p)
  have full := (kept.queues.isQueue (c, false)).reached_iff (x := p)
  constructor
  · rintro (first | second)
    · exact ⟨true, avail.mp first⟩
    · exact ⟨false, full.mp second⟩
  · rintro ⟨b, inside⟩
    cases b with
    | true => exact .inl (avail.mpr inside)
    | false => exact .inr (full.mpr inside)

theorem Slabs.Used.live {B : Slabs} (used : B.Used) {c x : Nat} (holds : B.Holds c x) : ∃ i, B.Live c x i := by
  by_contra none
  have all : ∀ i < capacity c, i ∈ B.chain x := by
    intro i bound
    by_contra absent
    exact none ⟨i, holds, bound, absent⟩
  have sub : (List.range (capacity c)).Subperm (B.chain x) :=
    List.subperm_of_subset List.nodup_range fun i inside => all i (List.mem_range.mp inside)
  have length := sub.length_le
  rw [List.length_range] at length
  have := used c x holds
  omega

end Heap

open Heap

/-- A run of the slab allocator, and the live chunks with the sizes they were asked for. -/
inductive SlabRun (pm : PageMem) (links : Links Nat) : Heap → (Nat → Option Nat) → Prop
  | bootstrap : SlabRun pm links (slabBootstrap pm links) fun _ => none
  | alloc {h h' : Heap} {live : Nat → Option Nat} {n a : Nat} (before : SlabRun pm links h live) (positive : 0 < n)
      (aligned : n % 8 = 0) (small : n ≤ largeChunk) (run : h.slabAlloc n = .ok (a, h')) :
      SlabRun pm links h' (if a = 0 then live else Function.update live a (some n))
  | free {h h' : Heap} {live : Nat → Option Nat} {n a : Nat} (before : SlabRun pm links h live)
      (isLive : live a = some n) (run : h.slabFree a = .ok h') : SlabRun pm links h' (Function.update live a none)
  | write {h : Heap} {live : Nat → Option Nat} {n a c : Nat} {m : ByteMem} (before : SlabRun pm links h live)
      (isLive : live a = some n) (known : c < nrSlabOrders) (fits : Fits c n)
      (within : ∀ b, (b < a ∨ a + cacheSize c ≤ b) → m b = h.pm.mem b) :
      SlabRun pm links { h with pm := { h.pm with mem := m } } live

/-- A block is the one that was written down last, or an old one. -/
theorem recorded {live : Nat → Option Nat} {a b n m : Nat} (isLive : Function.update live a (some n) b = some m) :
    (b = a ∧ m = n) ∨ live b = some m := by
  by_cases same : b = a
  · rw [same, Function.update_self] at isLive
    exact .inl ⟨same, (Option.some.inj isLive).symm⟩
  · rw [Function.update_of_ne same] at isLive
    exact .inr isLive

namespace SlabRun

/-- The live chunks are those of the slabs, and the slabs and the free pages are the pages of the start. -/
structure Booked (pm : PageMem) (l₀ : List Nat) (h : Heap) (live : Nat → Option Nat) (l : List Nat) (B : Slabs) :
    Prop where
  kept : Kept h l B
  used : B.Used
  geometry : pm.SameGeometry h.pm
  chunk : ∀ a n, live a = some n →
    ∃ c x i, Fits c n ∧ B.Live c x i ∧ a = h.pm.pageToKvaddr x + i * cacheSize c
  live : ∀ c x i, B.Live c x i → ∃ n, live (h.pm.pageToKvaddr x + i * cacheSize c) = some n ∧ Fits c n
  pages : ∀ p, p ∈ l₀ ↔ p ∈ l ∨ ∃ c, B.Holds c p

theorem Booked.known {pm : PageMem} {l₀ l : List Nat} {h : Heap} {live : Nat → Option Nat} {B : Slabs}
    (booked : Booked pm l₀ h live l B) {c x : Nat} (holds : B.Holds c x) : c < nrSlabOrders := by
  obtain ⟨b, member⟩ := holds
  exact (booked.kept.slabs (c, b) x member).known

theorem address_ne_zero {pm : PageMem} {x offset : Nat} : pm.pageToKvaddr x + offset ≠ 0 := by
  rw [PageMem.pageToKvaddr_eq]
  omega

variable {pm : PageMem} {links : Links Nat} {l₀ l : List Nat} {h : Heap} {live : Nat → Option Nat} {B : Slabs}

theorem Booked.alloc (booked : Booked pm l₀ h live l B) {n : Nat} (positive : 0 < n) (aligned : n % 8 = 0)
    (small : n ≤ largeChunk) :
    ∃ a h', h.slabAlloc n = .ok (a, h') ∧ (a = 0 → l = []) ∧ (a ≠ 0 → live a = none) ∧
      ∃ l' B', Booked pm l₀ h' (if a = 0 then live else Function.update live a (some n)) l' B' := by
  obtain ⟨c, known, fits, ⟨empty, -, run⟩ | ⟨x, i, h', l', B', run, served⟩⟩ :=
    slabAlloc_spec booked.kept positive aligned small
  · refine ⟨_, _, run, fun _ => empty, fun other => absurd rfl other, l, B, ?_⟩
    rw [if_pos rfl]
    exact ⟨booked.kept.remember known, booked.used, booked.geometry, booked.chunk, booked.live, booked.pages⟩
  · have handed := served.handed
    have holdsX : B'.Holds c x := (handed.holds c x).mpr (.inr ⟨rfl, rfl⟩)
    have address := served.geometry.kvaddr
    -- no live chunk has the new address
    have apart : ∀ d y j, B.Live d y j → h.pm.pageToKvaddr y + j * cacheSize d ≠ h.pm.pageToKvaddr x + i * cacheSize c := by
      intro d y j old same
      obtain ⟨rfl, place⟩ := chunk_inj (booked.known old.1) known old.2.1 handed.bound same
      have caches := served.kept.holds_unique ((handed.holds d y).mpr (.inl old.1)) holdsX
      subst caches
      exact handed.fresh (place rfl ▸ old)
    have fresh : live (h.pm.pageToKvaddr x + i * cacheSize c) = none := by
      by_contra some
      obtain ⟨m, isLive⟩ := Option.ne_none_iff_exists'.mp some
      obtain ⟨d, y, j, -, old, place⟩ := booked.chunk _ m isLive
      exact apart d y j old place.symm
    refine ⟨_, _, run, fun zero => absurd zero address_ne_zero, fun _ => fresh, l', B', ?_⟩
    rw [if_neg address_ne_zero]
    refine ⟨served.kept, handed.used fun d y _ held => booked.used d y held, booked.geometry.trans served.geometry,
      ?_, ?_, ?_⟩
    · intro a m isLive
      rcases recorded isLive with ⟨rfl, rfl⟩ | known
      · exact ⟨c, x, i, fits, (handed.live c x i).mpr (.inr ⟨rfl, rfl, rfl⟩), by rw [address]⟩
      · obtain ⟨d, y, j, fits', old, place⟩ := booked.chunk a m known
        exact ⟨d, y, j, fits', (handed.live d y j).mpr (.inl old), by rw [address]; exact place⟩
    · intro d y j isLive
      rw [address]
      rcases (handed.live d y j).mp isLive with old | ⟨rfl, rfl, rfl⟩
      · rw [Function.update_of_ne (apart d y j old)]
        exact booked.live d y j old
      · exact ⟨n, Function.update_self .., fits⟩
    · intro p
      rw [booked.pages]
      simp only [handed.holds]
      rcases served.pages with ⟨rfl, held⟩ | ⟨-, rfl⟩
      · constructor
        · rintro (free | ⟨d, old⟩)
          · exact .inl free
          · exact .inr ⟨d, .inl old⟩
        · rintro (free | ⟨d, old | ⟨rfl, rfl⟩⟩)
          · exact .inl free
          · exact .inr ⟨d, old⟩
          · exact .inr ⟨d, held⟩
      · rw [List.mem_cons]
        constructor
        · rintro ((rfl | free) | ⟨d, old⟩)
          · exact .inr ⟨c, .inr ⟨rfl, rfl⟩⟩
          · exact .inl free
          · exact .inr ⟨d, .inl old⟩
        · rintro (free | ⟨d, old | ⟨rfl, rfl⟩⟩)
          · exact .inl (.inr free)
          · exact .inr ⟨d, old⟩
          · exact .inl (.inl rfl)

theorem Booked.free (booked : Booked pm l₀ h live l B) {n a : Nat} (isLive : live a = some n) :
    ∃ h', h.slabFree a = .ok h' ∧ ∃ l' B', Booked pm l₀ h' (Function.update live a none) l' B' := by
  obtain ⟨c, x, i, -, ⟨⟨b, member⟩, bound, absent⟩, rfl⟩ := booked.chunk a n isLive
  obtain ⟨h', l', run, kept', geometry, -, perm, -⟩ := slabFree_spec booked.kept member bound absent
  have released := booked.kept.released_put member bound absent
  have known := booked.known ⟨b, member⟩
  have address := geometry.kvaddr
  refine ⟨h', run, l', B.put c x i, kept', released.used booked.used, booked.geometry.trans geometry, ?_, ?_, ?_⟩
  · intro a m still
    have other : a ≠ h.pm.pageToKvaddr x + i * cacheSize c := by
      rintro rfl
      rw [Function.update_self] at still
      cases still
    rw [Function.update_of_ne other] at still
    obtain ⟨d, y, j, fits, old, place⟩ := booked.chunk a m still
    refine ⟨d, y, j, fits, (released.live d y j).mpr ⟨old, ?_⟩, by rw [address]; exact place⟩
    rintro ⟨rfl, rfl⟩
    obtain rfl := booked.kept.holds_unique old.1 ⟨b, member⟩
    exact other place
  · intro d y j still
    obtain ⟨old, other⟩ := (released.live d y j).mp still
    have apart : h.pm.pageToKvaddr y + j * cacheSize d ≠ h.pm.pageToKvaddr x + i * cacheSize c := by
      intro same
      obtain ⟨rfl, place⟩ := chunk_inj (booked.known old.1) known old.2.1 bound same
      exact other ⟨rfl, place (booked.kept.holds_unique old.1 ⟨b, member⟩)⟩
    rw [address, Function.update_of_ne apart]
    exact booked.live d y j old
  · intro p
    rw [booked.pages, perm.mem_iff]
    simp only [released.holds]
    by_cases bare : (B.chain x).length + 1 = capacity c
    · rw [if_pos bare, List.mem_cons]
      simp only [bare, and_true]
      constructor
      · rintro (free | ⟨d, old⟩)
        · exact .inl (.inr free)
        · by_cases same : p = x
          · exact .inl (.inl same)
          · exact .inr ⟨d, old, same⟩
      · rintro ((rfl | free) | ⟨d, old, -⟩)
        · exact .inr ⟨c, b, member⟩
        · exact .inl free
        · exact .inr ⟨d, old⟩
    · rw [if_neg bare]
      simp [bare]

theorem Booked.write (booked : Booked pm l₀ h live l B) {n a c : Nat} {m : ByteMem} (isLive : live a = some n)
    (known : c < nrSlabOrders) (fits : Fits c n) (within : ∀ b, (b < a ∨ a + cacheSize c ≤ b) → m b = h.pm.mem b) :
    Booked pm l₀ { h with pm := { h.pm with mem := m } } live l B := by
  obtain ⟨d, x, i, fits', chunk, rfl⟩ := booked.chunk a n isLive
  obtain rfl := fits.unique known (booked.known chunk.1) fits'
  exact ⟨booked.kept.write chunk within, booked.used, booked.geometry.trans ⟨rfl, rfl⟩, booked.chunk, booked.live, booked.pages⟩

theorem booked (run : SlabRun pm links h live) (start : pm.FreeList l₀) (size : pm.nrPages < 2 ^ 64) :
    ∃ l B, Booked pm l₀ h live l B := by
  induction run with
  | bootstrap =>
    refine ⟨l₀, ⟨fun _ => [], fun _ => []⟩, kept_bootstrap start size links, ?_, .refl _, ?_, ?_, ?_⟩
    all_goals simp [Slabs.Used, Slabs.Holds, Slabs.Live]
  | alloc before positive aligned small run ih =>
    obtain ⟨l, B, booked⟩ := ih
    obtain ⟨a, h', run', -, -, booked'⟩ := booked.alloc positive aligned small
    obtain ⟨rfl, rfl⟩ := Prod.mk.inj (Except.ok.inj (run.symm.trans run'))
    exact booked'
  | free before isLive run ih =>
    obtain ⟨l, B, booked⟩ := ih
    obtain ⟨h', run', booked'⟩ := booked.free isLive
    obtain rfl := Except.ok.inj (run.symm.trans run')
    exact booked'
  | write before isLive known fits within ih =>
    obtain ⟨l, B, booked⟩ := ih
    exact ⟨l, B, booked.write isLive known fits within⟩

/-- The pages of a cache are those of its slabs with a live chunk. -/
theorem Booked.heldBy_iff (booked : Booked pm l₀ h live l B) {c p : Nat} (known : c < nrSlabOrders) :
    h.HeldBy c p ↔ ∃ a n, live a = some n ∧ Fits c n ∧ h.pm.pageToKvaddr p ≤ a ∧ a < h.pm.pageToKvaddr p + 16384 := by
  rw [booked.kept.heldBy_iff]
  have inside : ∀ {c i : Nat}, c < nrSlabOrders → i < capacity c → i * cacheSize c < 16384 := by
    intro c i known bound
    have eight := (cacheSize_bounds known).1
    have step := chunk_fits known bound
    omega
  constructor
  · intro holds
    obtain ⟨i, chunk⟩ := booked.used.live holds
    obtain ⟨n, isLive, fits⟩ := booked.live c p i chunk
    have := inside known chunk.2.1
    exact ⟨_, n, isLive, fits, by omega, by omega⟩
  · rintro ⟨a, n, isLive, fits, lower, upper⟩
    obtain ⟨d, x, i, fits', chunk, rfl⟩ := booked.chunk a n isLive
    have knownD := booked.known chunk.1
    obtain rfl := fits.unique known knownD fits'
    have := inside known chunk.2.1
    have pages : x = p := by
      rw [PageMem.pageToKvaddr_eq, PageMem.pageToKvaddr_eq] at lower upper
      omega
    exact pages ▸ chunk.1

/-- No page leaks: a cache holds a page as long as one of its chunks is live, and the
free pages of the start are there again once no chunk is. -/
theorem leaksNoPage (start : pm.FreeList l₀) (size : pm.nrPages < 2 ^ 64) (run : SlabRun pm links h live) :
    (∀ c < nrSlabOrders, ∀ p, h.HeldBy c p ↔
      ∃ a n, live a = some n ∧ Fits c n ∧ h.pm.pageToKvaddr p ≤ a ∧ a < h.pm.pageToKvaddr p + 16384) ∧
    (∃ l, h.pm.FreeList l ∧ ∀ p, p ∈ l₀ ↔ p ∈ l ∨ ∃ c, h.HeldBy c p) ∧
    (∀ n, 0 < n → n % 8 = 0 → n ≤ largeChunk →
      ∃ a h', h.slabAlloc n = .ok (a, h') ∧ (a ≠ 0 → live a = none)) ∧
    (∀ a n, live a = some n → ∃ h', h.slabFree a = .ok h') ∧
    ((∀ a, live a = none) → (∀ c, (h.kmcache c).avail = none ∧ (h.kmcache c).full = none) ∧
      h.pm.FreeList l₀ ∧ h.pm.nrFreePages = pm.nrFreePages) := by
  obtain ⟨l, B, booked⟩ := run.booked start size
  refine ⟨fun c known p => booked.heldBy_iff known, ⟨l, booked.kept.free, ?_⟩, ?_, ?_, ?_⟩
  · intro p
    simp only [booked.kept.heldBy_iff]
    exact booked.pages p
  · intro n positive aligned small
    obtain ⟨a, h', run', -, fresh, -⟩ := booked.alloc positive aligned small
    exact ⟨a, h', run', fresh⟩
  · intro a n isLive
    obtain ⟨h', run', -⟩ := booked.free isLive
    exact ⟨h', run'⟩
  · intro none
    have empty : ∀ c x, ¬ B.Holds c x := by
      intro c x holds
      obtain ⟨i, chunk⟩ := booked.used.live holds
      obtain ⟨n, isLive, -⟩ := booked.live c x i chunk
      rw [none] at isLive
      cases isLive
    have queues : ∀ k, B.queue k = [] := fun ⟨c, b⟩ => List.eq_nil_iff_forall_not_mem.mpr fun x inside => empty c x ⟨b, inside⟩
    have heads : ∀ k, h.head k = .none := by
      intro k
      rw [(booked.kept.queues.isQueue k).head, queues, List.head?_nil]
    have same : l = l₀ := by
      refine sorted_ext booked.kept.free.sorted start.sorted fun p => ?_
      rw [booked.pages]
      simp [empty]
    subst same
    refine ⟨fun c => ⟨heads (c, true), heads (c, false)⟩, booked.kept.free, ?_⟩
    rw [booked.kept.free.count, start.count]

/-- A chunk is taken and given back on the machine with four pages. -/
theorem leaksNoPage_four :
    ∃ a h h', a ≠ 0 ∧
      SlabRun (initPageArray 0 4 ⟨id, id⟩ fun _ => 0) ⟨id, id⟩ h (Function.update (fun _ => none) a (some 8)) ∧
      h.slabFree a = .ok h' ∧ h'.pm.FreeList [1, 2, 3] ∧ ∀ c, (h'.kmcache c).avail = none := by
  have start := PageMem.bootFree ⟨id, id⟩ fun _ => 0
  have size : (initPageArray 0 4 ⟨id, id⟩ fun _ => 0).nrPages < 2 ^ 64 := by
    show 4 < 2 ^ 64
    decide
  have boot : SlabRun (initPageArray 0 4 ⟨id, id⟩ fun _ => 0) ⟨id, id⟩ _ _ := .bootstrap
  obtain ⟨l, B, booked⟩ := boot.booked start size
  obtain ⟨a, h, taken, full, -⟩ := booked.alloc (n := 8) (by decide) (by decide) (by decide)
  have some : a ≠ 0 := by
    intro zero
    rcases (booked.pages 1).mp (by simp) with free | ⟨c, holds⟩
    · simp [full zero] at free
    · obtain ⟨i, chunk⟩ := booked.used.live holds
      obtain ⟨n, isLive, -⟩ := booked.live c 1 i chunk
      cases isLive
  have one := boot.alloc (by decide) (by decide) (by decide) taken
  rw [if_neg some] at one
  obtain ⟨-, -, -, freed, -⟩ := leaksNoPage start size one
  obtain ⟨h', given⟩ := freed a 8 (Function.update_self ..)
  have two := one.free (Function.update_self ..) given
  obtain ⟨-, -, -, -, last⟩ := leaksNoPage start size two
  obtain ⟨heads, free, -⟩ := last fun b => by
    by_cases same : b = a
    · subst same
      exact Function.update_self ..
    · rw [Function.update_of_ne same, Function.update_of_ne same]
  exact ⟨a, h, h', some, one, given, free, fun c => (heads c).1⟩

end SlabRun

end Xv6
