import Xv6.VmUnmap

namespace Xv6

open PageMem

namespace Mm

variable {k k₁ k₂ k' : Mm} {root a v n : Nat} {r : Dirs} {l l₁ : List Nat} {B B₁ : Heap.Slabs}
variable {areas pre post : List (Nat × VmArea)} {e : Nat × VmArea} {w : VmArea}

/-- What `vm_area_new` leaves: an area that is not in the list, or none, when it would be empty or when there is no
memory for it. -/
inductive Part (k k' : Mm) (l l' : List Nat) (B B' : Heap.Slabs) (a : Nat) (w : VmArea) : Prop
  | none (null : a = 0) (reason : w.stop ≤ w.start ∨ l.length < chunkPages B) (area : k'.area = k.area)
      (pm : k'.heap.pm = k.heap.pm) (pages : l' = l) (slabs : B' = B)
  | some {x i : Nat} (nonzero : a ≠ 0) (order : w.start < w.stop) (fresh : k.area a = .none)
      (area : k'.area = Function.update k.area a (.some w)) (served : Heap.Served k.heap k'.heap l l' B B' areaCache x i)
      (chunk : Heap.Chunk k'.heap B' a sizeofVmArea areaCache x i)

/-- The links of the list of areas and the machine are the same. -/
structure SameList (k k' : Mm) : Prop where
  link : k'.link = k.link
  self : k'.self = k.self
  pgd : k'.pgd = k.pgd
  geometry : k.heap.pm.SameGeometry k'.heap.pm

theorem SameList.trans (first : k.SameList k₁) (second : k₁.SameList k') : k.SameList k' :=
  ⟨second.link.trans first.link, second.self.trans first.self, second.pgd.trans first.pgd, first.geometry.trans second.geometry⟩

namespace Part

variable {l' : List Nat} {B' : Heap.Slabs}

theorem used (part : k.Part k' l l' B B' a w) (used : B.Used) : B'.Used := by
  cases part with
  | none null reason area pm pages slabs => rwa [slabs]
  | some nonzero order fresh area served chunk => exact served.handed.used fun d y _ holds => used d y holds

/-- The area is a new object. -/
theorem fresh (part : k.Part k' l l' B B' a w) (nonzero : a ≠ 0) : k.area a = .none := by
  cases part with
  | none null reason area pm pages slabs => exact absurd null nonzero
  | some nonzero order fresh area served chunk => exact fresh

theorem object (part : k.Part k' l l' B B' a w) (nonzero : a ≠ 0) : w.start < w.stop ∧ k'.area a = .some w := by
  cases part with
  | none null reason area pm pages slabs => exact absurd null nonzero
  | some nonzero order fresh area served chunk => exact ⟨order, by rw [area, Function.update_self]⟩

/-- The objects that are there stay as they are. -/
theorem others (part : k.Part k' l l' B B' a w) {b : Nat} {u : VmArea} (known : k.area b = .some u) : k'.area b = .some u := by
  cases part with
  | none null reason area pm pages slabs => rwa [area]
  | some nonzero order fresh area served chunk =>
    have other : b ≠ a := by
      rintro rfl
      rw [fresh] at known
      cases known
    rw [area, Function.update_of_ne other, known]

end Part

theorem Kept.part (kept : k.Kept root r l B areas) {start stop : Nat} (flags : Nat)
    (aligned : start % 16384 = 0 ∧ stop % 16384 = 0) :
    ∃ a k' l' B', k.areaNew start stop flags = .ok (a, k') ∧ k'.Kept root r l' B' areas ∧ k.SameList k' ∧
      k.Part k' l l' B B' a ⟨start, stop, flags, 0⟩ := by
  by_cases empty : stop ≤ start
  · exact ⟨0, k, l, B, if_pos empty, kept, ⟨rfl, rfl, rfl, .refl _⟩, .none rfl (.inl empty) rfl rfl rfl rfl⟩
  have order := Nat.lt_of_not_le empty
  rcases kept.areaNew flags order aligned with
    ⟨h', run, same, scarce, kept'⟩ | ⟨a, h', l', B', x, i, run, nonzero, fresh, served, chunk, kept'⟩
  · exact ⟨0, _, l, B, run, kept', ⟨rfl, rfl, rfl, by rw [same]; exact .refl _⟩, .none rfl (.inr scarce) rfl same rfl rfl⟩
  · exact ⟨a, _, l', B', run, kept', ⟨rfl, rfl, rfl, served.geometry⟩, .some nonzero order fresh rfl served chunk⟩

/-- A part that is not used is given back, and with it the page that was taken for it. -/
theorem Kept.giveBack (kept : k.Kept root r l B areas) (used : B.Used) (part : k.Part k₁ l l₁ B B₁ a w)
    (kept₂ : k₂.Kept root r l₁ B₁ areas) (area : k₂.area = k₁.area) (pm : k₂.heap.pm = k₁.heap.pm) :
    ∃ k' l' B', k₂.areaDestroy a = .ok k' ∧ k'.Kept root r l' B' areas ∧ k₂.SameList k' ∧ k'.area = k.area ∧ B'.Used ∧
      ∀ q, q ∈ l' ↔ q ∈ l := by
  cases part with
  | none null reason same unchanged pages slabs =>
    subst null pages slabs
    exact ⟨k₂, l₁, B₁, if_pos rfl, kept₂, ⟨rfl, rfl, rfl, .refl _⟩, area.trans same, used, fun q => Iff.rfl⟩
  | @some x i nonzero order fresh new served chunk =>
    have object : k₂.area a = some w := by rw [area, new, Function.update_self]
    obtain ⟨h', l', c, y, j, run, chunk', released, perm, geometry, kept'⟩ :=
      kept₂.areaDestroy (object ▸ Option.some_ne_none w) (kept.unlisted fresh)
    have chunk₂ : Heap.Chunk k₂.heap B₁ a sizeofVmArea areaCache x i := ⟨chunk.1, chunk.2.1, by rw [pm]; exact chunk.2.2⟩
    obtain ⟨rfl, rfl, rfl⟩ := Heap.Chunk.unique kept₂.heap chunk₂ chunk' rfl
    obtain ⟨used', slabs⟩ := served.undone released used
    have restored : Function.update k₂.area a none = k.area := by
      rw [area, new, Function.update_idem, ← fresh, Function.update_eq_self]
    refine ⟨_, l', B₁.put areaCache x i, run, kept', ⟨rfl, rfl, rfl, geometry⟩, restored, used', fun q => ?_⟩
    have given := released.pages_iff chunk'.2.1.1 perm q
    have taken := served.pages_iff q
    have apart : q ∈ l' → ¬ (B₁.put areaCache x i).Slab q := fun free slab => by
      obtain ⟨d, holds⟩ := slab
      exact (kept'.heap.slabPage holds).not_free kept'.heap.free free
    have apart' : q ∈ l → ¬ B.Slab q := fun free slab => by
      obtain ⟨d, holds⟩ := slab
      exact (kept.heap.slabPage holds).not_free kept.heap.free free
    rw [slabs] at given apart
    grind

/-- A part is put into the list. -/
theorem Kept.insertPart (kept : k.Kept root r l B areas) (ordered : Ordered areas)
    (part : a = 0 ∧ w.stop ≤ w.start ∨ a ≠ 0 ∧ w.start < w.stop ∧ k.area a = some w ∧ a ∉ areas.map Prod.fst)
    (aligned : w.start % 16384 = 0 ∧ w.stop % 16384 = 0) (bound : w.stop < 2 ^ 64)
    (apart : ∀ f ∈ areas, f.2.stop ≤ w.start ∨ w.stop ≤ f.2.start) :
    ∃ k' areas', k.areaInsert a = .ok k' ∧ k'.Kept root r l B areas' ∧ Ordered areas' ∧ k'.self = k.self ∧
      (∀ b ≠ a, k'.area b = k.area b) ∧
      ∀ g, g ∈ areas' ↔ g ∈ areas ∨ w.start < w.stop ∧ g = (a, { w with mm := k.self }) := by
  rcases part with ⟨rfl, empty⟩ | ⟨nonzero, valid, object, fresh⟩
  · refine ⟨k, areas, if_pos rfl, kept, ordered, rfl, fun _ _ => rfl, fun g => ?_⟩
    simp [Nat.not_lt.mpr empty]
  · obtain ⟨k', run⟩ := areaInsert_spec kept.listed ordered object nonzero fresh valid
    obtain ⟨L, pre, post, rfl, rfl, listed, below, above⟩ := areaInsert_done kept.listed object nonzero fresh run
    have others : ∀ b ≠ a, Function.update k.area a (some { w with mm := k.self }) b = k.area b :=
      fun b other => Function.update_of_ne other ..
    refine ⟨_, _, run, ⟨kept.heap, kept.space, kept.pgd, listed, fun b known => ?_⟩,
      ordered.place (e := (a, { w with mm := k.self })) valid aligned bound below above apart, rfl, others, fun g => ?_⟩
    · by_cases here : b = a
      · subst here
        exact kept.chunk b (object ▸ Option.some_ne_none w)
      · exact kept.chunk b (others b here ▸ known)
    · simp only [List.mem_append, List.mem_cons, valid, true_and]
      grind

/-- An area is taken off the list and freed. The area that was accessed last is forgotten when it is this one. -/
theorem Kept.dropArea (kept : k.Kept root r l B (pre ++ e :: post)) :
    ∃ k₁ k' l' B', (if e.1 = k.vmaLastAccessed then { k with vmaLastAccessed := 0 } else k).areaRemove e.1 = .ok k₁ ∧
      k₁.areaDestroy e.1 = .ok k' ∧ k'.Kept root r l' B' (pre ++ post) ∧ k'.self = k.self ∧
      (∀ b ≠ e.1, k'.area b = k.area b) ∧ (B.Used → B'.Used) := by
  obtain ⟨y, cache, known, other⟩ : ∃ y, (if e.1 = k.vmaLastAccessed then { k with vmaLastAccessed := 0 } else k) =
      { k with vmaLastAccessed := y } ∧ (y = 0 ∨ y ∈ (pre ++ e :: post).map Prod.fst) ∧ y ≠ e.1 := by
    have nonzero := kept.listed.nonzero e (by simp)
    split_ifs with same
    · exact ⟨0, rfl, .inl rfl, nonzero.symm⟩
    · exact ⟨k.vmaLastAccessed, rfl, kept.listed.last, fun equal => same equal.symm⟩
  have nodup := kept.listed.nodup
  rw [List.map_append, List.map_cons] at nodup
  have unlisted : e.1 ∉ (pre ++ post).map Prod.fst := by
    rw [List.map_append]
    intro inside
    rcases List.mem_append.mp inside with left | right
    · exact (List.nodup_append.mp nodup).2.2 _ left _ (List.mem_cons_self ..) rfl
    · exact (List.nodup_cons.mp (List.nodup_append.mp nodup).2.1).1 right
  obtain ⟨remove, listed⟩ := areaRemove_spec (kept.listed.accessed known) other
  have kept₁ : Kept { k with vmaLastAccessed := y, link := k.link.delInit (.node e.1) } root r l B (pre ++ post) :=
    ⟨kept.heap, kept.space, kept.pgd, listed, kept.chunk⟩
  have object : k.area e.1 = some e.2 := kept.listed.area e (by simp)
  obtain ⟨h', l', c, x, i, destroy, chunk, released, perm, geometry, kept'⟩ :=
    kept₁.areaDestroy (show k.area e.1 ≠ none from object ▸ Option.some_ne_none _) unlisted
  rw [cache]
  exact ⟨_, _, l', _, remove, destroy, kept', rfl, fun b outside => Function.update_of_ne outside .., released.used⟩

/-- There is no memory for what is left of the area, below or above the range. -/
def SplitFails (k : Mm) (u : VmArea) (v vaddrEnd : Nat) : Prop :=
  ∃ a k₁ b k₂, k.areaNew u.start v u.flags = .ok (a, k₁) ∧ k₁.areaNew vaddrEnd u.stop u.flags = .ok (b, k₂) ∧
    ((a = 0 ∧ u.start ≠ v) ∨ (b = 0 ∧ vaddrEnd ≠ u.stop))

/-- The range is in the area, which is in the list. -/
structure Inside (areas pre post : List (Nat × VmArea)) (e : Nat × VmArea) (v n : Nat) : Prop where
  ordered : Ordered areas
  split : areas = pre ++ e :: post
  aligned : v % 16384 = 0
  some : 1 ≤ n
  lower : e.2.start ≤ v
  upper : v + 16384 * n ≤ e.2.stop

namespace Inside

theorem member (inside : Inside areas pre post e v n) : e ∈ areas := by simp [inside.split]

theorem aligned' (inside : Inside areas pre post e v n) : (e.2.start % 16384 = 0 ∧ v % 16384 = 0) ∧
    (v + 16384 * n) % 16384 = 0 ∧ e.2.stop % 16384 = 0 := by
  have whole := inside.ordered.aligned e inside.member
  have := inside.aligned
  omega

/-- The other areas are below or above. -/
theorem apart (inside : Inside areas pre post e v n) : ∀ f ∈ pre ++ post, f.2.stop ≤ e.2.start ∨ e.2.stop ≤ f.2.start := by
  have sorted := inside.ordered.sorted
  rw [inside.split] at sorted
  obtain ⟨-, right, across⟩ := List.pairwise_append.mp sorted
  intro f member
  rcases List.mem_append.mp member with left | behind
  · exact .inl (across f left e (List.mem_cons_self ..))
  · exact .inr ((List.pairwise_cons.mp right).1 f behind)

end Inside

/-- Without memory for the parts nothing changes. -/
theorem Kept.unmapInside_refused (kept : k.Kept root r l B areas) (used : B.Used) (inside : Inside areas pre post e v n)
    (fails : k.SplitFails e.2 v (v + 16384 * n)) :
    ∃ k' l' B', k.unmapInside e.1 v (v + 16384 * n) = .ok (-enomem, k') ∧ k'.Kept root r l' B' areas ∧ k.SameList k' ∧
      k'.area = k.area ∧ B'.Used ∧ ∀ q, q ∈ l' ↔ q ∈ l := by
  obtain ⟨aligned, aligned'⟩ := inside.aligned'
  obtain ⟨a, k₁, l₁, B₁, head, kept₁, same₁, partA⟩ := kept.part e.2.flags aligned
  obtain ⟨b, k₂, l₂, B₂, tail, kept₂, same₂, partB⟩ := kept₁.part e.2.flags aligned'
  obtain ⟨a', k₁', b', k₂', head', tail', reason⟩ := fails
  obtain ⟨rfl, rfl⟩ := Prod.mk.inj (Except.ok.inj (head.symm.trans head'))
  obtain ⟨rfl, rfl⟩ := Prod.mk.inj (Except.ok.inj (tail.symm.trans tail'))
  -- without memory for the head there is none for the tail
  have null : b = 0 := by
    rcases reason with ⟨rfl, other⟩ | ⟨rfl, -⟩
    · cases partA with
      | none _ reason _ _ pages slabs =>
        subst pages slabs
        have scarce := reason.resolve_left (Nat.not_le.mpr (Nat.lt_of_le_of_ne inside.lower other))
        exact (kept₁.areaNew_null aligned' (.inr scarce) tail).1
      | some nonzero _ _ _ _ _ => exact absurd rfl nonzero
    · rfl
  cases partB with
  | some nonzero _ _ _ _ _ => exact absurd null nonzero
  | none _ _ area pm pages slabs =>
    subst pages slabs
    obtain ⟨k', l', B', destroy, kept', same', area', used', free⟩ := kept.giveBack used partA kept₂ area pm
    refine ⟨k', l', B', ?_, kept', same₁.trans (same₂.trans same'), area', used', free⟩
    have nothing : k'.areaDestroy b = .ok k' := if_pos null
    simp only [unmapInside, vma_eq (kept.listed.area e inside.member), Res.ok_bind, head, tail, reason, if_true, destroy, nothing]

/-- Two pages are enough for the parts. -/
theorem Kept.split_served (kept : k.Kept root r l B areas) (inside : Inside areas pre post e v n) (enough : 2 ≤ l.length) :
    ¬ k.SplitFails e.2 v (v + 16384 * n) := by
  rintro ⟨a', k₁', b', k₂', head', tail', reason⟩
  obtain ⟨aligned, aligned'⟩ := inside.aligned'
  have lower := inside.lower
  have upper := inside.upper
  have chunk : ∀ C : Heap.Slabs, chunkPages C ≤ 1 := fun C => by
    rw [chunkPages]
    split <;> omega
  obtain ⟨a, k₁, l₁, B₁, head, kept₁, -, partA⟩ := kept.part e.2.flags aligned
  obtain ⟨b, k₂, l₂, B₂, tail, -, -, partB⟩ := kept₁.part e.2.flags aligned'
  obtain ⟨rfl, rfl⟩ := Prod.mk.inj (Except.ok.inj (head.symm.trans head'))
  obtain ⟨rfl, rfl⟩ := Prod.mk.inj (Except.ok.inj (tail.symm.trans tail'))
  have left : 1 ≤ l₁.length := by
    cases partA with
    | none _ _ _ _ pages _ =>
      rw [pages]
      omega
    | some _ _ _ _ served _ =>
      rcases served.pages with ⟨rfl, -⟩ | ⟨-, rfl⟩
      · omega
      · rw [List.length_cons] at enough
        omega
  rcases reason with ⟨rfl, other⟩ | ⟨rfl, other⟩
  · cases partA with
    | none _ reason _ _ _ _ =>
      have := chunk B
      simp only at reason
      omega
    | some nonzero _ _ _ _ _ => exact nonzero rfl
  · cases partB with
    | none _ reason _ _ _ _ =>
      have := chunk B₁
      simp only at reason
      omega
    | some nonzero _ _ _ _ _ => exact nonzero rfl

/-- The area is replaced by what is left of it. -/
theorem Kept.unmapInside_done (kept : k.Kept root r l B areas) (used : B.Used) (inside : Inside areas pre post e v n)
    (fine : ¬ k.SplitFails e.2 v (v + 16384 * n)) :
    ∃ k' l' B' areas' a b, k.unmapInside e.1 v (v + 16384 * n) = .ok (0, k') ∧ k'.Kept root r l' B' areas' ∧ B'.Used ∧
      Ordered areas' ∧ k'.self = k.self ∧ ∀ g, g ∈ areas' ↔ (g ∈ pre ++ post ∨
        e.2.start < v ∧ g = (a, ⟨e.2.start, v, e.2.flags, k.self⟩)) ∨
        v + 16384 * n < e.2.stop ∧ g = (b, ⟨v + 16384 * n, e.2.stop, e.2.flags, k.self⟩) := by
  obtain ⟨aligned, aligned'⟩ := inside.aligned'
  obtain ⟨a, k₁, l₁, B₁, head, kept₁, same₁, partA⟩ := kept.part e.2.flags aligned
  obtain ⟨b, k₂, l₂, B₂, tail, kept₂, same₂, partB⟩ := kept₁.part e.2.flags aligned'
  have reason : ¬ ((a = 0 ∧ e.2.start ≠ v) ∨ (b = 0 ∧ v + 16384 * n ≠ e.2.stop)) := fun reason =>
    fine ⟨a, k₁, b, k₂, head, tail, reason⟩
  have bound := inside.ordered.bound e inside.member
  have lower := inside.lower
  have upper := inside.upper
  have some := inside.some
  have ordered := inside.ordered
  have split := inside.split
  have apart := inside.apart
  have object := kept.listed.area e inside.member
  have sub : ∀ x, x ∈ (pre ++ post).map Prod.fst → x ∈ areas.map Prod.fst := by
    intro x member
    rw [split]
    simp only [List.map_append, List.map_cons, List.mem_append, List.mem_cons] at member ⊢
    grind
  -- the parts are new objects
  have newA : a ≠ 0 → a ∉ areas.map Prod.fst := fun nonzero => kept.unlisted (partA.fresh nonzero)
  have newB : b ≠ 0 → b ∉ areas.map Prod.fst := fun nonzero => kept₁.unlisted (partB.fresh nonzero)
  have different : b ≠ 0 → a ≠ 0 → b ≠ a := by
    rintro nonzero nonzero' rfl
    have none := partB.fresh nonzero
    rw [(partA.object nonzero').2] at none
    cases none
  have listedE : e.1 ∈ areas.map Prod.fst := List.mem_map_of_mem inside.member
  have kept₂' : k₂.Kept root r l₂ B₂ (pre ++ e :: post) := split ▸ kept₂
  obtain ⟨k₃, k₄, l₄, B₄, remove, destroy, kept₄, self₄, area₄, used₄⟩ := kept₂'.dropArea
  have orderedDrop : Ordered (pre ++ post) := by
    rw [split] at ordered
    exact ordered.remove
  obtain ⟨k₅, areas₅, insert, kept₅, ordered₅, self₅, area₅, members⟩ :=
    kept₄.insertPart (a := a) (w := ⟨e.2.start, v, e.2.flags, 0⟩) orderedDrop (by
      by_cases nonzero : a = 0
      · exact .inl ⟨nonzero, by
          show v ≤ e.2.start
          omega⟩
      · obtain ⟨order, made⟩ := partA.object nonzero
        refine .inr ⟨nonzero, order, ?_, fun member => newA nonzero (sub a member)⟩
        rw [area₄ a fun same => newA nonzero (same ▸ listedE)]
        exact partB.others made) aligned (show v < 2 ^ 64 by omega) fun f member => (apart f member).imp id fun above =>
          show v ≤ f.2.start by omega
  obtain ⟨k₆, areas₆, insert', kept₆, ordered₆, self₆, -, members'⟩ :=
    kept₅.insertPart (a := b) (w := ⟨v + 16384 * n, e.2.stop, e.2.flags, 0⟩) ordered₅ (by
      by_cases nonzero : b = 0
      · refine .inl ⟨nonzero, ?_⟩
        show e.2.stop ≤ v + 16384 * n
        omega
      · obtain ⟨order, made⟩ := partB.object nonzero
        have other : b ≠ a := fun same => different nonzero (same ▸ nonzero) same
        refine .inr ⟨nonzero, order, ?_, fun member => ?_⟩
        · rw [area₅ b other, area₄ b fun same => newB nonzero (same ▸ listedE)]
          exact made
        · obtain ⟨g, inList, same⟩ := List.mem_map.mp member
          rcases (members g).mp inList with old | ⟨-, rfl⟩
          · exact newB nonzero (sub b (same ▸ List.mem_map_of_mem old))
          · exact other same.symm) aligned' bound fun f member => by
        show f.2.stop ≤ v + 16384 * n ∨ e.2.stop ≤ f.2.start
        rcases (members f).mp member with old | ⟨-, rfl⟩
        · exact (apart f old).imp (fun below => by omega) id
        · exact .inl (Nat.le_add_right ..)
  have self : k₄.self = k.self := self₄.trans (same₂.self.trans same₁.self)
  refine ⟨k₆, l₄, B₄, areas₆, a, b, ?_, kept₆, used₄ (partB.used (partA.used used)), ordered₆, self₆.trans (self₅.trans self),
    fun g => ?_⟩
  · simp only [unmapInside, vma_eq object, Res.ok_bind, head, tail, reason, if_false, remove, destroy, insert, insert']
  · rw [members', members, self₅, self]

/-- What `vm_area_new` does has nothing to do with the area that was accessed last. -/
theorem areaNew_accessed {start stop flags : Nat} (y : Nat) (new : k.areaNew start stop flags = .ok (a, k')) :
    { k with vmaLastAccessed := y }.areaNew start stop flags = .ok (a, { k' with vmaLastAccessed := y }) := by
  rw [areaNew] at new ⊢
  split_ifs at new ⊢ with empty odd
  · obtain ⟨rfl, rfl⟩ := Prod.mk.inj (Except.ok.inj new)
    rfl
  · obtain ⟨⟨b, heap⟩, alloc, new⟩ := Res.bind_eq_ok.mp new
    simp only [alloc, Res.ok_bind] at new ⊢
    split_ifs at new ⊢ with null
    all_goals
      obtain ⟨rfl, rfl⟩ := Prod.mk.inj (Except.ok.inj new)
      rfl

theorem SplitFails.accessed {u : VmArea} {stop : Nat} (fails : k.SplitFails u v stop) (y : Nat) :
    { k with vmaLastAccessed := y }.SplitFails u v stop := by
  obtain ⟨a, k₁, b, k₂, head, tail, reason⟩ := fails
  exact ⟨a, _, b, _, areaNew_accessed y head, areaNew_accessed y tail, reason⟩

/-- The range is found in its area, and the work on the areas begins. -/
theorem unmapPages_inside (listed : k.Listed areas) (inside : Inside areas pre post e v n) :
    ∃ y, Listed { k with vmaLastAccessed := y } areas ∧ k.unmapPages v n =
      ({ k with vmaLastAccessed := y }.unmapInside e.1 v (v + 16384 * n) >>= fun done =>
        if done.1 ≠ 0 then .ok (done.1, done.2)
        else freeLoop n (intMax + 1) 0 v done.2 >>= fun k => .ok (0, k)) := by
  have lower := inside.lower
  have upper := inside.upper
  have some := inside.some
  obtain ⟨y, known, run⟩ := unmapPages_found listed inside.ordered inside.member inside.member inside.aligned
    (show e.2.Has v from ⟨lower, by omega⟩) (show e.2.Has (v + 16384 * n - 1) from ⟨by omega, by omega⟩) upper (by omega)
  rw [if_pos rfl] at run
  exact ⟨y, listed.accessed known, run⟩

/-- Without memory for the parts `unmap_pages` changes nothing. -/
theorem Kept.unmapPages_refused (kept : k.Kept root r l B areas) (used : B.Used) (inside : Inside areas pre post e v n)
    (fails : k.SplitFails e.2 v (v + 16384 * n)) :
    ∃ k' l' B', k.unmapPages v n = .ok (-enomem, k') ∧ k'.Kept root r l' B' areas ∧ k.SameList k' ∧ k'.area = k.area ∧
      B'.Used ∧ ∀ q, q ∈ l' ↔ q ∈ l := by
  obtain ⟨y, listed, run⟩ := unmapPages_inside kept.listed inside
  have kept₁ : Kept { k with vmaLastAccessed := y } root r l B areas :=
    ⟨kept.heap, kept.space, kept.pgd, listed, kept.chunk⟩
  obtain ⟨k', l', B', refused, kept', same, area, used', free⟩ := kept₁.unmapInside_refused used inside (fails.accessed y)
  refine ⟨k', l', B', ?_, kept', ⟨same.link, same.self, same.pgd, same.geometry⟩, area, used', free⟩
  rw [run, refused, Res.ok_bind, if_pos (show (-enomem : Int) ≠ 0 by decide)]

/-- A range inside of one area is unmapped. -/
theorem Kept.unmapPages_done (kept : k.Kept root r l B areas) (used : B.Used) (inside : Inside areas pre post e v n)
    (fine : ¬ k.SplitFails e.2 v (v + 16384 * n)) (few : n ≤ intMax) :
    ∃ k' r' l' B' areas' a b, k.unmapPages v n = .ok (0, k') ∧ k'.Kept root r' l' B' areas' ∧ B'.Used ∧ Ordered areas' ∧
      (∀ g, g ∈ areas' ↔ (g ∈ pre ++ post ∨ e.2.start < v ∧ g = (a, ⟨e.2.start, v, e.2.flags, k.self⟩)) ∨
        v + 16384 * n < e.2.stop ∧ g = (b, ⟨v + 16384 * n, e.2.stop, e.2.flags, k.self⟩)) ∧
      (∀ π ∈ pathsOf (v / 16384) 0 n, r'.leaf π = none ∧ ∀ w, r.leaf π = some w → w.1 ∈ l') ∧
      ∀ π, π ∉ pathsOf (v / 16384) 0 n → r'.leaf π = r.leaf π := by
  obtain ⟨y, listed, run⟩ := unmapPages_inside kept.listed inside
  have aligned := inside.aligned
  have upper := inside.upper
  have bound := inside.ordered.bound e inside.member
  have kept₁ : Kept { k with vmaLastAccessed := y } root r l B areas :=
    ⟨kept.heap, kept.space, kept.pgd, listed, kept.chunk⟩
  obtain ⟨k₂, l₂, B₂, areas₂, a, b, done, kept₂, used₂, ordered₂, -, members⟩ :=
    kept₁.unmapInside_done used inside fun fails => fine (fails.accessed k.vmaLastAccessed)
  obtain ⟨pm, c, r', l', free, kept', freed⟩ := freeLoop_spec kept₂ (Nat.zero_le n) (show n < 0 + (intMax + 1) by omega)
    (show 16384 * (v / 16384 + n) ≤ 2 ^ 64 by omega) (show v = 16384 * (v / 16384 + 0) % 2 ^ 64 by omega)
  refine ⟨_, r', l', B₂, areas₂, a, b, ?_, kept', used₂, ordered₂, members, fun π here => ⟨freed.cleared π here, freed.freed π here⟩,
    freed.same⟩
  rw [run, done, Res.ok_bind, if_neg (not_not.mpr rfl), free]
  rfl

end Mm

end Xv6
