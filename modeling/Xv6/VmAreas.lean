import Xv6.PageSets
import Xv6.Vm

namespace Xv6

/-- Areas in the order of the list: valid, page-aligned, ascending and disjoint. -/
structure Ordered (areas : List (Nat × VmArea)) : Prop where
  valid : ∀ e ∈ areas, e.2.start < e.2.stop
  aligned : ∀ e ∈ areas, e.2.start % 16384 = 0 ∧ e.2.stop % 16384 = 0
  bound : ∀ e ∈ areas, e.2.stop < 2 ^ 64
  sorted : areas.Pairwise fun e f => e.2.stop ≤ f.2.start

/-- The address is in the area. -/
def VmArea.Has (v : VmArea) (addr : Nat) : Prop := v.start ≤ addr ∧ addr < v.stop

instance (v : VmArea) (addr : Nat) : Decidable (v.Has addr) := inferInstanceAs (Decidable (_ ∧ _))

theorem VmArea.Has.of_bounds {start stop flags mm addr : Nat} (lower : start ≤ addr) (upper : addr < stop) :
    VmArea.Has ⟨start, stop, flags, mm⟩ addr := ⟨lower, upper⟩

/-- The area an address is in. -/
def areaAt (areas : List (Nat × VmArea)) (addr : Nat) : Option (Nat × VmArea) :=
  areas.find? fun e => decide (e.2.Has addr)

namespace Ordered

variable {areas : List (Nat × VmArea)}

theorem apart (ordered : Ordered areas) {e f : Nat × VmArea} (left : e ∈ areas) (right : f ∈ areas) (other : e ≠ f) :
    e.2.stop ≤ f.2.start ∨ f.2.stop ≤ e.2.start := by
  have pairs : areas.Pairwise fun e f => e.2.stop ≤ f.2.start ∨ f.2.stop ≤ e.2.start := ordered.sorted.imp .inl
  have symmetric : Std.Symm fun e f : Nat × VmArea => e.2.stop ≤ f.2.start ∨ f.2.stop ≤ e.2.start :=
    ⟨fun _ _ either => either.symm⟩
  exact pairs.forall left right other

theorem areaAt_eq (ordered : Ordered areas) {e : Nat × VmArea} {addr : Nat} (member : e ∈ areas) (inside : e.2.Has addr) :
    areaAt areas addr = some e := by
  cases found : areaAt areas addr with
  | none => exact absurd inside (by simpa using List.find?_eq_none.mp found e member)
  | some f =>
    have memberF : f ∈ areas := List.mem_of_find?_eq_some found
    have insideF : f.2.Has addr := by simpa using List.find?_some found
    by_contra other
    have distinct : e ≠ f := fun same => other (by rw [same])
    obtain ⟨lower, upper⟩ := inside
    obtain ⟨lowerF, upperF⟩ := insideF
    rcases ordered.apart member memberF distinct with before | behind
    · omega
    · omega

theorem length_le (ordered : Ordered areas) : areas.length ≤ 2 ^ 64 := by
  have starts : (areas.map fun e => e.2.start).Pairwise (· < ·) := by
    refine List.pairwise_map.mpr (ordered.sorted.imp_of_mem fun {e f} memberE _ before => ?_)
    exact Nat.lt_of_lt_of_le (ordered.valid e memberE) before
  have bound : ∀ x ∈ areas.map fun e => e.2.start, x < 2 ^ 64 := by
    rintro x member
    obtain ⟨e, memberE, rfl⟩ := List.mem_map.mp member
    exact Nat.lt_trans (ordered.valid e memberE) (ordered.bound e memberE)
  simpa using sorted_length_le starts bound

theorem remove {l₁ l₂ : List (Nat × VmArea)} {e : Nat × VmArea} (ordered : Ordered (l₁ ++ e :: l₂)) :
    Ordered (l₁ ++ l₂) := by
  have sub : (l₁ ++ l₂).Sublist (l₁ ++ e :: l₂) := (List.sublist_cons_self e l₂).append_left l₁
  exact ⟨fun f member => ordered.valid f (sub.subset member), fun f member => ordered.aligned f (sub.subset member),
    fun f member => ordered.bound f (sub.subset member), ordered.sorted.sublist sub⟩

theorem insert {l₁ l₂ : List (Nat × VmArea)} {e : Nat × VmArea} (ordered : Ordered (l₁ ++ l₂)) (valid : e.2.start < e.2.stop)
    (aligned : e.2.start % 16384 = 0 ∧ e.2.stop % 16384 = 0) (bound : e.2.stop < 2 ^ 64)
    (before : ∀ f ∈ l₁, f.2.stop ≤ e.2.start) (behind : ∀ f ∈ l₂, e.2.stop ≤ f.2.start) : Ordered (l₁ ++ e :: l₂) := by
  have member : ∀ f, f ∈ l₁ ++ e :: l₂ → f = e ∨ f ∈ l₁ ++ l₂ := by
    intro f inside
    simp only [List.mem_append, List.mem_cons] at inside ⊢
    tauto
  refine ⟨fun f inside => ?_, fun f inside => ?_, fun f inside => ?_, ?_⟩
  · rcases member f inside with rfl | old
    · exact valid
    · exact ordered.valid f old
  · rcases member f inside with rfl | old
    · exact aligned
    · exact ordered.aligned f old
  · rcases member f inside with rfl | old
    · exact bound
    · exact ordered.bound f old
  · obtain ⟨left, right, across⟩ := List.pairwise_append.mp ordered.sorted
    refine List.pairwise_append.mpr ⟨left, List.pairwise_cons.mpr ⟨behind, right⟩, fun f inLeft g inRight => ?_⟩
    rcases List.mem_cons.mp inRight with rfl | inRest
    · exact before f inLeft
    · exact across f inLeft g inRest

/-- A new area that is apart from the others, behind those that are below it. -/
theorem place {l₁ l₂ : List (Nat × VmArea)} {e : Nat × VmArea} (ordered : Ordered (l₁ ++ l₂)) (valid : e.2.start < e.2.stop)
    (aligned : e.2.start % 16384 = 0 ∧ e.2.stop % 16384 = 0) (bound : e.2.stop < 2 ^ 64)
    (below : ∀ f ∈ l₁, f.2.stop ≤ e.2.start) (above : ∀ f ∈ l₂.head?, e.2.start < f.2.stop)
    (apart : ∀ f ∈ l₁ ++ l₂, f.2.stop ≤ e.2.start ∨ e.2.stop ≤ f.2.start) : Ordered (l₁ ++ e :: l₂) := by
  refine ordered.insert valid aligned bound below fun g member => ?_
  cases l₂ with
  | nil => cases member
  | cons f rest =>
    have first : e.2.stop ≤ f.2.start := (apart f (by simp)).resolve_left (Nat.not_le.mpr (above f (by simp)))
    rcases List.mem_cons.mp member with rfl | later
    · exact first
    · have next := (List.pairwise_cons.mp (List.pairwise_append.mp ordered.sorted).2.1).1 g later
      have valid' := ordered.valid f (by simp)
      exact le_trans first (le_trans (Nat.le_of_lt valid') next)

end Ordered

namespace Mm

/-- The node where a list of areas starts; the list ends at its head. -/
def vmaNode : List (Nat × VmArea) → VmaNode
  | [] => .mmapList
  | e :: _ => .node e.1

theorem vmaNode_cons (e : Nat × VmArea) (areas : List (Nat × VmArea)) : vmaNode (e :: areas) = .node e.1 := rfl

theorem vmaNode_eq (areas : List (Nat × VmArea)) :
    ((areas.map fun e => VmaNode.node e.1) ++ [VmaNode.mmapList]).head (by simp) = vmaNode areas := by
  cases areas <;> rfl

/-- The area list of the mapping structure, with the contents of the areas. -/
structure Listed (k : Mm) (areas : List (Nat × VmArea)) : Prop where
  ring : k.link.IsRing .mmapList (areas.map fun e => .node e.1)
  area : ∀ e ∈ areas, k.area e.1 = some e.2
  own : ∀ e ∈ areas, e.2.mm = k.self
  nonzero : ∀ e ∈ areas, e.1 ≠ 0
  last : k.vmaLastAccessed = 0 ∨ k.vmaLastAccessed ∈ areas.map Prod.fst

theorem vma_eq {k : Mm} {a : Nat} {v : VmArea} (found : k.area a = some v) : k.vma a = .ok v := by
  rw [vma, found]

variable {k k' : Mm} {areas pre rest l₁ l₂ : List (Nat × VmArea)} {e : Nat × VmArea} {addr new fuel : Nat} {v : VmArea}

theorem fit_eq (valid : v.start < v.stop) (addr : Nat) : v.fit addr = .ok (decide (v.Has addr)) := by
  rw [VmArea.fit, VmArea.valid, decide_eq_true valid, if_pos rfl]
  rfl

namespace Listed

theorem first (listed : k.Listed areas) : k.link.next .mmapList = vmaNode areas := by
  rw [listed.ring.next_head, vmaNode_eq]

theorem live_node (listed : k.Listed areas) {n : VmaNode}
    (member : n ∈ VmaNode.mmapList :: areas.map fun e => VmaNode.node e.1) : k.live n := by
  rcases List.mem_cons.mp member with rfl | inside
  · trivial
  · obtain ⟨e, memberE, rfl⟩ := List.mem_map.mp inside
    show k.area e.1 ≠ none
    rw [listed.area e memberE]
    exact Option.some_ne_none _

theorem next (listed : k.Listed areas) (split : areas = pre ++ e :: rest) : k.nextVma (.node e.1) = .ok (vmaNode rest) := by
  have live : k.live (.node e.1) := listed.live_node (by simp [split])
  have ring := listed.ring
  rw [split, List.map_append, List.map_cons] at ring
  rw [nextVma, if_pos live, ring.next_mid, vmaNode_eq]

theorem nodup (listed : k.Listed areas) : (areas.map Prod.fst).Nodup := by
  have nodes := (List.nodup_cons.mp listed.ring.2).2
  have same : (areas.map fun e => VmaNode.node e.1) = (areas.map Prod.fst).map VmaNode.node := by
    rw [List.map_map]
    rfl
  rw [same] at nodes
  exact nodes.of_map _

theorem accessed (listed : k.Listed areas) {x : Nat} (known : x = 0 ∨ x ∈ areas.map Prod.fst) :
    Listed { k with vmaLastAccessed := x } areas :=
  ⟨listed.ring, listed.area, listed.own, listed.nonzero, known⟩

/-- Objects that are not in the list may change. -/
theorem elsewhere (listed : k.Listed areas) (link : k'.link = k.link) (self : k'.self = k.self)
    (last : k'.vmaLastAccessed = k.vmaLastAccessed) (area : ∀ e ∈ areas, k'.area e.1 = k.area e.1) : k'.Listed areas := by
  refine ⟨by rw [link]; exact listed.ring, fun e member => ?_, fun e member => ?_, listed.nonzero,
    by rw [last]; exact listed.last⟩
  · rw [area e member]
    exact listed.area e member
  · rw [self]
    exact listed.own e member

theorem setArea (listed : k.Listed areas) (fresh : new ∉ areas.map Prod.fst) (v : VmArea) :
    (k.setArea new v).Listed areas := by
  refine listed.elsewhere rfl rfl rfl fun e member => ?_
  have other : e.1 ≠ new := fun same => fresh (same ▸ List.mem_map_of_mem member)
  exact Function.update_of_ne other ..

/-- A list of areas that is in the mapping structure is the only one. -/
theorem unique {areas' : List (Nat × VmArea)} (left : k.Listed areas) (right : k.Listed areas') : areas = areas' := by
  have nodes := left.ring.unique right.ring
  have injective : Function.Injective VmaNode.node := fun _ _ same => VmaNode.node.inj same
  have keys : areas.map Prod.fst = areas'.map Prod.fst := by
    refine List.map_injective_iff.mpr injective ?_
    rw [List.map_map, List.map_map]
    exact nodes
  refine List.ext_getElem (by simpa using congrArg List.length keys) fun i here there => ?_
  have same : areas[i].1 = areas'[i].1 := by
    have := List.getElem_of_eq keys (by simpa using here)
    simpa using this
  refine Prod.ext same ?_
  have known := left.area _ (List.getElem_mem here)
  rw [same, right.area _ (List.getElem_mem there)] at known
  exact (Option.some.inj known).symm

end Listed

theorem findLoop_spec (listed : k.Listed areas) (valid : ∀ e ∈ areas, e.2.start < e.2.stop) (split : areas = pre ++ rest)
    (enough : rest.length ≤ fuel) :
    k.findLoop addr fuel (vmaNode rest) = .ok ((areaAt rest addr).elim 0 Prod.fst) := by
  induction rest generalizing pre fuel with
  | nil =>
    rw [vmaNode, findLoop]
    rfl
  | cons e rest ih =>
    obtain ⟨fuel, rfl⟩ : ∃ n, fuel = n + 1 := ⟨fuel - 1, by simp only [List.length_cons] at enough; omega⟩
    have member : e ∈ areas := by simp [split]
    have rest' := ih (show areas = (pre ++ [e]) ++ rest by simpa using split) (show rest.length ≤ fuel by simpa using enough)
    simp only [vmaNode_cons, findLoop, vma_eq (listed.area e member), fit_eq (valid e member), Res.ok_bind, listed.next split, rest',
      areaAt, List.find?_cons]
    by_cases inside : e.2.Has addr
    · simp [inside]
    · simp [inside]

/-- `vm_area_find` finds the area, and remembers it. -/
theorem areaFind_spec (listed : k.Listed areas) (ordered : Ordered areas) (addr : Nat) :
    ∃ x, k.areaFind addr = .ok ((areaAt areas addr).elim 0 Prod.fst, { k with vmaLastAccessed := x }) ∧
      (x = 0 ∨ x ∈ areas.map Prod.fst) := by
  have walk : k.findLoop addr vmaFuel (k.link.next .mmapList) = .ok ((areaAt areas addr).elim 0 Prod.fst) := by
    rw [listed.first]
    exact findLoop_spec listed ordered.valid (List.nil_append areas).symm ordered.length_le
  have searched : k.lastFits addr = .ok false →
      ∃ x, k.areaFind addr = .ok ((areaAt areas addr).elim 0 Prod.fst, { k with vmaLastAccessed := x }) ∧
        (x = 0 ∨ x ∈ areas.map Prod.fst) := by
    intro miss
    simp only [areaFind, miss, Res.ok_bind, Bool.false_eq_true, if_false, walk]
    cases found : areaAt areas addr with
    | none =>
      rw [Option.elim_none, if_pos rfl]
      exact ⟨k.vmaLastAccessed, rfl, listed.last⟩
    | some f =>
      have member : f ∈ areas := List.mem_of_find?_eq_some found
      rw [Option.elim_some, if_neg (listed.nonzero f member)]
      exact ⟨f.1, rfl, .inr (List.mem_map_of_mem member)⟩
  by_cases null : k.vmaLastAccessed = 0
  · exact searched (by rw [lastFits, if_pos null])
  · obtain ⟨f, member, same⟩ := List.mem_map.mp (listed.last.resolve_left null)
    have read : k.lastFits addr = .ok (decide (f.2.Has addr)) := by
      rw [lastFits, if_neg null, ← same, vma_eq (listed.area f member), Res.ok_bind, fit_eq (ordered.valid f member)]
    by_cases inside : f.2.Has addr
    · rw [decide_eq_true inside] at read
      refine ⟨k.vmaLastAccessed, ?_, listed.last⟩
      simp only [areaFind, read, Res.ok_bind, if_true, ordered.areaAt_eq member inside, Option.elim_some, same]
    · rw [decide_eq_false inside] at read
      exact searched read

/-- Wherever the loop of `vm_area_insert` stops, it is in the list, behind areas that are below the new one. -/
theorem insertLoop_done (listed : k.Listed areas) (object : k.area new = some v) (split : areas = pre ++ rest) {n : VmaNode}
    (done : k.insertLoop new fuel (vmaNode rest) = .ok n) :
    ∃ l₁ l₂, rest = l₁ ++ l₂ ∧ n = vmaNode l₂ ∧ (∀ e ∈ l₁, e.2.stop ≤ v.start) ∧ ∀ e ∈ l₂.head?, v.start < e.2.stop := by
  induction rest generalizing pre fuel with
  | nil =>
    rw [vmaNode, insertLoop] at done
    exact ⟨[], [], rfl, (Except.ok.inj done).symm, by simp, by simp⟩
  | cons e rest ih =>
    cases fuel with
    | zero => cases done
    | succ fuel =>
      simp only [vmaNode_cons, insertLoop, vma_eq (listed.area e (by simp [split])), vma_eq object, Res.ok_bind] at done
      obtain ⟨before, test, done⟩ := Res.bind_eq_ok.mp done
      rw [VmArea.prec] at test
      split_ifs at test
      obtain rfl := Except.ok.inj test
      split_ifs at done with isBefore
      · obtain ⟨overlap, -, done⟩ := Res.bind_eq_ok.mp done
        split_ifs at done with overlaps
        rw [listed.next split, Res.ok_bind] at done
        obtain ⟨l₁, l₂, same, stop, below, above⟩ := ih (show areas = (pre ++ [e]) ++ rest by simpa using split) done
        refine ⟨e :: l₁, l₂, by rw [same, List.cons_append], stop, fun f member => ?_, above⟩
        rcases List.mem_cons.mp member with rfl | later
        · exact of_decide_eq_true isBefore
        · exact below f later
      · refine ⟨[], e :: rest, rfl, (Except.ok.inj done).symm, by simp, fun f here => ?_⟩
        obtain rfl : e = f := by simpa using here
        exact Nat.lt_of_not_le fun le => isBefore (decide_eq_true le)

/-- Among valid areas no assertion of the loop fails. -/
theorem insertLoop_spec (listed : k.Listed areas) (ordered : Ordered areas) (object : k.area new = some v)
    (valid : v.start < v.stop) (split : areas = pre ++ rest) (enough : rest.length ≤ fuel) : ∃ n, k.insertLoop new fuel (vmaNode rest) = .ok n := by
  induction rest generalizing pre fuel with
  | nil => exact ⟨.mmapList, by rw [vmaNode, insertLoop]⟩
  | cons e rest ih =>
    obtain ⟨fuel, rfl⟩ : ∃ n, fuel = n + 1 := ⟨fuel - 1, by simp only [List.length_cons] at enough; omega⟩
    have member : e ∈ areas := by simp [split]
    have bothValid : e.2.valid = true ∧ v.valid = true :=
      ⟨decide_eq_true (ordered.valid e member), decide_eq_true valid⟩
    simp only [vmaNode_cons, insertLoop, vma_eq (listed.area e member), vma_eq object, Res.ok_bind, VmArea.prec, bothValid, and_self,
      if_true, decide_eq_true_eq]
    by_cases before : e.2.stop ≤ v.start
    · obtain ⟨n, run⟩ := ih (show areas = (pre ++ [e]) ++ rest by simpa using split) (show rest.length ≤ fuel by simpa using enough)
      have noOverlap : e.2.overlap v = .ok false := by
        simp only [VmArea.overlap, VmArea.prec, bothValid, and_self, if_true, Res.ok_bind, before, decide_true]
      refine ⟨n, ?_⟩
      simp only [before, if_true, noOverlap, Res.ok_bind, Bool.false_eq_true, if_false, listed.next split, run]
    · exact ⟨.node e.1, if_neg before⟩

/-- The new area goes where the loop stops. -/
theorem areaInsert_place (listed : k.Listed (l₁ ++ l₂)) (object : k.area new = some v) (nonzero : new ≠ 0)
    (fresh : new ∉ (l₁ ++ l₂).map Prod.fst)
    (stops : (k.setArea new { v with mm := k.self }).insertLoop new vmaFuel (k.link.next .mmapList) = .ok (vmaNode l₂)) :
    ∃ L, k.areaInsert new =
        .ok { k with link := L, area := Function.update k.area new (some { v with mm := k.self }) } ∧
      Listed { k with link := L, area := Function.update k.area new (some { v with mm := k.self }) }
        (l₁ ++ (new, { v with mm := k.self }) :: l₂) := by
  have listed' := listed.setArea fresh { v with mm := k.self }
  have ring := listed.ring
  rw [List.map_append] at ring
  have freshNode : VmaNode.node new ∉ VmaNode.mmapList ::
      ((l₁.map fun e => VmaNode.node e.1) ++ l₂.map fun e => VmaNode.node e.1) := by
    rw [← List.map_append]
    intro inside
    obtain ⟨f, member, same⟩ := List.mem_map.mp ((List.mem_cons.mp inside).resolve_left (by simp))
    exact fresh (List.mem_map.mpr ⟨f, member, VmaNode.node.inj same⟩)
  have added := ring.addBefore freshNode
  rw [vmaNode_eq] at added
  have memberNext : vmaNode l₂ ∈ VmaNode.mmapList :: (l₁ ++ l₂).map fun e => VmaNode.node e.1 := by
    cases l₂ <;> simp [vmaNode]
  have liveNext := listed'.live_node memberNext
  have livePrev := listed'.live_node (listed.ring.prev_mem memberNext)
  have liveNew : (k.setArea new { v with mm := k.self }).live (.node new) := by
    show Function.update k.area new _ new ≠ none
    rw [Function.update_self]
    exact Option.some_ne_none _
  refine ⟨k.link.addBefore (vmaNode l₂) (.node new), ?_, ?_, ?_, ?_, ?_, ?_⟩
  · have link : k.link.next .mmapList = (k.setArea new { v with mm := k.self }).link.next .mmapList := rfl
    rw [link] at stops
    simp only [areaInsert, nonzero, if_false, vma_eq object, Res.ok_bind, stops]
    exact if_pos (And.intro liveNext (And.intro liveNew livePrev))
  · rw [List.map_append, List.map_cons]
    exact added
  · intro e member
    by_cases same : e.1 = new
    · have here : e = (new, { v with mm := k.self }) := by
        have inside : e ∈ l₁ ++ l₂ ∨ e = (new, { v with mm := k.self }) := by
          simp only [List.mem_append, List.mem_cons] at member ⊢
          tauto
        exact inside.resolve_left fun old => fresh (same ▸ List.mem_map_of_mem old)
      show Function.update k.area new _ e.1 = some e.2
      rw [here, Function.update_self]
    · have old : e ∈ l₁ ++ l₂ := by
        simp only [List.mem_append, List.mem_cons] at member ⊢
        rcases member with left | rfl | right
        · exact .inl left
        · exact absurd rfl same
        · exact .inr right
      show Function.update k.area new _ e.1 = some e.2
      rw [Function.update_of_ne same]
      exact listed.area e old
  · intro e member
    have inside : e ∈ l₁ ++ l₂ ∨ e = (new, { v with mm := k.self }) := by
      simp only [List.mem_append, List.mem_cons] at member ⊢
      tauto
    rcases inside with old | rfl
    · exact listed.own e old
    · rfl
  · intro e member
    have inside : e ∈ l₁ ++ l₂ ∨ e = (new, { v with mm := k.self }) := by
      simp only [List.mem_append, List.mem_cons] at member ⊢
      tauto
    rcases inside with old | rfl
    · exact listed.nonzero e old
    · exact nonzero
  · refine listed.last.imp_right fun inside => ?_
    simp only [List.map_append, List.map_cons, List.mem_append, List.mem_cons] at inside ⊢
    tauto

/-- When `vm_area_insert` returns, the new area is in the list, behind areas that are below it. -/
theorem areaInsert_done (listed : k.Listed areas) (object : k.area new = some v) (nonzero : new ≠ 0)
    (fresh : new ∉ areas.map Prod.fst) (done : k.areaInsert new = .ok k') :
    ∃ L l₁ l₂, areas = l₁ ++ l₂ ∧
      k' = { k with link := L, area := Function.update k.area new (some { v with mm := k.self }) } ∧
      k'.Listed (l₁ ++ (new, { v with mm := k.self }) :: l₂) ∧
      (∀ e ∈ l₁, e.2.stop ≤ v.start) ∧ ∀ e ∈ l₂.head?, v.start < e.2.stop := by
  have loop := done
  rw [areaInsert, if_neg nonzero, vma_eq object, Res.ok_bind] at loop
  obtain ⟨n, stops, -⟩ := Res.bind_eq_ok.mp loop
  have listed' := listed.setArea fresh { v with mm := k.self }
  have object' : (k.setArea new { v with mm := k.self }).area new = some { v with mm := k.self } := Function.update_self ..
  have walk := stops
  rw [listed'.first] at walk
  obtain ⟨l₁, l₂, rfl, rfl, below, above⟩ := insertLoop_done listed' object' (List.nil_append areas).symm walk
  obtain ⟨L, run, placed⟩ := areaInsert_place listed object nonzero fresh stops
  obtain rfl := Except.ok.inj (run.symm.trans done)
  exact ⟨L, l₁, l₂, rfl, rfl, placed, below, above⟩

/-- A valid area is put into the list. -/
theorem areaInsert_spec (listed : k.Listed areas) (ordered : Ordered areas) (object : k.area new = some v) (nonzero : new ≠ 0)
    (fresh : new ∉ areas.map Prod.fst) (valid : v.start < v.stop) : ∃ k', k.areaInsert new = .ok k' := by
  have listed' := listed.setArea fresh { v with mm := k.self }
  have object' : (k.setArea new { v with mm := k.self }).area new = some { v with mm := k.self } := Function.update_self ..
  obtain ⟨n, run⟩ := insertLoop_spec listed' ordered object' valid (List.nil_append areas).symm ordered.length_le
  obtain ⟨l₁, l₂, rfl, rfl, -⟩ := insertLoop_done listed' object' (List.nil_append areas).symm run
  rw [← listed'.first] at run
  obtain ⟨L, inserted, -⟩ := areaInsert_place listed object nonzero fresh run
  exact ⟨_, inserted⟩

/-- An area of the list is taken off it. -/
theorem areaRemove_spec (listed : k.Listed (l₁ ++ e :: l₂)) (other : k.vmaLastAccessed ≠ e.1) :
    k.areaRemove e.1 = .ok { k with link := k.link.delInit (.node e.1) } ∧
      Listed { k with link := k.link.delInit (.node e.1) } (l₁ ++ l₂) := by
  have member : e ∈ l₁ ++ e :: l₂ := by simp
  have node : VmaNode.node e.1 ∈ VmaNode.mmapList :: (l₁ ++ e :: l₂).map fun f => VmaNode.node f.1 :=
    List.mem_cons_of_mem _ (List.mem_map_of_mem (f := fun f : Nat × VmArea => VmaNode.node f.1) member)
  have ring := listed.ring
  rw [List.map_append, List.map_cons] at ring
  have sub : ∀ f, f ∈ l₁ ++ l₂ → f ∈ l₁ ++ e :: l₂ := by
    intro f inside
    simp only [List.mem_append, List.mem_cons] at inside ⊢
    tauto
  refine ⟨?_, ?_, fun f inside => listed.area f (sub f inside), fun f inside => listed.own f (sub f inside),
    fun f inside => listed.nonzero f (sub f inside), ?_⟩
  · have live : k.live (.node e.1) ∧ k.live (k.link.prev (.node e.1)) ∧ k.live (k.link.next (.node e.1)) :=
      ⟨listed.live_node node, listed.live_node (listed.ring.prev_mem node), listed.live_node (listed.ring.next_mem node)⟩
    have own : e.2.mm = k.self := listed.own e member
    simp only [areaRemove, vma_eq (listed.area e member), Res.ok_bind, own, ne_eq, not_true, if_false, vmaDelete, live,
      and_self, if_true]
  · rw [List.map_append]
    exact ring.delInit
  · refine listed.last.imp_right fun inside => ?_
    simp only [List.map_append, List.map_cons, List.mem_append, List.mem_cons] at inside ⊢
    have different : k.vmaLastAccessed ≠ e.1 := other
    tauto

end Mm

end Xv6
