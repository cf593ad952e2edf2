import Xv6.VmMap

namespace Xv6

namespace PageMem

variable {root : Nat} {s : PageMem} {r : Dirs} {l : List Nat}

theorem SpaceKept.leaf_not_free (kept : SpaceKept root s r l) {π : List Nat} {w : Nat × Nat} (found : r.leaf π = some w) :
    w.1 ∉ l :=
  (kept.held π w found).not_free kept.free

/-- Free pages are handed out. -/
theorem SpaceKept.allocPages (kept : SpaceKept root s r l) {s' : PageMem} {num f : Nat}
    (done : s.allocPages num = .ok (some f, s')) :
    ∃ tl ys, l = f :: tl ++ ys ∧ tl.length + 1 = num ∧ SpaceKept root s' r ys ∧ AllocSet s' f tl ∧
      (s'.page f).type = .generic ∧ SameGeometry s s' ∧ ∀ q, q ∉ l → s.Agree s' q := by
  obtain ⟨tl, ys, split, length, free, set, type, geometry, agree⟩ := allocPages_served kept.free done
  refine ⟨tl, ys, split, length, ?_, set, type, geometry, agree⟩
  exact kept.frame free geometry (fun d owned => agree d (kept.tree.not_free owned kept.free))
    fun q held => agree q (held.not_free kept.free)

end PageMem

namespace Mm

open PageMem

variable {k k' : Mm} {root addr len flags : Nat} {r : Dirs} {l : List Nat} {B : Heap.Slabs} {areas : List (Nat × VmArea)}

/-- What `mm_create_uvm` leaves when it returns 0. The pages are counted in 32 bits when they are mapped. -/
structure Created (k k' : Mm) (r r' : Dirs) (l l' : List Nat) (B B' : Heap.Slabs) (areas areas' : List (Nat × VmArea))
    (addr len flags : Nat) : Prop where
  geometry : k.heap.pm.SameGeometry k'.heap.pm
  self : k'.self = k.self
  enough : nrPagesSpanned addr len ≤ l.length
  held : ∃ f ∈ l, Held k'.heap.pm f
  mapped : ∀ j < nrPagesSpanned addr len % 2 ^ 32, r'.leaf (path (16384 * (addr / 16384 + j))) ≠ none
  same : ∀ π, (∀ j < nrPagesSpanned addr len % 2 ^ 32, path (16384 * (addr / 16384 + j)) ≠ π) → r'.leaf π = r.leaf π
  bound : ∀ j < nrPagesSpanned addr len % 2 ^ 32, 16384 * (addr / 16384 + j) < 2 ^ 64
  accounted : nrPagesSpanned addr len < 2 ^ 32 →
    ∀ q, Accounted r' l' q ∨ B'.Slab q ↔ Accounted r l q ∨ B.Slab q
  fewer : ∀ q, Accounted r' l' q → Accounted r l q
  spent : nrPagesSpanned addr len < 2 ^ 32 →
    (∀ j < nrPagesSpanned addr len, r.leaf (path (16384 * (addr / 16384 + j))) = none) → l.length ≤ l'.length +
      nrPagesSpanned addr len + missingIn r (addr / 16384) 0 (nrPagesSpanned addr len) + chunkPages B
  enlisted : k.Enlisted k' (l.drop (nrPagesSpanned addr len)) B B' areas areas' ⟨16384 * (addr / 16384),
    (16384 * (addr / 16384) + 16384 * (nrPagesSpanned addr len % 2 ^ 32)) % 2 ^ 64, flags, k.self⟩

/-- When `mm_create_uvm` returns 0 it took pages and mapped them. -/
theorem createUvm_zero (positive : len ≠ 0) (above : pgaddrRounddown addr ≠ 0)
    (done : k.createUvm addr len flags = .ok (0, k')) :
    ∃ p pm, k.heap.pm.allocPages (nrPagesSpanned addr len) = .ok (some p, pm) ∧
      (k.setPm pm).mapPages (pgaddrRounddown addr) p flags = .ok (0, k') := by
  simp only [createUvm, positive, above, or_self, if_false] at done
  obtain ⟨⟨p, pm⟩, pages, done⟩ := Res.bind_eq_ok.mp done
  cases p with
  | none =>
    have failed := (Prod.mk.inj (Except.ok.inj done)).1
    exact absurd failed (by decide)
  | some p =>
    obtain ⟨⟨ret, k₁⟩, mapped, done⟩ := Res.bind_eq_ok.mp done
    simp only at done
    split_ifs at done with zero
    · obtain ⟨-, rfl⟩ := Prod.mk.inj (Except.ok.inj done)
      exact ⟨p, pm, pages, zero ▸ mapped⟩
    · obtain ⟨pm', -, done⟩ := Res.bind_eq_ok.mp done
      exact absurd (Prod.mk.inj (Except.ok.inj done)).1 zero

/-- Pages are handed out of the free list. -/
theorem Kept.allocPages (kept : k.Kept root r l B areas) {num f : Nat} {pm : PageMem}
    (done : k.heap.pm.allocPages num = .ok (some f, pm)) :
    ∃ tl ys, l = f :: tl ++ ys ∧ tl.length + 1 = num ∧ (k.setPm pm).Kept root r ys B areas ∧ AllocSet pm f tl ∧
      (pm.page f).type = .generic ∧ k.heap.pm.SameGeometry pm := by
  obtain ⟨tl, ys, split, length, space, set, type, geometry, agree⟩ := kept.space.allocPages done
  exact ⟨tl, ys, split, length, kept.setPm space geometry fun x slab => agree x (slab.not_free kept.space.free), set, type,
    geometry⟩

/-- When `mm_create_uvm` returns 0, its pages have the permission of the flags. There is no new area if the pages
that are left are too few. -/
theorem Kept.createUvm_made (kept : k.Kept root r l B areas) (positive : len ≠ 0) (above : pgaddrRounddown addr ≠ 0)
    (small : addr < 2 ^ 64) (done : k.createUvm addr len flags = .ok (0, k')) :
    ∃ r' l' B' areas', k'.Kept root r' l' B' areas' ∧ k.Created k' r r' l l' B B' areas areas' addr len flags ∧
      (∀ j < nrPagesSpanned addr len % 2 ^ 32, ∃ q,
        r'.leaf (path (16384 * (addr / 16384 + j))) = some (q, pagePerm flags)) ∧
      (areas' = areas ∨ nrPagesSpanned addr len + chunkPages B ≤ l.length) := by
  obtain ⟨f, pm, pages, mapped⟩ := createUvm_zero positive above done
  obtain ⟨tl, ys, rfl, length, kept₁, set, type, geometry⟩ := kept.allocPages pages
  have start : pgaddrRounddown addr = 16384 * (addr / 16384) := by
    rw [pgaddrRounddown_eq small, Nat.mul_comm]
  rw [start] at mapped
  have unmapped : ∀ π w, r.leaf π = some w → w.1 ∉ f :: tl :=
    fun π w found inside => kept.space.leaf_not_free found (List.mem_append_left _ inside)
  obtain ⟨r', l', B', areas', new, rest, kept', split, held, range, words, room⟩ :=
    kept₁.mapPages_done (by omega) set type unmapped mapped
  rw [length] at range words
  have taken : ∀ q, Accounted r (f :: tl ++ ys) q ↔ Accounted r ys q ∨ q ∈ f :: tl := by
    intro q
    simp only [Accounted, List.mem_append]
    grind
  have left : (f :: tl ++ ys).drop (nrPagesSpanned addr len) = ys := by
    rw [← length, ← List.length_cons, List.drop_left]
  have inside : ∀ q, q ∈ new → q ∈ f :: tl := fun q member => split ▸ List.mem_append_left _ member
  refine ⟨r', l', B', areas', kept', ⟨geometry.trans range.geometry, range.self, ?_, ⟨f, by simp, held⟩, range.mapped,
    range.same, range.bound, fun few q => ?_, fun q total => ?_, fun few vacant => ?_, ?_⟩, words, ?_⟩
  · rw [List.length_append, List.length_cons, length]
    exact Nat.le_add_right ..
  · -- not more than 2^32 pages: they are all mapped
    have whole : new = f :: tl := by
      have count := congrArg List.length split
      rw [List.length_append, List.length_cons, length, range.length, Nat.mod_eq_of_lt few] at count
      have nothing : rest = [] := List.eq_nil_of_length_eq_zero (by omega)
      rw [split, nothing, List.append_nil]
    rw [range.accounted, taken, whole]
    grind
  · rw [taken]
    exact (range.fewer q total).imp_right (inside q)
  · have spent := range.spent
    rw [Nat.mod_eq_of_lt few] at spent
    have rest := spent vacant
    rw [List.length_append, List.length_cons, length]
    omega
  · cases range.enlisted with
    | none reason same area slabs => exact .none (by rwa [left]) same area slabs
    | some before after order below above fresh area handed chunk =>
      exact .some before after order below above fresh area handed chunk
  · refine room.imp_right fun enough => ?_
    rw [List.length_append, List.length_cons, length]
    omega

theorem Kept.createUvm_done (kept : k.Kept root r l B areas) (positive : len ≠ 0) (above : pgaddrRounddown addr ≠ 0)
    (small : addr < 2 ^ 64) (done : k.createUvm addr len flags = .ok (0, k')) :
    ∃ r' l' B' areas', k'.Kept root r' l' B' areas' ∧ k.Created k' r r' l l' B B' areas areas' addr len flags := by
  obtain ⟨r', l', B', areas', kept', created, -⟩ := kept.createUvm_made positive above small done
  exact ⟨r', l', B', areas', kept', created⟩

/-- Pages that are mapped in one call are counted by an int. -/
theorem Kept.createUvm_few (kept : k.Kept root r l B areas) (positive : len ≠ 0) (above : pgaddrRounddown addr ≠ 0)
    (small : addr < 2 ^ 64) (done : k.createUvm addr len flags = .ok (0, k')) : nrPagesSpanned addr len % 2 ^ 32 ≤ intMax := by
  obtain ⟨f, pm, pages, mapped⟩ := createUvm_zero positive above done
  obtain ⟨tl, ys, rfl, length, kept₁, set, type, -⟩ := kept.allocPages pages
  have start : pgaddrRounddown addr = 16384 * (addr / 16384) := by
    rw [pgaddrRounddown_eq small, Nat.mul_comm]
  have unmapped : ∀ π w, r.leaf π = some w → w.1 ∉ f :: tl :=
    fun π w found inside => kept.space.leaf_not_free found (List.mem_append_left _ inside)
  rw [start] at mapped
  obtain ⟨a, k₁, k₂, ret₁, k₃, new, insert, loop, ⟨rfl, -, -⟩ | ⟨failed, same, -⟩⟩ := mapPages_stages set mapped
  · obtain ⟨l₂, B₂, areas₂, kept₂, -, geometry, -, agree, -⟩ := kept₁.enlist (by omega) new insert
    have mapping := kept₂.mapping (addr / 16384) set type unmapped geometry agree
    obtain ⟨pm', r', l', new', rest, rfl, split, mapping', range, -⟩ :=
      mapLoop_done mapping (pagePerm_own flags) (by simp) (by simp; omega) (by simp; omega) loop
    have short := mapping'.short
    rw [List.nil_append, range.length, List.length_nil, Nat.sub_zero, length] at short
    exact short
  · exact absurd same.symm failed

end Mm

namespace PageMem

/-- The pages that are mapped below 2^47, by their page numbers. -/
def userPages (r : Dirs) (j : Nat) : Option Nat := if j < 2 ^ 33 then entry r j else none

theorem userPages_eq {r : Dirs} {j : Nat} (low : j < 2 ^ 33) : userPages r j = entry r j := if_pos low

/-- The mapped pages of an address space are a user map. -/
theorem SpaceKept.userMap {root : Nat} {s : PageMem} {r : Dirs} {l : List Nat} (kept : SpaceKept root s r l)
    (frames : ∀ π w, r.leaf π = some w → s.pageToPfn w.1 ≠ 0) : UserMap s root (userPages r) r := by
  have leaf : ∀ j p, userPages r j = some p → ∃ w, r.leaf (path (16384 * j)) = some w ∧ w.1 = p := by
    intro j p found
    rw [userPages] at found
    split_ifs at found
    rw [entry] at found
    exact Option.map_eq_some_iff.mp found
  have low : ∀ j p, userPages r j = some p → j < 2 ^ 33 := by
    intro j p found
    rw [userPages] at found
    split_ifs at found with small
    exact small
  refine ⟨kept.tree, kept.rooted, fun j p found => ?_, fun j p found => ⟨j % 2 ^ 33, ?_, by omega⟩,
    fun i j p left right => ?_, fun j p found => ?_⟩
  · rw [← userPages_eq (low j p found)]
    exact found
  · rw [userPages_eq (by omega), entry_alias (k := j) (by omega)]
    exact found
  · obtain ⟨w, leafW, sameW⟩ := leaf i p left
    obtain ⟨x, leafX, sameX⟩ := leaf j p right
    have shared := path_alias.mp (kept.apart _ _ w x leafW leafX (sameW.trans sameX.symm))
    have lowI := low i p left
    have lowJ := low j p right
    omega
  · obtain ⟨w, leafW, rfl⟩ := leaf j p found
    exact ⟨frames _ w leafW, fun owned => (kept.held _ w leafW).not_dir (kept.owned_dir owned) rfl⟩

end PageMem

namespace Mm

open PageMem

variable {k k' : Mm} {root addr len flags : Nat} {r : Dirs} {l : List Nat} {B : Heap.Slabs} {areas : List (Nat × VmArea)}

/-- What is copied into a part of a range that was created is read back from there,
and no other byte of the user changes. -/
theorem Kept.readsBack (kept : k.Kept root r l B areas) (frames : ∀ q, Accounted r l q → k.heap.pm.pageToPfn q ≠ 0)
    (above : pgsize ≤ addr) (below : addr + len ≤ 2 ^ 47) (few : nrPagesSpanned addr len < 2 ^ 32)
    (done : k.createUvm addr len flags = .ok (0, k')) :
    ∃ r', k'.heap.pm.UserMap root (userPages r') r' ∧ (∀ j, ¬ InRange addr len j → userPages r' j = userPages r j) ∧
      ∀ u n kv kv', addr ≤ u → u + n ≤ addr + len → 1 ≤ n → BufferApart k'.heap.pm (userPages r') r' kv n →
        BufferApart k'.heap.pm (userPages r') r' kv' n →
        (k'.heap.pm.copyToUvm k'.pgd u kv n).1 = 0 ∧
        ((k'.heap.pm.copyToUvm k'.pgd u kv n).2.copyFromUvm k'.pgd u kv' n).1 = 0 ∧
        (∀ i < n, ((k'.heap.pm.copyToUvm k'.pgd u kv n).2.copyFromUvm k'.pgd u kv' n).2.mem (kv' + i) =
          k'.heap.pm.mem (kv + i)) ∧
        ∀ j p x, userPages r' j = some p → x < 16384 → (16384 * j + x < u ∨ u + n ≤ 16384 * j + x) →
          ((k'.heap.pm.copyToUvm k'.pgd u kv n).2.copyFromUvm k'.pgd u kv' n).2.mem (k'.heap.pm.pageToKvaddr p + x) =
            k'.heap.pm.mem (k'.heap.pm.pageToKvaddr p + x) := by
  rw [pgsize] at above
  by_cases empty : len = 0
  · subst empty
    rw [createUvm] at done
    simp only [true_or, if_true] at done
    obtain ⟨-, rfl⟩ := Prod.mk.inj (Except.ok.inj done)
    refine ⟨r, kept.space.userMap fun π w found => frames _ (.inr ⟨π, w, found, rfl⟩), fun j _ => rfl,
      fun u n kv kv' lower upper positive => ?_⟩
    omega
  · have small : addr < 2 ^ 64 := by omega
    have nonzero : pgaddrRounddown addr ≠ 0 := by
      rw [pgaddrRounddown_eq small]
      omega
    obtain ⟨r', l', B', areas', kept', created⟩ := kept.createUvm_done empty nonzero small done
    have count := nrPagesSpanned_eq (show 0 < len by omega) (show addr + len ≤ 2 ^ 64 by omega)
    have range : ∀ j, InRange addr len j ↔ ∃ i < nrPagesSpanned addr len % 2 ^ 32, addr / 16384 + i = j := by
      intro j
      rw [InRange, Nat.mod_eq_of_lt few, count]
      constructor
      · intro inside
        exact ⟨j - addr / 16384, by omega, by omega⟩
      · intro counted
        obtain ⟨i, lower, upper⟩ := counted
        omega
    have users := kept'.space.userMap fun π w found => by
      rw [pageToPfn, created.geometry.base]
      exact frames _ (created.fewer _ (.inr ⟨π, w, found, rfl⟩))
    have mapped : ∀ j, InRange addr len j → userPages r' j ≠ none := by
      intro j inside
      rw [userPages_eq (by rw [InRange] at inside; omega), entry]
      obtain ⟨i, lower, rfl⟩ := (range j).mp inside
      simpa using created.mapped i lower
    refine ⟨r', users, fun j outside => ?_, fun u n kv kv' lower upper positive buffer buffer' => ?_⟩
    · rw [userPages, userPages]
      split_ifs with low
      · rw [entry, entry, created.same]
        intro i inside same
        refine outside ((range j).mpr ⟨i, inside, ?_⟩)
        have shared := path_alias.mp same
        have inRange : InRange addr len (addr / 16384 + i) := (range _).mpr ⟨i, inside, rfl⟩
        rw [InRange] at inRange
        omega
      · rfl
    · rw [kept'.pgd]
      refine copies_back users buffer buffer' (by rw [xusegEnd]; omega) positive (by omega) fun j inside => mapped j ?_
      rw [InRange] at inside ⊢
      omega

end Mm

end Xv6
