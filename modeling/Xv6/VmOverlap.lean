import Xv6.VmRollback

namespace Xv6

open PageMem

namespace Mm

variable {k k' k₁ k₂ : Mm} {root m f start stop flags addr len : Nat} {ret : Int} {r : Dirs} {l tl : List Nat}
variable {B : Heap.Slabs} {areas : List (Nat × VmArea)}

/-- Without an area `map_pages` leaves the list alone, and a failed call maps no page of the set. -/
theorem Kept.mapPages_bare (kept : k.Kept root r l B areas) (low : m < 2 ^ 50) (set : AllocSet k.heap.pm f tl)
    (type : (k.heap.pm.page f).type = .generic) (unmapped : ∀ π w, r.leaf π = some w → w.1 ∉ f :: tl)
    (reason : (16384 * m + 16384 * ((tl.length + 1) % 2 ^ 32)) % 2 ^ 64 ≤ 16384 * m ∨ l.length < chunkPages B)
    (done : k.mapPages (16384 * m) f flags = .ok (ret, k')) :
    ∃ r' l', k'.Kept root r' l' B areas ∧ (ret ≠ 0 → AllocSet k'.heap.pm f tl ∧ (k'.heap.pm.page f).type = .generic ∧
      ∀ π w, r'.leaf π = some w → w.1 ∉ f :: tl) := by
  obtain ⟨a, k₁, k₂, ret₁, k₃, new, insert, loop, stages⟩ := mapPages_stages set done
  obtain ⟨rfl, kept₁, same⟩ := kept.areaNew_null (by omega) reason new
  obtain rfl := Except.ok.inj ((if_pos rfl).symm.trans insert)
  have mapping : k₁.Mapping root r l m f tl [] (f :: tl) :=
    kept₁.mapping m set type unmapped (same ▸ .refl _) fun q _ => same ▸ .refl _ q
  obtain ⟨pm, r', l', rfl, space, geometry, slabs, set', type', leaves⟩ :=
    mapLoop_stops mapping (pagePerm_own flags) (by simp) (by simp; omega) (by simp; omega) (Nat.zero_le _) loop
  have kept₂ := kept₁.setPm space geometry slabs
  rcases stages with ⟨-, rfl, rfl⟩ | ⟨-, -, k₄, rollback, destroy⟩
  · exact ⟨r', l', kept₂, fun failed => absurd rfl failed⟩
  · obtain rfl := Except.ok.inj ((if_pos rfl).symm.trans destroy)
    obtain ⟨pm', c, r'', l'', rfl, kept₃, set'', type'', fewer, cleared⟩ :=
      unmapLoop_clears (m := m) (i := 0) kept₂ set' type' (by omega) rollback
    refine ⟨r'', l'', kept₃, fun _ => ⟨set'', type'', fun π w found member => ?_⟩⟩
    obtain ⟨j, inside, rfl⟩ := leaves π w (fewer π w found) member
    rw [cleared j (Nat.zero_le _) inside] at found
    cases found

/-- If `mm_create_uvm` gets the pages and makes an area, the pages are counted by an int, the area is apart from the
others, and there is memory for the directories. -/
def CreateSafe (r : Dirs) (l : List Nat) (B : Heap.Slabs) (areas : List (Nat × VmArea)) (addr len : Nat) : Prop :=
  len ≠ 0 → pgaddrRounddown addr ≠ 0 → nrPagesSpanned addr len + chunkPages B ≤ l.length →
  0 < nrPagesSpanned addr len % 2 ^ 32 → 16384 * (addr / 16384 + nrPagesSpanned addr len % 2 ^ 32) < 2 ^ 64 →
    nrPagesSpanned addr len % 2 ^ 32 ≤ intMax ∧
    (∀ e ∈ areas, e.2.stop ≤ 16384 * (addr / 16384) ∨
      16384 * (addr / 16384 + nrPagesSpanned addr len % 2 ^ 32) ≤ e.2.start) ∧
    Roomy r (l.length - (nrPagesSpanned addr len + chunkPages B)) (addr / 16384) 0 (nrPagesSpanned addr len % 2 ^ 32)

/-- With memory for the directories `map_pages` returns 0 whenever it returns. -/
theorem Kept.mapPages_zero (kept : k.Kept root r l B areas) (above : 1 ≤ m) (set : AllocSet k.heap.pm f tl)
    (type : (k.heap.pm.page f).type = .generic) (unmapped : ∀ π w, r.leaf π = some w → w.1 ∉ f :: tl)
    (range : 16384 * (m + (tl.length + 1) % 2 ^ 32) < 2 ^ 64)
    (roomy : Roomy r (l.length - chunkPages B) m 0 ((tl.length + 1) % 2 ^ 32))
    (done : k.mapPages (16384 * m) f flags = .ok (ret, k')) : ret = 0 := by
  obtain ⟨a, k₁, k₂, ret₁, k₃, new, insert, loop, stages⟩ := mapPages_stages set done
  obtain ⟨l₂, B₂, areas₂, kept₂, -, geometry, -, agree, -, -, less, -⟩ := kept.enlist (by omega) new insert
  have mapping := kept₂.mapping m set type unmapped geometry agree
  have roomy₂ : Roomy r l₂.length m 0 ((tl.length + 1) % 2 ^ 32) := fun j lower upper =>
    le_trans (roomy j lower upper) (by omega)
  rcases mapLoop_roomy mapping (pagePerm_own flags) (Nat.zero_add (intMax + 1))
    (show 16384 * m = 16384 * (m + 0) % 2 ^ 64 by omega) above rfl (Nat.le_of_lt range) roomy₂ with ⟨k₄, run⟩ | ⟨-, run⟩
  · obtain ⟨rfl, -⟩ := Prod.mk.inj (Except.ok.inj (run.symm.trans loop))
    exact stages.elim (fun done => done.2.1) fun failed => absurd rfl failed.1
  · cases run.symm.trans loop

/-- A call of `mm_create_uvm` keeps the areas in order. -/
theorem Kept.createUvm_ordered (kept : k.Kept root r l B areas) (ordered : Ordered areas) (small : addr < 2 ^ 64)
    (safe : CreateSafe r l B areas addr len) (done : k.createUvm addr len flags = .ok (ret, k')) :
    ∃ r' l' B' areas', k'.Kept root r' l' B' areas' ∧ Ordered areas' := by
  have whole := done
  rw [createUvm] at done
  simp only at done
  split_ifs at done with trivial
  · obtain ⟨-, rfl⟩ := Prod.mk.inj (Except.ok.inj done)
    exact ⟨r, l, B, areas, kept, ordered⟩
  obtain ⟨positive, nonzero⟩ := not_or.mp trivial
  obtain ⟨⟨p, pm⟩, alloc, done⟩ := Res.bind_eq_ok.mp done
  by_cases few : l.length < nrPagesSpanned addr len
  · rw [allocPages_none kept.space.free few] at alloc
    obtain ⟨rfl, rfl⟩ := Prod.mk.inj (Except.ok.inj alloc)
    obtain ⟨-, rfl⟩ := Prod.mk.inj (Except.ok.inj done)
    exact ⟨r, l, B, areas, kept, ordered⟩
  cases p with
  | none =>
    rw [PageMem.allocPages, kept.space.free.count, if_neg few] at alloc
    obtain ⟨⟨q, s⟩, -, alloc⟩ := Res.bind_eq_ok.mp alloc
    cases q <;> cases alloc
  | some f =>
    obtain ⟨⟨ret₁, k₁⟩, mapped, done⟩ := Res.bind_eq_ok.mp done
    obtain ⟨tl, ys, split, length, kept₁, set, type, -⟩ := kept.allocPages alloc
    have page : pgaddrRounddown addr = 16384 * (addr / 16384) := by rw [pgaddrRounddown_eq small, Nat.mul_comm]
    have unmapped : ∀ π w, r.leaf π = some w → w.1 ∉ f :: tl := fun π w found inside =>
      kept.space.leaf_not_free found (split ▸ List.mem_append_left _ inside)
    have left := congrArg List.length split
    rw [List.length_append, List.length_cons] at left
    rw [page] at mapped
    by_cases bare : (16384 * (addr / 16384) + 16384 * ((tl.length + 1) % 2 ^ 32)) % 2 ^ 64 ≤ 16384 * (addr / 16384) ∨
        ys.length < chunkPages B
    · obtain ⟨r', l', kept₂, failure⟩ := kept₁.mapPages_bare (by omega) set type unmapped bare mapped
      simp only at done
      split_ifs at done with zero
      · obtain ⟨-, rfl⟩ := Prod.mk.inj (Except.ok.inj done)
        exact ⟨r', l', B, areas, kept₂, ordered⟩
      · obtain ⟨set', type', unmapped'⟩ := failure zero
        obtain ⟨pm', free, done⟩ := Res.bind_eq_ok.mp done
        obtain ⟨-, rfl⟩ := Prod.mk.inj (Except.ok.inj done)
        obtain ⟨l'', space, geometry, slabs⟩ := kept₂.space.freeAllPages set' type' unmapped' free
        exact ⟨r', l'', B, areas, kept₂.setPm space geometry slabs, ordered⟩
    · obtain ⟨order, memory⟩ := not_or.mp bare
      rw [length] at order
      obtain ⟨-, apart, roomy⟩ := safe positive nonzero (by omega) (by omega) (by omega)
      rw [← length] at apart roomy
      have free : l.length - (tl.length + 1 + chunkPages B) = ys.length - chunkPages B := by omega
      rw [free] at roomy
      obtain rfl := kept₁.mapPages_zero (by omega) set type unmapped (by omega) roomy mapped
      simp only [if_true] at done
      obtain ⟨rfl, -⟩ := Prod.mk.inj (Except.ok.inj done)
      obtain ⟨r', l', B', areas', kept₂, created⟩ := kept.createUvm_done positive nonzero small whole
      have enlisted := created.enlisted
      rw [← length] at enlisted
      refine ⟨r', l', B', areas', kept₂, enlisted.ordered ordered ⟨?_, ?_⟩ ?_ fun e member => ?_⟩
      · show 16384 * (addr / 16384) % 16384 = 0
        omega
      · show (16384 * (addr / 16384) + 16384 * ((tl.length + 1) % 2 ^ 32)) % 2 ^ 64 % 16384 = 0
        omega
      · exact Nat.mod_lt _ (by decide)
      · have stop : (16384 * (addr / 16384) + 16384 * ((tl.length + 1) % 2 ^ 32)) % 2 ^ 64 =
            16384 * (addr / 16384 + (tl.length + 1) % 2 ^ 32) := by omega
        show e.2.stop ≤ 16384 * (addr / 16384) ∨ (16384 * (addr / 16384) + 16384 * ((tl.length + 1) % 2 ^ 32)) % 2 ^ 64 ≤ e.2.start
        rw [stop]
        exact apart e member

/-- The areas in the list are valid, apart from each other and sorted. -/
def InOrder (k : Mm) : Prop := ∃ areas, k.Listed areas ∧ Ordered areas

/-- The call is safe in what the memory holds. -/
def AddsSafely (k : Mm) (addr len : Nat) : Prop :=
  ∀ root r l B areas, k.Kept root r l B areas → CreateSafe r l B areas addr len

end Mm

/-- A run of calls of `mm_create_uvm`, all of them admitted. -/
inductive CreateRun (admitted : Mm → Nat → Nat → Prop) (k₀ : Mm) : Mm → Prop
  | start : CreateRun admitted k₀ k₀
  | create {k k' : Mm} {addr len flags : Nat} {ret : Int} (run : CreateRun admitted k₀ k) (small : addr < 2 ^ 64)
      (call : admitted k addr len) (done : k.createUvm addr len flags = .ok (ret, k')) : CreateRun admitted k₀ k'

namespace CreateRun

open Mm

variable {k₀ k : Mm} {root : Nat} {r : Dirs} {l : List Nat} {B : Heap.Slabs} {areas : List (Nat × VmArea)}

theorem ordered (kept : k₀.Kept root r l B areas) (order : Ordered areas) (run : CreateRun AddsSafely k₀ k) :
    ∃ r' l' B' areas', k.Kept root r' l' B' areas' ∧ Ordered areas' := by
  induction run with
  | start => exact ⟨r, l, B, areas, kept, order⟩
  | create run small call done ih =>
    obtain ⟨r', l', B', areas', kept', order'⟩ := ih
    exact kept'.createUvm_ordered order' small (call _ _ _ _ _ kept') done

/-- Where every call is safe the areas are always in order. -/
theorem inOrder (kept : k₀.Kept root r l B areas) (order : Ordered areas) (run : CreateRun AddsSafely k₀ k) : k.InOrder := by
  obtain ⟨r', l', B', areas', kept', order'⟩ := run.ordered kept order
  exact ⟨areas', kept'.listed, order'⟩

/-- With memory a range apart from the areas is safe. -/
theorem apart_safe (kept : k.Kept root r l B areas) {addr len : Nat} (few : nrPagesSpanned addr len ≤ intMax)
    (apart : ∀ e ∈ areas, e.2.stop ≤ 16384 * (addr / 16384) ∨ 16384 * (addr / 16384 + nrPagesSpanned addr len) ≤ e.2.start)
    (enough : 3 * nrPagesSpanned addr len + 1 ≤ l.length) : AddsSafely k addr len := by
  intro root' r' l' B' areas' kept' positive nonzero pages area range
  obtain rfl := kept'.listed.unique kept.listed
  have length : l'.length = l.length := kept'.heap.free.count.symm.trans kept.heap.free.count
  have chunk : chunkPages B' ≤ 1 := by
    rw [chunkPages]
    split <;> omega
  have counted : nrPagesSpanned addr len % 2 ^ 32 = nrPagesSpanned addr len := by
    rw [intMax] at few
    exact Nat.mod_eq_of_lt (by omega)
  rw [counted]
  refine ⟨few, apart, fun j lower upper => ?_⟩
  have dirs := missingIn_le r' (addr / 16384) 0 (j + 1)
  omega

/-- A range that begins before the end of the only area is put in front of it, whether they overlap or not. -/
theorem front_listed {k' : Mm} {e : Nat × VmArea} {addr len flags : Nat} (kept : k.Kept root r l B [e])
    (above : 16384 ≤ addr) (small : addr < 2 ^ 64) (some : 1 ≤ nrPagesSpanned addr len) (few : nrPagesSpanned addr len < 2 ^ 32)
    (range : 16384 * (addr / 16384 + nrPagesSpanned addr len) < 2 ^ 64) (begins : 16384 * (addr / 16384) < e.2.stop)
    (enough : nrPagesSpanned addr len + 1 ≤ l.length) (positive : len ≠ 0) (done : k.createUvm addr len flags = .ok (0, k')) :
    ∃ r' l' B' b, k'.Kept root r' l' B'
      [(b, ⟨16384 * (addr / 16384), 16384 * (addr / 16384 + nrPagesSpanned addr len), flags, k.self⟩), e] := by
  have nonzero : pgaddrRounddown addr ≠ 0 := by
    rw [pgaddrRounddown_eq small]
    omega
  obtain ⟨r', l', B', areas', kept', created⟩ := kept.createUvm_done positive nonzero small done
  have chunk : chunkPages B ≤ 1 := by
    rw [chunkPages]
    split <;> omega
  have enlisted := created.enlisted
  have stop : (16384 * (addr / 16384) + 16384 * nrPagesSpanned addr len) % 2 ^ 64 =
      16384 * (addr / 16384 + nrPagesSpanned addr len) := by omega
  rw [Nat.mod_eq_of_lt few, stop] at enlisted
  cases enlisted with
  | none reason =>
    rw [List.length_drop] at reason
    rcases reason with empty | scarce
    · have wraps : 16384 * (addr / 16384 + nrPagesSpanned addr len) ≤ 16384 * (addr / 16384) := empty
      omega
    · omega
  | @some before behind b x i split after order below above fresh area handed chunk =>
    cases before with
    | cons f rest =>
      obtain ⟨rfl, -⟩ := List.cons.inj split
      have first : e.2.stop ≤ 16384 * (addr / 16384) := below _ (List.mem_cons_self ..)
      omega
    | nil =>
      have last : behind = [e] := split.symm
      rw [after, last] at kept'
      exact ⟨r', l', B', b, kept'⟩

/-- Two pages are made, and two right in front of them. -/
theorem inOrder_front : ∃ (k₀ k : Mm) (a b : Nat) (v w : VmArea), CreateRun AddsSafely k₀ k ∧ k.Listed [(a, v), (b, w)] ∧
    v.start = 0x4000 ∧ v.stop = 0xc000 ∧ w.start = 0xc000 ∧ w.stop = 0x14000 ∧ k.InOrder := by
  obtain ⟨k, root, l, B, -, -, kept, room⟩ := smallNew
  have two : nrPagesSpanned (16384 * 3) (16384 * 2) = 2 := by decide
  have two' : nrPagesSpanned 0x4000 0x8000 = 2 := by decide
  obtain ⟨k₁, r₁, l₁, B₁, b, done₁, kept₁, ordered₁, -, room₁, -⟩ := kept.createUvm_last (m := 3) (n := 2) .nil (.single root) 0
    (by decide) (by decide) (by decide) (by decide) (by simp) (by omega)
  have first : AddsSafely k (16384 * 3) (16384 * 2) := apart_safe kept (by decide) (by simp) (by rw [two]; omega)
  have second : AddsSafely k₁ 0x4000 0x8000 := by
    refine apart_safe kept₁ (by decide) (fun e member => .inr ?_) (by rw [two']; omega)
    rw [List.mem_singleton.mp member]
    show 16384 * (0x4000 / 16384 + nrPagesSpanned 0x4000 0x8000) ≤ 16384 * 3
    decide
  have chunk : chunkPages B₁ ≤ 1 := by
    rw [chunkPages]
    split <;> omega
  have dirs := missingIn_le r₁ (0x4000 / 16384) 0 2
  obtain ⟨k₂, done₂⟩ : ∃ k₂, k₁.createUvm 0x4000 0x8000 0 = .ok (0, k₂) := by
    refine kept₁.createUvm_served ordered₁ (by decide) (by decide) (by decide) (by decide) (by decide) (by decide) ?_
    rw [two']
    omega
  have run : CreateRun AddsSafely k k₂ := .create (.create .start (by decide) first done₁) (by decide) second done₂
  obtain ⟨r₂, l₂, B₂, a, kept₂⟩ := front_listed kept₁ (by decide) (by decide) (by decide) (by decide) (by decide)
    (show 16384 * (0x4000 / 16384) < 16384 * (3 + 2) by decide) (by rw [two']; omega) (by decide) done₂
  exact ⟨k, k₂, a, b, _, _, run, kept₂.listed, rfl, rfl, rfl, rfl, run.inOrder kept .nil⟩

/-- An area that begins in another one is put in front of it. -/
theorem not_inOrder : ¬ ∀ (k₀ k : Mm) (root : Nat) (r : Dirs) (l : List Nat) (B : Heap.Slabs) (areas : List (Nat × VmArea)),
    k₀.Kept root r l B areas → Ordered areas → CreateRun (fun _ _ _ => True) k₀ k → k.InOrder := by
  intro always
  obtain ⟨k, root, l, B, -, -, kept, room⟩ := smallNew
  obtain ⟨k₁, r₁, l₁, B₁, a, done₁, kept₁, ordered₁, -, room₁, -⟩ := kept.createUvm_last (m := 1) (n := 2) .nil (.single root) 0
    le_rfl (by decide) (by decide) (by decide) (by simp) (by omega)
  have two : nrPagesSpanned 0x8000 0x8000 = 2 := by decide
  have chunk : chunkPages B₁ ≤ 1 := by
    rw [chunkPages]
    split <;> omega
  have dirs := missingIn_le r₁ (0x8000 / 16384) 0 2
  obtain ⟨k₂, done₂⟩ : ∃ k₂, k₁.createUvm 0x8000 0x8000 0 = .ok (0, k₂) := by
    refine kept₁.createUvm_served ordered₁ (by decide) (by decide) (by decide) (by decide) (by decide) (by decide) ?_
    rw [two]
    omega
  have run : CreateRun (fun _ _ _ => True) k k₂ :=
    .create (.create .start (by decide) trivial done₁) (by decide) trivial done₂
  obtain ⟨r₂, l₂, B₂, b, kept₂⟩ := front_listed kept₁ (by decide) (by decide) (by decide) (by decide) (by decide)
    (show 16384 * (0x8000 / 16384) < 16384 * (1 + 2) by decide) (by rw [two]; omega) (by decide) done₂
  obtain ⟨areas, listed, ordered⟩ := always k k₂ root _ l B [] kept .nil run
  obtain rfl := listed.unique kept₂.listed
  have sorted : 16384 * (0x8000 / 16384 + nrPagesSpanned 0x8000 0x8000) ≤ 16384 * 1 :=
    (List.pairwise_cons.mp ordered.sorted).1 _ (List.mem_cons_self ..)
  exact absurd sorted (by decide)

end CreateRun

end Xv6
