import Mathlib.Algebra.Order.Interval.Finset.SuccPred
import Mathlib.Data.Nat.SuccPred
import Xv6.VmCreate

namespace Xv6

namespace PageMem

/-- A new table is an address space without pages. -/
theorem SpaceKept.start {s s' : PageMem} {root asid : Nat} {l : List Nat} (free : FreeList s l) (phys : PhysBound s)
    (new : s.pgdirNew asid = .ok (some root, s')) :
    ∃ rest, l = root :: rest ∧ SpaceKept root s' (Radix.single root) rest ∧ SameGeometry s s' ∧
      ∀ q, q ∉ l → s.Agree s' q := by
  cases l with
  | nil =>
    rw [pgdirNew_none free] at new
    cases new
  | cons x rest =>
    obtain ⟨s₁, run, free', dir, zero, geometry, agree⟩ := pgdirNew_spec free asid
    obtain ⟨same, rfl⟩ := Prod.mk.inj (Except.ok.inj (new.symm.trans run))
    obtain rfl := Option.some.inj same
    exact ⟨rest, rfl, ⟨.single dir zero, by simp [Radix.single], Radix.single_full root, free', phys.frame geometry,
      fun _ _ found => (nomatch found), fun _ _ _ _ found => (nomatch found), fun _ _ found => (nomatch found)⟩, geometry,
      agree⟩

end PageMem

open PageMem

/-- The addresses that are in an area. -/
def Covered (areas : List (Nat × VmArea)) (x : Nat) : Prop := ∃ e ∈ areas, e.2.Has x

theorem covered_insert {l₁ l₂ : List (Nat × VmArea)} {e : Nat × VmArea} {x : Nat} :
    Covered (l₁ ++ e :: l₂) x ↔ Covered (l₁ ++ l₂) x ∨ e.2.Has x := by
  simp only [Covered, List.mem_append, List.mem_cons]
  constructor
  · rintro ⟨f, left | rfl | right, inside⟩
    · exact .inl ⟨f, .inl left, inside⟩
    · exact .inr inside
    · exact .inl ⟨f, .inr right, inside⟩
  · rintro (⟨f, left | right, inside⟩ | inside)
    · exact ⟨f, .inl left, inside⟩
    · exact ⟨f, .inr (.inr right), inside⟩
    · exact ⟨e, .inr (.inl rfl), inside⟩

/-- The areas are in user space, and cover just the pages that are mapped. -/
structure PagesMatch (r : Dirs) (areas : List (Nat × VmArea)) : Prop where
  low : ∀ e ∈ areas, e.2.stop ≤ 2 ^ 47
  mapped : ∀ j < 2 ^ 33, r.leaf (path (16384 * j)) ≠ none ↔ Covered areas (16384 * j)

/-- What is mapped changes in a range only, and with it what is covered. -/
theorem PagesMatch.update {r r' : Dirs} {areas areas' : List (Nat × VmArea)} {m n : Nat} (pages : PagesMatch r areas)
    (low : ∀ e ∈ areas', e.2.stop ≤ 2 ^ 47) (range : m + n ≤ 2 ^ 33)
    (same : ∀ π, (∀ i < n, path (16384 * (m + i)) ≠ π) → r'.leaf π = r.leaf π)
    (inner : ∀ i < n, r'.leaf (path (16384 * (m + i))) ≠ none ↔ Covered areas' (16384 * (m + i)))
    (outer : ∀ j, ¬ (m ≤ j ∧ j < m + n) → (Covered areas' (16384 * j) ↔ Covered areas (16384 * j))) : PagesMatch r' areas' where
  low := low
  mapped j small := by
    by_cases inside : m ≤ j ∧ j < m + n
    · have here := inner (j - m) (by omega)
      rwa [show m + (j - m) = j by omega] at here
    · rw [outer j inside, ← pages.mapped j small, same _ fun i less shared => inside ?_]
      have := path_alias.mp shared
      omega

/-- The number of pages from `m + i` up to `m + j` that are mapped. -/
def mappedIn (r : Dirs) (m i j : Nat) : Nat := ((Finset.Ico i j).filter fun t => r.leaf (path (16384 * (m + t))) ≠ none).card

/-- The free pages, and those that are given back on the way, are enough for the directories. -/
def Roomy (r : Dirs) (free m i count : Nat) : Prop := ∀ j, i ≤ j → j < count → missingIn r m i (j + 1) ≤ free + mappedIn r m i j

theorem mappedIn_cons {r : Dirs} {m i j : Nat} (more : i < j) :
    mappedIn r m i j = (if r.leaf (path (16384 * (m + i))) = none then 0 else 1) + mappedIn r m (i + 1) j := by
  rw [mappedIn, mappedIn, ← Finset.insert_Ico_add_one_left_eq_Ico more, Finset.filter_insert]
  by_cases vacant : r.leaf (path (16384 * (m + i))) = none
  · simp [vacant]
  · rw [if_pos vacant, if_neg vacant, Finset.card_insert_of_notMem (by simp), Nat.add_comm]

/-- More pages have more directories. -/
theorem missingIn_mono {r : Dirs} {m i j count : Nat} (upper : j ≤ count) : missingIn r m i j ≤ missingIn r m i count :=
  Finset.card_le_card (Finset.filter_subset_filter _
    (Finset.biUnion_subset_biUnion_of_subset_left _ (Finset.Ico_subset_Ico_right upper)))

namespace Roomy

variable {r r₁ : Dirs} {free free₁ m i count : Nat}

theorem enough (roomy : Roomy r free m i count) (more : i < count) : missing r (16384 * (m + i)) ≤ free := by
  have first := roomy i le_rfl more
  have nothing : mappedIn r m i i = 0 := by simp [mappedIn]
  rw [nothing] at first
  exact le_trans (missing_le_missingIn (Nat.lt_succ_self i)) first

/-- One page was mapped. -/
theorem step (roomy : Roomy r free m i count) (more : i < count) (near : count ≤ i + 2 ^ 33)
    (dirs : ∀ ρ, ρ ≠ [pgx (16384 * (m + i))] → ρ ≠ [pmx (16384 * (m + i)), pgx (16384 * (m + i))] → r₁.dir ρ = r.dir ρ)
    {w : Nat × Nat} (leaf : r₁.leaf = Function.update r.leaf (path (16384 * (m + i))) (some w))
    (spent : free₁ + missing r (16384 * (m + i)) = free + if r.leaf (path (16384 * (m + i))) = none then 0 else 1) :
    Roomy r₁ free₁ m (i + 1) count := by
  intro j lower upper
  have before := roomy j (by omega) upper
  have dirsLeft := missingIn_step (r := r) (m := m) (show i < j + 1 by omega) dirs (by rw [leaf, Function.update_self]; simp)
  have others : mappedIn r₁ m (i + 1) j = mappedIn r m (i + 1) j := by
    rw [mappedIn, mappedIn]
    refine congrArg _ (Finset.filter_congr fun t inside => ?_)
    have bounds := Finset.mem_Ico.mp inside
    rw [leaf, Function.update_of_ne (path_near (by omega) (by omega)).symm]
  rw [mappedIn_cons (by omega)] at before
  omega

end Roomy

/-- A new area among ordered ones that it does not overlap. -/
theorem Mm.Enlisted.ordered {k k' : Mm} {l : List Nat} {B B' : Heap.Slabs} {areas areas' : List (Nat × VmArea)} {v : VmArea}
    (enlisted : k.Enlisted k' l B B' areas areas' v) (ordered : Ordered areas)
    (aligned : v.start % 16384 = 0 ∧ v.stop % 16384 = 0) (bound : v.stop < 2 ^ 64)
    (apart : ∀ e ∈ areas, e.2.stop ≤ v.start ∨ v.stop ≤ e.2.start) : Ordered areas' := by
  cases enlisted with
  | none reason same area slabs => rwa [same]
  | @some l₁ l₂ a x i before after order below above fresh area handed chunk =>
    subst before after
    exact ordered.place order aligned bound below above apart

namespace Mm

variable {k k' : Mm} {root m f perm addr len flags : Nat} {r : Dirs} {l tl : List Nat} {B : Heap.Slabs}
variable {areas : List (Nat × VmArea)}

/-- With memory for the directories the loop of `map_pages` does not fail, but its int may overflow. -/
theorem mapLoop_roomy {pre xs : List Nat} {fuel vaddr count : Nat} (mapping : k.Mapping root r l m f tl pre xs)
    (own : perm &&& pteGlobal = 0) (limit : pre.length + fuel = intMax + 1)
    (address : vaddr = 16384 * (m + pre.length) % 2 ^ 64) (above : 1 ≤ m) (counted : count = (tl.length + 1) % 2 ^ 32)
    (range : 16384 * (m + count) ≤ 2 ^ 64) (roomy : Roomy r l.length m pre.length count) :
    (∃ k', mapLoop f perm fuel pre.length vaddr (.page (xs.headD f)) k = .ok (0, k')) ∨
      intMax < count ∧ mapLoop f perm fuel pre.length vaddr (.page (xs.headD f)) k = .error .overflow := by
  have total : k.heap.pm.pageCount f = count := mapping.pageCount.trans counted.symm
  have whole := congrArg List.length mapping.split
  rw [List.length_append, List.length_cons] at whole
  induction fuel generalizing k r l pre xs vaddr with
  | zero => exact absurd mapping.short (by omega)
  | succ fuel ih =>
    rw [mapLoop, total]
    by_cases more : pre.length < count
    · obtain ⟨p, xs, rfl⟩ : ∃ p ys, xs = p :: ys := by
        cases xs with
        | cons p ys => exact ⟨p, ys, rfl⟩
        | nil =>
          rw [List.length_nil] at whole
          omega
      rw [List.length_cons] at whole
      obtain rfl : vaddr = 16384 * (m + pre.length) := by omega
      have small : 16384 * (m + pre.length) < 2 ^ 64 := by omega
      have nonzero : pgaddrRounddown (16384 * (m + pre.length)) ≠ 0 := by
        rw [pgaddrRounddown_eq small]
        omega
      obtain ⟨pm, r₁, l₁, run, space₁, mapped, spent⟩ := mapping.space.map_counted small nonzero mapping.held mapping.free own
        (roomy.enough more)
      have step : (if pre.length < count then
          k.archMapPage (16384 * (m + pre.length)) p perm >>= fun done =>
            if done.1 ≠ 0 then .ok (done.1, done.2)
            else mapLoop f perm fuel (pre.length + 1) ((16384 * (m + pre.length) + pgsize) % 2 ^ 64)
              (done.2.heap.pm.nextPage p) done.2
          else .ok (0, k)) =
          mapLoop f perm fuel (pre.length + 1) ((16384 * (m + pre.length) + pgsize) % 2 ^ 64) ((k.setPm pm).heap.pm.nextPage p)
            (k.setPm pm) := by
        simp only [more, if_true, mapping.archMapPage, run, Res.ok_bind, ne_eq, not_true, if_false]
      simp only [List.headD_cons]
      cases fuel with
      | zero =>
        refine .inr ⟨by omega, step.trans ?_⟩
        rw [mapLoop]
      | succ fuel =>
        have mapping₁ := mapping.step space₁ mapped (by omega)
        have next : (k.setPm pm).heap.pm.nextPage p = .page (xs.headD f) := mapping₁.nextPage
        have index : pre.length + 1 = (pre ++ [p]).length := by simp
        have rest := ih mapping₁ (by rw [← index]; omega)
          (show (16384 * (m + pre.length) + pgsize) % 2 ^ 64 = 16384 * (m + (pre ++ [p]).length) % 2 ^ 64 by
            rw [← index, pgsize]
            rfl)
          (by rw [← index]; exact roomy.step more (by omega) mapped.dirs mapped.leaf spent)
          (mapping₁.pageCount.trans counted.symm) (by rw [← index]; omega)
        rw [next] at step
        rw [← index] at rest
        rcases rest with ⟨k', done⟩ | ⟨many, failed⟩
        · exact .inl ⟨k', step.trans done⟩
        · exact .inr ⟨many, step.trans failed⟩
    · exact .inl ⟨k, if_neg more⟩

/-- With memory for the directories the loop of `map_pages` succeeds. -/
theorem mapLoop_served {pre xs : List Nat} {fuel vaddr : Nat} (mapping : k.Mapping root r l m f tl pre xs)
    (own : perm &&& pteGlobal = 0) (limit : pre.length + fuel = intMax + 1)
    (address : vaddr = 16384 * (m + pre.length) % 2 ^ 64) (above : 1 ≤ m) (few : tl.length + 1 ≤ intMax)
    (range : 16384 * (m + (tl.length + 1)) ≤ 2 ^ 64) (enough : missingIn r m pre.length (tl.length + 1) ≤ l.length) :
    ∃ k', mapLoop f perm fuel pre.length vaddr (.page (xs.headD f)) k = .ok (0, k') := by
  have counted : tl.length + 1 = (tl.length + 1) % 2 ^ 32 := by
    rw [intMax] at few
    omega
  have roomy : Roomy r l.length m pre.length (tl.length + 1) := fun j lower upper =>
    le_trans (missingIn_mono upper) (le_trans enough (Nat.le_add_right ..))
  rcases mapLoop_roomy mapping own limit address above counted range roomy with served | ⟨many, -⟩
  · exact served
  · omega

/-- With memory for the area and the directories `map_pages` returns 0. -/
theorem Kept.mapPages_served (kept : k.Kept root r l B areas) (ordered : Ordered areas) (set : AllocSet k.heap.pm f tl)
    (type : (k.heap.pm.page f).type = .generic) (unmapped : ∀ π w, r.leaf π = some w → w.1 ∉ f :: tl) (above : 1 ≤ m)
    (few : tl.length + 1 ≤ intMax) (range : 16384 * (m + (tl.length + 1)) < 2 ^ 64)
    (enough : chunkPages B + missingIn r m 0 (tl.length + 1) ≤ l.length) :
    ∃ k', k.mapPages (16384 * m) f flags = .ok (0, k') := by
  have counted : k.heap.pm.pageCount f = tl.length + 1 := by
    rw [intMax] at few
    rw [set.pageCount_eq (List.mem_cons_self ..), Nat.mod_eq_of_lt (by omega)]
  have head : k.heap.pm.firstPage f = f := set.firstPage_eq (List.mem_cons_self ..)
  have stop : (16384 * m + pgsize * (tl.length + 1)) % 2 ^ 64 = 16384 * (m + (tl.length + 1)) := by
    rw [pgsize]
    omega
  have whole : ¬ pageOff (16384 * m) ≠ 0 := by
    rw [pageOff_eq]
    omega
  have order : 16384 * m < 16384 * (m + (tl.length + 1)) := by omega
  obtain ⟨a, k₁, k₂, new, insert⟩ : ∃ a k₁ k₂, k.areaNew (16384 * m) (16384 * (m + (tl.length + 1))) flags = .ok (a, k₁) ∧
      k₁.areaInsert a = .ok k₂ := by
    rcases kept.areaNew flags order (by omega) with
      ⟨h', run, -, scarce, -⟩ | ⟨a, h', l', B', x, i, run, nonzero, fresh, -, -, kept₁⟩
    · omega
    · obtain ⟨k₂, insert⟩ := areaInsert_spec kept₁.listed ordered (Function.update_self ..) nonzero (kept.unlisted fresh) order
      exact ⟨a, _, k₂, run, insert⟩
  obtain ⟨l₂, B₂, areas₂, kept₂, -, geometry, -, agree, -, -, less, -⟩ := kept.enlist (by omega) new insert
  have mapping := kept₂.mapping m set type unmapped geometry agree
  obtain ⟨k', loop⟩ := mapLoop_served mapping (pagePerm_own flags) (Nat.zero_add (intMax + 1))
    (show 16384 * m = 16384 * (m + 0) % 2 ^ 64 by omega) above few (Nat.le_of_lt range)
    (by simp only [List.length_nil]; omega)
  rw [List.length_nil, List.headD_cons] at loop
  refine ⟨k', ?_⟩
  simp only [mapPages, whole, if_false, counted, head, stop, new, Res.ok_bind, insert, loop, if_true]

/-- With memory for the pages, the area and the directories `mm_create_uvm` returns 0. -/
theorem Kept.createUvm_served (kept : k.Kept root r l B areas) (ordered : Ordered areas) (positive : len ≠ 0)
    (above : pgaddrRounddown addr ≠ 0) (small : addr < 2 ^ 64) (some : 1 ≤ nrPagesSpanned addr len)
    (few : nrPagesSpanned addr len ≤ intMax) (range : 16384 * (addr / 16384 + nrPagesSpanned addr len) < 2 ^ 64)
    (enough : nrPagesSpanned addr len + chunkPages B + missingIn r (addr / 16384) 0 (nrPagesSpanned addr len) ≤ l.length) :
    ∃ k', k.createUvm addr len flags = .ok (0, k') := by
  obtain ⟨f, pm, pages⟩ := allocPages_some kept.space.free some (by omega)
  obtain ⟨tl, ys, rfl, length, kept₁, set, type, -⟩ := kept.allocPages pages
  have start : pgaddrRounddown addr = 16384 * (addr / 16384) := by
    rw [pgaddrRounddown_eq small, Nat.mul_comm]
  have entry : ¬ (len = 0 ∨ pgaddrRounddown addr = 0) := not_or.mpr ⟨positive, above⟩
  have unmapped : ∀ π w, r.leaf π = .some w → w.1 ∉ f :: tl :=
    fun π w found inside => kept.space.leaf_not_free found (List.mem_append_left _ inside)
  rw [← length] at few range enough
  rw [List.length_append, List.length_cons] at enough
  obtain ⟨k', mapped⟩ : ∃ k', (k.setPm pm).mapPages (16384 * (addr / 16384)) f flags = .ok (0, k') :=
    kept₁.mapPages_served ordered set type unmapped (by omega) few range (by omega)
  refine ⟨k', ?_⟩
  rw [← start] at mapped
  simp only [createUvm, entry, if_false, pages, Res.ok_bind, mapped, if_true]

/-- A range above all areas is made behind them. -/
theorem Kept.createUvm_last (kept : k.Kept root r l B areas) (ordered : Ordered areas) (pages : PagesMatch r areas) {n : Nat}
    (flags : Nat) (above : 1 ≤ m) (some : 1 ≤ n) (few : n ≤ intMax) (range : 16384 * (m + n) ≤ 2 ^ 47)
    (below : ∀ e ∈ areas, e.2.stop ≤ 16384 * m) (enough : 3 * n + 1 ≤ l.length) :
    ∃ k' r' l' B' a, k.createUvm (16384 * m) (16384 * n) flags = .ok (0, k') ∧
      k'.Kept root r' l' B' (areas ++ [(a, ⟨16384 * m, 16384 * (m + n), flags, k.self⟩)]) ∧
      Ordered (areas ++ [(a, ⟨16384 * m, 16384 * (m + n), flags, k.self⟩)]) ∧
      PagesMatch r' (areas ++ [(a, ⟨16384 * m, 16384 * (m + n), flags, k.self⟩)]) ∧ l.length ≤ l'.length + (3 * n + 1) ∧
      k'.self = k.self := by
  rw [intMax] at few
  have count : nrPagesSpanned (16384 * m) (16384 * n) = n := by
    rw [nrPagesSpanned_eq (by omega) (by omega)]
    omega
  have page : 16384 * m / 16384 = m := by omega
  have nonzero : pgaddrRounddown (16384 * m) ≠ 0 := by
    rw [pgaddrRounddown_eq (by omega)]
    omega
  have vacant : ∀ j < n, r.leaf (path (16384 * (m + j))) = none := by
    intro j less
    by_contra mapped
    obtain ⟨e, member, -, upper⟩ := (pages.mapped (m + j) (by omega)).mp mapped
    have := below e member
    omega
  have dirs := missingIn_le r m 0 n
  have chunk : chunkPages B ≤ 1 := by
    rw [chunkPages]
    split <;> omega
  obtain ⟨k', done⟩ : ∃ k', k.createUvm (16384 * m) (16384 * n) flags = .ok (0, k') := kept.createUvm_served ordered (by omega)
    nonzero (by omega) (by omega) (by rw [count, intMax]; omega) (by rw [count, page]; omega)
    (by rw [count, page]; omega)
  obtain ⟨r', l', B', areas', kept', created⟩ := kept.createUvm_done (by omega) nonzero (by omega) done
  have spent := created.spent
  have enlisted := created.enlisted
  have mapped := created.mapped
  have same := created.same
  rw [count, page] at spent enlisted mapped same
  rw [Nat.mod_eq_of_lt (show n < 2 ^ 32 by omega)] at enlisted mapped same
  have stop : (16384 * m + 16384 * n) % 2 ^ 64 = 16384 * (m + n) := by omega
  rw [stop] at enlisted
  have ordered' := enlisted.ordered ordered ⟨by simp, by simp⟩ (show 16384 * (m + n) < 2 ^ 64 by omega)
    fun e member => .inl (below e member)
  have left := List.length_drop (l := l) (i := n)
  have room := spent (by omega) vacant
  cases enlisted with
  | none reason _ _ _ =>
    exfalso
    simp only at reason
    omega
  | @some l₁ l₂ a x i before after order _ behind fresh area handed chunk =>
    have nothing : l₂ = [] := by
      cases l₂ with
      | nil => rfl
      | cons e rest =>
        have first := behind e (by simp)
        have second := below e (by simp [before])
        simp only at first
        omega
    rw [nothing, List.append_nil] at before
    rw [nothing, ← before] at after
    subst after
    have covered : ∀ x, Covered (areas ++ [(a, ⟨16384 * m, 16384 * (m + n), flags, k.self⟩)]) x ↔
        Covered areas x ∨ (16384 * m ≤ x ∧ x < 16384 * (m + n)) := fun x =>
      covered_insert.trans (by rw [List.append_nil]; rfl)
    refine ⟨k', r', l', B', a, done, kept', ordered', pages.update (fun e member => ?_) (by omega) same (fun i less => ?_)
      fun j outside => ?_, by omega, created.self⟩
    · rcases List.mem_append.mp member with old | new
      · exact pages.low e old
      · rw [List.mem_singleton.mp new]
        exact range
    · rw [covered]
      exact iff_of_true (mapped i less) (.inr (by omega))
    · rw [covered]
      exact or_iff_left fun inside => outside (by omega)

/-- A structure with a root directory is a chunk and a page. -/
theorem mmNew_parts {h : Heap} {c : Cpu} {L : Links VmaNode} {l₀ : List Nat} {B₀ : Heap.Slabs} (kept : h.Kept l₀ B₀)
    (new : mmNew h c L = .ok k) (table : k.pgd ≠ 0) :
    ∃ x i h₁ l₁ B root pm, Heap.Served h h₁ l₀ l₁ B₀ B areaCache x i ∧
      h₁.pm.pgdirNew asidInvalid = .ok (some root, pm) ∧
      k = ⟨{ h₁ with pm := pm }, c, h.pm.pageToKvaddr x + i * Heap.cacheSize areaCache, pm.pageToKvaddr root, 0,
        L.init .mmapList, fun _ => none⟩ := by
  rw [mmNew] at new
  obtain ⟨⟨a, heap⟩, alloc, new⟩ := Res.bind_eq_ok.mp new
  simp only at new
  split_ifs at new with null
  obtain ⟨⟨pgd, pm⟩, made, new⟩ := Res.bind_eq_ok.mp new
  obtain rfl := Except.ok.inj new
  cases pgd with
  | none => exact absurd rfl table
  | some root =>
    have small : h.slabAlloc 48 = .ok (a, heap) := alloc
    obtain ⟨d, known, fits, ⟨-, -, run⟩ | ⟨x, i, h₁, l₁, B, run, served⟩⟩ :=
      Heap.slabAlloc_spec kept (n := 48) (by decide) (by decide) (by decide)
    · exact absurd (Prod.mk.inj (Except.ok.inj (small.symm.trans run))).1 null
    obtain rfl : d = areaCache := fits.unique known (by decide) fits_areaCache
    obtain ⟨rfl, rfl⟩ := Prod.mk.inj (Except.ok.inj (small.symm.trans run))
    exact ⟨x, i, heap, l₁, B, root, pm, served, made, rfl⟩

/-- What `mm_new` makes: a mapping structure without areas, if there was a page for the root directory. -/
theorem mmNew_done {h : Heap} {c : Cpu} {L : Links VmaNode} {l₀ : List Nat} {B₀ : Heap.Slabs} (kept : h.Kept l₀ B₀)
    (phys : h.pm.PhysBound) (new : mmNew h c L = .ok k) :
    k.pgd = 0 ∨ ∃ root l B x i h₁, k.Kept root (Radix.single root) l B [] ∧
      Heap.Served h h₁ l₀ (root :: l) B₀ B areaCache x i ∧ Heap.Chunk k.heap B k.self sizeofMm areaCache x i ∧
      ∀ a, k.area a = none := by
  by_cases table : k.pgd = 0
  · exact .inl table
  right
  obtain ⟨x, i, h₁, l₁, B, root, pm, served, made, rfl⟩ := mmNew_parts kept new table
  obtain ⟨l, rfl, space, geometry, agree⟩ := SpaceKept.start served.kept.free (phys.frame served.geometry) made
  have heap' : Heap.Kept { h₁ with pm := pm } l B :=
    served.kept.elsewhere space.free geometry fun d y holds => agree y ((served.kept.slabPage holds).not_free served.kept.free)
  have live : B.Live areaCache x i := (served.handed.live areaCache x i).mpr (.inr ⟨rfl, rfl, rfl⟩)
  refine ⟨root, l, B, x, i, h₁, ⟨heap', space, rfl, ⟨L.init_ring .mmapList, ?_, ?_, ?_, .inl rfl⟩, ?_⟩, served,
    ⟨fits_areaCache, live, ?_⟩, fun _ => rfl⟩
  · simp
  · simp
  · simp
  · exact fun a object => absurd rfl object
  · show h.pm.pageToKvaddr x + _ = pm.pageToKvaddr x + _
    rw [geometry.kvaddr, served.geometry.kvaddr]

/-- The new structure is one of the same machine. -/
theorem mmNew_geometry {h : Heap} {c : Cpu} {L : Links VmaNode} {l₀ : List Nat} {B₀ : Heap.Slabs} (kept : h.Kept l₀ B₀)
    (phys : h.pm.PhysBound) (new : mmNew h c L = .ok k) (table : k.pgd ≠ 0) : h.pm.SameGeometry k.heap.pm := by
  obtain ⟨x, i, h₁, l₁, B, root, pm, served, made, rfl⟩ := mmNew_parts kept new table
  obtain ⟨-, -, -, geometry, -⟩ := SpaceKept.start served.kept.free (phys.frame served.geometry) made
  exact served.geometry.trans geometry

/-- With two pages `mm_new` makes a structure with a root directory. -/
theorem mmNew_served {h : Heap} {l₀ : List Nat} {B₀ : Heap.Slabs} (kept : h.Kept l₀ B₀) (phys : h.pm.PhysBound) (c : Cpu)
    (L : Links VmaNode) (enough : 2 ≤ l₀.length) :
    ∃ k root l B, mmNew h c L = .ok k ∧ k.pgd ≠ 0 ∧ k.Kept root (Radix.single root) l B [] ∧ l₀.length ≤ l.length + 2 := by
  obtain ⟨d, known, fits, ⟨none, -, -⟩ | ⟨x, i, h₁, l₁, B, run, served⟩⟩ :=
    Heap.slabAlloc_spec kept (n := 48) (by decide) (by decide) (by decide)
  · rw [none, List.length_nil] at enough
    omega
  have less : l₀.length ≤ l₁.length + 1 := by
    rcases served.pages with ⟨rfl, -⟩ | ⟨-, rfl⟩
    · exact Nat.le_succ _
    · exact le_rfl
  obtain ⟨x', rest, rfl⟩ : ∃ x' rest, l₁ = x' :: rest := List.exists_cons_of_length_pos (by omega)
  obtain ⟨pm, table, -⟩ := pgdirNew_spec served.kept.free asidInvalid
  have nonzero : h.pm.pageToKvaddr x + i * Heap.cacheSize d ≠ 0 := SlabRun.address_ne_zero
  have alloc : h.kmalloc 0 sizeofMm = .ok (h.pm.pageToKvaddr x + i * Heap.cacheSize d, h₁) := run
  obtain ⟨k, new, table'⟩ : ∃ k, mmNew h c L = .ok k ∧ k.pgd = pm.pageToKvaddr x' := by
    simp only [mmNew, alloc, Res.ok_bind, nonzero, if_false, table, Option.elim_some, Except.ok.injEq, exists_eq_left']
  have present : k.pgd ≠ 0 := table' ▸ kvaddr_pos _ _
  obtain ⟨root, l, B', y, j, h₂, kept', served', -⟩ := (mmNew_done kept phys new).resolve_left present
  refine ⟨k, root, l, B', new, present, kept', ?_⟩
  rcases served'.pages with ⟨same, -⟩ | ⟨-, same⟩
  · rw [← same, List.length_cons]
    omega
  · rw [same]
    exact le_rfl

end Mm

/-- A heap on a machine with 64 pages. -/
def smallHeap : Heap := slabBootstrap (initPageArray 1 64 ⟨id, id⟩ fun _ => 0) ⟨id, id⟩

theorem smallHeap_kept : smallHeap.Kept (List.range' 1 63) ⟨fun _ => [], fun _ => []⟩ := by
  have free := (initPageArray_books 1 64 ⟨id, id⟩ fun _ => 0).free
  rw [bootLedger_sort] at free
  exact Heap.kept_bootstrap free (by decide) ⟨id, id⟩

theorem smallHeap_used : Heap.Slabs.Used ⟨fun _ => [], fun _ => []⟩ := by
  rintro c x ⟨b, member⟩
  cases member

theorem smallHeap_phys : smallHeap.pm.PhysBound := by
  rw [PhysBound]
  decide

def smallCpu : Cpu := ⟨64, fun _ => ⟨0, 0, false, 0, 0⟩, 0, 1, 0, 0, id, 0⟩

/-- A new structure on it. -/
theorem Mm.smallNew : ∃ k root l B, mmNew smallHeap smallCpu ⟨id, id⟩ = .ok k ∧ k.pgd ≠ 0 ∧
    k.Kept root (Radix.single root) l B [] ∧ 61 ≤ l.length := by
  obtain ⟨k, root, l, B, new, table, kept, room⟩ := mmNew_served smallHeap_kept smallHeap_phys smallCpu ⟨id, id⟩ (by decide)
  rw [List.length_range'] at room
  exact ⟨k, root, l, B, new, table, kept, by omega⟩

theorem PagesMatch.single (root : Nat) : PagesMatch (Radix.single root) [] where
  low := by simp
  mapped := by simp [Radix.single, Covered]

theorem Ordered.nil : Ordered [] := ⟨by simp, by simp, by simp, .nil⟩

end Xv6
