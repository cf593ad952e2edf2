import Xv6.VmServed

namespace Xv6

open PageMem

namespace Mm

/-- Every part of the range gives back what is copied into it, and no other byte of the user changes.
Outside of the range the pages are those of `r`. -/
def ReadsBack (k : Mm) (root : Nat) (r : Dirs) (addr len : Nat) : Prop :=
  ∃ r', k.heap.pm.UserMap root (userPages r') r' ∧ (∀ j, ¬ InRange addr len j → userPages r' j = userPages r j) ∧
    ∀ u n kv kv', addr ≤ u → u + n ≤ addr + len → 1 ≤ n → BufferApart k.heap.pm (userPages r') r' kv n →
      BufferApart k.heap.pm (userPages r') r' kv' n →
      (k.heap.pm.copyToUvm k.pgd u kv n).1 = 0 ∧
      ((k.heap.pm.copyToUvm k.pgd u kv n).2.copyFromUvm k.pgd u kv' n).1 = 0 ∧
      (∀ i < n, ((k.heap.pm.copyToUvm k.pgd u kv n).2.copyFromUvm k.pgd u kv' n).2.mem (kv' + i) =
        k.heap.pm.mem (kv + i)) ∧
      ∀ j p x, userPages r' j = some p → x < 16384 → (16384 * j + x < u ∨ u + n ≤ 16384 * j + x) →
        ((k.heap.pm.copyToUvm k.pgd u kv n).2.copyFromUvm k.pgd u kv' n).2.mem (k.heap.pm.pageToKvaddr p + x) =
          k.heap.pm.mem (k.heap.pm.pageToKvaddr p + x)

variable {k k' : Mm} {root addr len flags : Nat} {r : Dirs} {l : List Nat} {B : Heap.Slabs} {areas : List (Nat × VmArea)}

/-- A byte below the page array is no part of the pages. -/
theorem bufferApart_below {s : PageMem} {made : Nat → Option Nat} {r : Dirs} (base : s.highmemBasePfn ≠ 0) :
    BufferApart s made r kernbase 1 where
  user j p _ := by
    left
    rw [pageToKvaddr_eq, kernbase]
    omega
  table d _ := by
    left
    rw [pageToKvaddr_eq, kernbase]
    omega

/-- The pages that are not counted are not mapped. -/
theorem Created.uncounted {r' : Dirs} {l' : List Nat} {B' : Heap.Slabs} {areas' : List (Nat × VmArea)}
    (created : k.Created k' r r' l l' B B' areas areas' addr len flags) {j : Nat} (low : j < 2 ^ 33)
    (behind : addr / 16384 + nrPagesSpanned addr len % 2 ^ 32 ≤ j) (vacant : r.leaf (path (16384 * j)) = none) :
    entry r' j = none := by
  rw [entry, created.same, vacant, Option.map_none]
  intro i counted same
  have shared := path_alias.mp same
  omega

/-- A range that was created gives back what is copied into it exactly when its pages are counted by an int. -/
theorem Kept.readsBack_iff (kept : k.Kept root r l B areas) (base : k.heap.pm.highmemBasePfn ≠ 0)
    (covered : ∀ j < 2 ^ 33, r.leaf (path (16384 * j)) ≠ none → Covered areas (16384 * j))
    (apart : ∀ j, InRange addr len j → ¬ Covered areas (16384 * j)) (above : pgsize ≤ addr)
    (below : addr + len ≤ 2 ^ 47) (done : k.createUvm addr len flags = .ok (0, k')) :
    k'.ReadsBack root r addr len ↔ nrPagesSpanned addr len ≤ intMax := by
  have frames : ∀ q, k.heap.pm.pageToPfn q ≠ 0 := by
    intro q
    rw [pageToPfn]
    omega
  constructor
  · rintro ⟨r₁, -, -, back⟩
    by_contra many
    rw [pgsize] at above
    have positive : len ≠ 0 := by
      rintro rfl
      simp only [nrPagesSpanned, pgshift, Nat.shiftRight_eq_div_pow, intMax] at many
      omega
    have nonzero : pgaddrRounddown addr ≠ 0 := by
      rw [pgaddrRounddown_eq (by omega)]
      omega
    have counted := kept.createUvm_few positive nonzero (by omega) done
    rw [intMax] at many counted
    obtain ⟨r', l', B', areas', kept', created⟩ := kept.createUvm_done positive nonzero (by omega) done
    have count := nrPagesSpanned_eq (show 0 < len by omega) (show addr + len ≤ 2 ^ 64 by omega)
    have users := kept'.space.userMap fun π w found => by
      rw [pageToPfn, created.geometry.base]
      exact frames _
    have base' : k'.heap.pm.highmemBasePfn ≠ 0 := created.geometry.base ▸ base
    -- the last byte of the range is in a page that was not counted
    obtain ⟨zero, -⟩ := back (addr + len - 1) 1 kernbase kernbase (by omega) (by omega) le_rfl
      (bufferApart_below base') (bufferApart_below base')
    rw [kept'.pgd] at zero
    have last : InRange (addr + len - 1) 1 ((addr + len - 1) / 16384) := ⟨le_rfl, le_rfl⟩
    have backed := (copies_done users (bufferApart_below base') (by rw [xusegEnd]; omega) le_rfl (by omega) true).mp zero _ last
    refine users.backed_iff.mpr backed (created.uncounted (by omega) (by omega) ?_)
    by_contra mapped
    exact apart _ ⟨by omega, le_rfl⟩ (covered _ (by omega) mapped)
  · exact fun few => kept.readsBack (fun q _ => frames q) above below (lt_of_le_of_lt few (by decide)) done

/-- A set of 2^32 pages is counted as none, and nothing is mapped. -/
theorem Kept.createUvm_wraps (kept : k.Kept root r l B areas) (flags : Nat) (enough : 2 ^ 32 ≤ l.length) :
    ∃ k', k.createUvm 0x4000 (2 ^ 46) flags = .ok (0, k') := by
  obtain ⟨f, pm, alloc⟩ := allocPages_some kept.space.free (by decide) enough
  obtain ⟨tl, ys, -, length, -, set, -, -⟩ := kept.allocPages alloc
  have count : pm.pageCount f = 0 := by rw [set.pageCount_eq (List.mem_cons_self ..), length, Nat.mod_self]
  have pages : nrPagesSpanned 0x4000 (2 ^ 46) = 2 ^ 32 := by decide
  have start : pgaddrRounddown 0x4000 = 0x4000 := by decide
  have noArea : (k.setPm pm).areaNew 0x4000 0x4000 flags = .ok (0, k.setPm pm) := by rw [Mm.areaNew, if_pos le_rfl]
  have mapped : (k.setPm pm).mapPages 0x4000 f flags = .ok (0, k.setPm pm) := by
    have stop : (0x4000 + pgsize * (k.setPm pm).heap.pm.pageCount f) % 2 ^ 64 = 0x4000 := by
      rw [show (k.setPm pm).heap.pm.pageCount f = 0 from count, Nat.mul_zero]
      rfl
    have loop (q : Nat) : mapLoop f (pagePerm flags) (intMax + 1) 0 0x4000 (.page q) (k.setPm pm) = .ok (0, k.setPm pm) := by
      rw [mapLoop, show (k.setPm pm).heap.pm.pageCount f = 0 from count, if_neg (Nat.lt_irrefl 0)]
    rw [mapPages, if_neg (by decide)]
    simp only [stop, noArea, Res.ok_bind, areaInsert, if_true, loop]
  refine ⟨k.setPm pm, ?_⟩
  simp only [createUvm, start, pages, alloc, Res.ok_bind, mapped, if_true]
  rfl

end Mm

/-- A heap on a machine with 2^33 pages. -/
def largeHeap : Heap := slabBootstrap (initPageArray 1 (2 ^ 33) ⟨id, id⟩ fun _ => 0) ⟨id, id⟩

theorem largeHeap_kept :
    largeHeap.Kept (List.range' (pageArrayPages (2 ^ 33)) (2 ^ 33 - pageArrayPages (2 ^ 33))) ⟨fun _ => [], fun _ => []⟩ := by
  have free := (initPageArray_books 1 (2 ^ 33) ⟨id, id⟩ fun _ => 0).free
  rw [bootLedger_sort] at free
  exact Heap.kept_bootstrap free (by decide) ⟨id, id⟩

theorem largeHeap_phys : largeHeap.pm.PhysBound := by
  rw [PhysBound]
  decide

namespace Mm

/-- A page is created and gives back what is copied into it. -/
theorem readsBack_page : ∃ (k : Mm) (root : Nat), k.ReadsBack root (Radix.single root) 0x4000 0x4000 := by
  obtain ⟨k, root, l, B, new, table, kept, room⟩ := smallNew
  obtain ⟨k', -, -, -, -, done, -⟩ := kept.createUvm_last (m := 1) (n := 1) .nil (.single root) 0
    le_rfl (by decide) (by decide) (by decide) (by simp) (by omega)
  have base : k.heap.pm.highmemBasePfn ≠ 0 := by
    rw [(mmNew_geometry smallHeap_kept smallHeap_phys new table).base]
    decide
  refine ⟨k', root, (kept.readsBack_iff base ?_ ?_ (by decide) (by decide) done).mpr (by decide)⟩
  · intro j _ mapped
    exact absurd rfl mapped
  · rintro j - ⟨e, member, -⟩
    cases member

/-- A range of 2^32 pages is not mapped. -/
theorem not_readsBack : ¬ ∀ (k k' : Mm) (root addr len flags : Nat) (r : Dirs) (l : List Nat) (B : Heap.Slabs)
    (areas : List (Nat × VmArea)), k.Kept root r l B areas → k.heap.pm.highmemBasePfn ≠ 0 →
    (∀ j < 2 ^ 33, r.leaf (path (16384 * j)) ≠ none → Covered areas (16384 * j)) →
    (∀ j, InRange addr len j → ¬ Covered areas (16384 * j)) → pgsize ≤ addr → addr + len ≤ 2 ^ 47 →
    k.createUvm addr len flags = .ok (0, k') → k'.ReadsBack root r addr len := by
  intro always
  obtain ⟨k, root, l, B, new, table, kept, room⟩ :=
    mmNew_served largeHeap_kept largeHeap_phys smallCpu ⟨id, id⟩ (by rw [List.length_range']; decide)
  rw [List.length_range'] at room
  have pages : 2 ^ 32 + 2 ≤ 2 ^ 33 - pageArrayPages (2 ^ 33) := by decide
  have base : k.heap.pm.highmemBasePfn ≠ 0 := by
    rw [(mmNew_geometry largeHeap_kept largeHeap_phys new table).base]
    decide
  have covered : ∀ j < 2 ^ 33, (Radix.single root : Dirs).leaf (path (16384 * j)) ≠ none → Covered [] (16384 * j) :=
    fun j _ mapped => absurd rfl mapped
  have apart : ∀ j, InRange 0x4000 (2 ^ 46) j → ¬ Covered [] (16384 * j) := by
    rintro j - ⟨e, member, -⟩
    cases member
  obtain ⟨k', done⟩ := kept.createUvm_wraps 0 (by omega)
  have promised := always k k' root 0x4000 (2 ^ 46) 0 _ l B [] kept base covered apart (by decide) (by decide) done
  exact absurd ((kept.readsBack_iff base covered apart (by decide) (by decide) done).mp promised) (by decide)

end Mm

end Xv6
