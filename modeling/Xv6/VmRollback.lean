import Xv6.VmUnmap

namespace Xv6

namespace PageMem

variable {root : Nat} {s s' : PageMem} {r r' : Dirs} {l l' : List Nat}

/-- A lookup reads an address modulo 2^64. -/
theorem path_word (j : Nat) : path (16384 * j % 2 ^ 64) = path (16384 * j) := by
  rw [show 16384 * j % 2 ^ 64 = 16384 * (j % 2 ^ 50) by omega, path_alias]
  omega

/-- A set of held pages is left alone with the pages that are neither free nor directories. -/
theorem SpaceKept.set_frame (kept : SpaceKept root s r l) {f : Nat} {tl : List Nat} (set : AllocSet s f tl)
    (type : (s.page f).type = .generic) (geometry : SameGeometry s s') (agree : ∀ q, q ∉ l → ¬ r.Owns q → s.Agree s' q) :
    AllocSet s' f tl ∧ (s'.page f).type = .generic := by
  have same : ∀ q ∈ f :: tl, s.Agree s' q := fun q member => agree q (set.disjoint_free kept.free member) fun owned =>
    Held.not_dir ⟨f, tl, set, member, type⟩ (kept.owned_dir owned) rfl
  refine ⟨set.frame geometry same, ?_⟩
  rw [(same f (List.mem_cons_self ..)).page]
  exact type

/-- The pages of a set that is not mapped are given back, as many as their counter says. -/
theorem SpaceKept.freeAllPages (kept : SpaceKept root s r l) {f : Nat} {tl : List Nat} (set : AllocSet s f tl)
    (type : (s.page f).type = .generic) (unmapped : ∀ π w, r.leaf π = some w → w.1 ∉ f :: tl)
    (done : s.freeAllPages f = .ok s') :
    ∃ l', SpaceKept root s' r l' ∧ SameGeometry s s' ∧ ∀ x, SlabPage s x → s.Agree s' x := by
  obtain ⟨count, defCount⟩ : ∃ count, count = (tl.length + 1) % 2 ^ 32 := ⟨_, rfl⟩
  have counted : ((f :: tl).take count).length = (tl.length + 1) % 2 ^ 32 := by
    rw [List.length_take_of_le, defCount]
    rw [List.length_cons]
    omega
  obtain ⟨s₁, l', run, free, -, -, geometry, -, agree⟩ := freeAllPages_spec kept.free set (List.mem_cons_self ..)
    (List.take_append_drop count (f :: tl)).symm counted
  obtain rfl := Except.ok.inj (run.symm.trans done)
  have apart : ∀ q g rest, AllocSet s g rest → q ∈ g :: rest → q ∉ f :: tl → ∀ y ∈ g :: rest, y ∉ f :: tl := by
    intro q g rest other member outside y inOther inSet
    obtain ⟨rfl, rfl⟩ := other.unique set inOther inSet
    exact outside member
  have dirs : ∀ d, r.Owns d → s.Agree s₁ d := fun d owned => agree d (kept.tree.not_free owned kept.free) fun member =>
    Held.not_dir ⟨f, tl, set, member, type⟩ (kept.owned_dir owned) rfl
  refine ⟨l', ?_, geometry, fun x slab => agree x (slab.not_free kept.free) fun member => slab.not_held ⟨f, tl, set, member, type⟩⟩
  refine kept.fewer (kept.tree.frame geometry dirs) kept.rooted kept.full free geometry (fun _ _ found => found) ?_
  rintro π w found ⟨g, rest, other, member, kind⟩
  have same : ∀ y ∈ g :: rest, s.Agree s₁ y := fun y inside =>
    agree y (other.disjoint_free kept.free inside) (apart w.1 g rest other member (unmapped π w found) y inside)
  refine ⟨g, rest, other.frame geometry same, member, ?_⟩
  rw [(same g (List.mem_cons_self ..)).page]
  exact kind

end PageMem

namespace Mm

open PageMem

variable {k k' : Mm} {root m f perm : Nat} {r : Dirs} {l tl : List Nat} {B : Heap.Slabs} {areas : List (Nat × VmArea)}

/-- Whenever the loop of `map_pages` stops, the pages of the set are mapped in the range only. -/
theorem mapLoop_stops {fuel vaddr : Nat} {pre xs : List Nat} {ret : Int} (mapping : k.Mapping root r l m f tl pre xs)
    (own : perm &&& pteGlobal = 0) (limit : pre.length + fuel = intMax + 1)
    (address : vaddr = 16384 * (m + pre.length) % 2 ^ 64) (range : 16384 * (m + pre.length) ≤ 2 ^ 64)
    (counted : pre.length ≤ (tl.length + 1) % 2 ^ 32)
    (done : mapLoop f perm fuel pre.length vaddr (.page (xs.headD f)) k = .ok (ret, k')) :
    ∃ pm r' l', k' = k.setPm pm ∧ SpaceKept root pm r' l' ∧ k.heap.pm.SameGeometry pm ∧
      (∀ x, SlabPage k.heap.pm x → k.heap.pm.Agree pm x) ∧ AllocSet pm f tl ∧ (pm.page f).type = .generic ∧
      ∀ π w, r'.leaf π = some w → w.1 ∈ f :: tl → ∃ j < (tl.length + 1) % 2 ^ 32, path (16384 * (m + j)) = π := by
  -- the pages that are mapped so far
  have mapped : ∀ π w, r.leaf π = some w → w.1 ∈ f :: tl → ∃ j < (tl.length + 1) % 2 ^ 32, path (16384 * (m + j)) = π := by
    intro π w found member
    rw [mapping.split] at member
    have before := (List.mem_append.mp member).resolve_right (mapping.unmapped π w found)
    obtain ⟨j, earlier, same⟩ := mapping.earlier π w found before
    exact ⟨j, by omega, same⟩
  induction fuel generalizing k r l pre xs vaddr with
  | zero => cases done
  | succ fuel ih =>
    rw [mapLoop, mapping.pageCount] at done
    split_ifs at done with more
    · obtain ⟨p, xs, rfl⟩ : ∃ p ys, xs = p :: ys := by
        cases xs with
        | cons p ys => exact ⟨p, ys, rfl⟩
        | nil =>
          have whole := congrArg List.length mapping.split
          rw [List.append_nil, List.length_cons] at whole
          omega
      rw [List.headD_cons] at done
      obtain ⟨⟨ret₁, k₁⟩, step, done⟩ := Res.bind_eq_ok.mp done
      rw [mapping.archMapPage] at step
      obtain ⟨⟨ret₂, pm⟩, run, step⟩ := Res.bind_eq_ok.mp step
      obtain ⟨rfl, rfl⟩ := Prod.mk.inj (Except.ok.inj step)
      have small : vaddr < 2 ^ 64 := by omega
      by_cases nonzero : pgaddrRounddown vaddr = 0
      · have failed : -einval ≠ 0 := by decide
        simp only [PageMem.archMapPage, pgtableInsert, nonzero, if_true, Res.ok_bind, ne_eq, failed, not_false_eq_true] at run
        obtain ⟨rfl, rfl⟩ := Prod.mk.inj (Except.ok.inj run)
        simp only [ne_eq, failed, not_false_eq_true, if_true] at done
        obtain ⟨-, rfl⟩ := Prod.mk.inj (Except.ok.inj done)
        exact ⟨_, r, l, rfl, mapping.space, .refl _, fun x _ => .refl _ x, mapping.set, mapping.type, mapped⟩
      by_cases enough : missing r vaddr ≤ l.length
      · obtain ⟨s₁, r₁, l₁, served, space₁, mapDone⟩ :=
          mapping.space.map_served small nonzero mapping.held mapping.free own enough
        obtain ⟨rfl, rfl⟩ := Prod.mk.inj (Except.ok.inj (served.symm.trans run))
        simp only [ne_eq, not_true, if_false] at done
        have below : 16384 * (m + pre.length) < 2 ^ 64 := by
          by_contra big
          have null : vaddr = 0 := by omega
          rw [null] at nonzero
          exact nonzero (by decide)
        obtain rfl : vaddr = 16384 * (m + pre.length) := by omega
        have short : pre.length < intMax := by
          cases fuel with
          | zero => cases done
          | succ fuel => omega
        have mapping₁ := mapping.step space₁ mapDone short
        have next : (k.setPm s₁).heap.pm.nextPage p = .page (xs.headD f) := mapping₁.nextPage
        have index : pre.length + 1 = (pre ++ [p]).length := by simp
        rw [next, index] at done
        obtain ⟨pm', r', l', rfl, space', geometry, slabs, set, type, leaves⟩ :=
          ih mapping₁ (by rw [← index]; omega)
            (show (16384 * (m + pre.length) + pgsize) % 2 ^ 64 = 16384 * (m + (pre ++ [p]).length) % 2 ^ 64 by
              rw [← index, pgsize]
              rfl)
            (by rw [← index]; omega) (by rw [← index]; exact more) done fun π w found member => by
              rw [mapDone.leaf] at found
              by_cases here : π = path (16384 * (m + pre.length))
              · exact ⟨pre.length, more, here.symm⟩
              · rw [Function.update_of_ne here] at found
                exact mapped π w found member
        refine ⟨pm', r', l', rfl, space', mapDone.geometry.trans geometry, fun x slab => ?_, set, type, leaves⟩
        have agree := mapDone.slabs mapping.space slab
        exact agree.trans mapDone.geometry (slabs x (slab.frame mapDone.geometry agree))
      · obtain ⟨s₁, r₁, l₁, refused, geometry, space₁, leaf, agree⟩ :=
          mapping.space.map_refused (p := p) perm small nonzero (Nat.lt_of_not_le enough)
        obtain ⟨rfl, rfl⟩ := Prod.mk.inj (Except.ok.inj (refused.symm.trans run))
        have failed : -enomem ≠ 0 := by decide
        simp only [ne_eq, failed, not_false_eq_true, if_true] at done
        obtain ⟨-, rfl⟩ := Prod.mk.inj (Except.ok.inj done)
        obtain ⟨set, type⟩ := mapping.space.set_frame mapping.set mapping.type geometry agree
        refine ⟨s₁, r₁, l₁, rfl, space₁, geometry, fun x slab => agree x (mapping.space.slab_apart slab).1
          (mapping.space.slab_apart slab).2, set, type, fun π w found => mapped π w ?_⟩
        rcases leaf with same | ⟨-, cut⟩
        · rw [← same]
          exact found
        · rw [cut] at found
          simp only [Radix.cut] at found
          split at found
          · cases found
          · exact found
    · obtain ⟨-, rfl⟩ := Prod.mk.inj (Except.ok.inj done)
      exact ⟨_, r, l, rfl, mapping.space, .refl _, fun x _ => .refl _ x, mapping.set, mapping.type, mapped⟩

/-- The loop behind `rollback_map` leaves nothing of the range mapped. -/
theorem unmapLoop_clears {fuel vaddr i : Nat} (kept : k.Kept root r l B areas) (set : AllocSet k.heap.pm f tl)
    (type : (k.heap.pm.page f).type = .generic) (address : vaddr = 16384 * (m + i) % 2 ^ 64)
    (done : unmapLoop f fuel i vaddr k = .ok k') :
    ∃ pm c r' l', k' = { k.setPm pm with cpu := c } ∧ k'.Kept root r' l' B areas ∧ AllocSet pm f tl ∧
      (pm.page f).type = .generic ∧ (∀ π w, r'.leaf π = some w → r.leaf π = some w) ∧
      ∀ j, i ≤ j → j < (tl.length + 1) % 2 ^ 32 → r'.leaf (path (16384 * (m + j))) = none := by
  induction fuel generalizing k r l vaddr i with
  | zero => cases done
  | succ fuel ih =>
    have counted : k.heap.pm.pageCount f = (tl.length + 1) % 2 ^ 32 := set.pageCount_eq (List.mem_cons_self ..)
    rw [unmapLoop, counted] at done
    split_ifs at done with more
    · obtain ⟨s₁, r₁, l₁, clear, moves, space, leaf, -⟩ := kept.space.remove vaddr
      have geometry := moves.geometry
      obtain ⟨set₁, type₁⟩ := kept.space.set_frame set type geometry moves.agree
      rw [← kept.pgd] at clear
      have unmap : k.archUnmapPage vaddr =
          .ok ((r.leaf (path vaddr)).map Prod.fst, { k.setPm s₁ with cpu := k.cpu.tlbRemove vaddr }) := by
        simp only [archUnmapPage, kept.pgd_ne_zero, if_false, PageMem.archUnmapPage, pgtableRemove, clear, Res.ok_bind]
      have kept₁ := (kept.setPm space geometry fun x slab =>
        moves.agree x (kept.space.slab_apart slab).1 (kept.space.slab_apart slab).2).setCpu (k.cpu.tlbRemove vaddr)
      simp only [unmap, Res.ok_bind] at done
      obtain ⟨pm, c, r', l', rfl, kept', set', type', fewer, cleared⟩ :=
        ih kept₁ set₁ type₁ (show (vaddr + pgsize) % 2 ^ 64 = 16384 * (m + (i + 1)) % 2 ^ 64 by rw [pgsize]; omega) done
      have old : ∀ π w, r₁.leaf π = some w → r.leaf π = some w ∧ π ≠ path vaddr := by
        intro π w found
        rw [leaf] at found
        by_cases here : π = path vaddr
        · rw [here, Function.update_self] at found
          cases found
        · rw [Function.update_of_ne here] at found
          exact ⟨found, here⟩
      refine ⟨pm, c, r', l', rfl, kept', set', type', fun π w found => (old π w (fewer π w found)).1, fun j lower upper => ?_⟩
      by_cases first : j = i
      · by_contra still
        obtain ⟨w, found⟩ := Option.ne_none_iff_exists'.mp still
        refine (old _ w (fewer _ w found)).2 ?_
        rw [address, path_word, first]
      · exact cleared j (by omega) upper
    · obtain rfl := Except.ok.inj done
      exact ⟨k.heap.pm, k.cpu, r, l, rfl, kept, set, type, fun _ _ found => found, fun j lower upper => by omega⟩

end Mm

end Xv6
