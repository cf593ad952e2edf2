import Xv6.Lib.Radix
import Xv6.PageDirSpec

namespace Xv6.PageMem

/-- The tree of a page table: directories in pages, leaves that name the page
that is mapped and its permissions. -/
abbrev Dirs := Radix Nat (Nat × Nat) 2048 2

/-- The word of a mapped page. -/
def leafWord (s : PageMem) (w : Nat × Nat) : Nat := s.pgdirEntry w.1 (pteFlags w.2)

theorem pteFlags_odd (perm : Nat) : (pteFlags perm &&& pteLowmask) % 2 = 1 := by
  rw [← Nat.and_one_is_mod]
  apply Nat.eq_of_testBit_eq
  intro i
  cases i with
  | zero => simp [pteFlags, pteLowmask, pteCacheMask, pteCacheable, ptePhys]
  | succ i => simp [Nat.testBit_succ]

theorem pteFlags_lt (perm : Nat) : pteFlags perm &&& pteLowmask < 4096 := by
  exact Nat.lt_of_le_of_lt Nat.and_le_right (by decide)

theorem leafWord_eq (s : PageMem) (w : Nat × Nat) :
    s.leafWord w = (w.1 + s.highmemBasePfn) * 16384 + (pteFlags w.2 &&& pteLowmask) := by
  have phys : pteFlags w.2 &&& ptePhys ≠ 0 := by
    have odd := pteFlags_odd w.2
    have low : (pteFlags w.2 &&& pteLowmask) &&& 1 = pteFlags w.2 &&& 1 := by
      rw [Nat.and_assoc]
      rfl
    rw [← Nat.and_one_is_mod, low] at odd
    rw [ptePhys, odd]
    decide
  have bound := pteFlags_lt w.2
  rw [leafWord, pgdirEntry, if_neg phys, pageToPaddr, pageToPfn, pgshift,
    ← Nat.shiftLeft_add_eq_or_of_lt (by omega : _ < 2 ^ 14), Nat.shiftLeft_eq]

theorem leafWord_odd (s : PageMem) (w : Nat × Nat) : s.leafWord w % 2 = 1 := by
  have odd := pteFlags_odd w.2
  rw [leafWord_eq]
  omega

theorem leafWord_pos (s : PageMem) (w : Nat × Nat) : s.leafWord w ≠ 0 := by
  have odd := s.leafWord_odd w
  omega

/-- The frame number in a word is that of the page. -/
theorem leafWord_pfn (s : PageMem) (w : Nat × Nat) : s.leafWord w >>> pgshift = s.pageToPfn w.1 := by
  have bound := pteFlags_lt w.2
  rw [leafWord_eq, pgshift, pageToPfn, Nat.shiftRight_eq_div_pow]
  omega

/-- Setting the low bits and flipping them clears them. -/
theorem or_xor_mask (x k : Nat) : (x ||| (2 ^ k - 1)) ^^^ (2 ^ k - 1) = x / 2 ^ k * 2 ^ k := by
  rw [← Nat.shiftRight_eq_div_pow, ← Nat.shiftLeft_eq]
  apply Nat.eq_of_testBit_eq
  intro i
  simp only [Nat.testBit_xor, Nat.testBit_or, Nat.testBit_two_pow_sub_one, Nat.testBit_shiftLeft,
    Nat.testBit_shiftRight]
  by_cases low : i < k
  · simp [low, Nat.not_le.mpr low]
  · have high : k ≤ i := Nat.le_of_not_lt low
    have back : k + (i - k) = i := by omega
    simp [low, high, back]

theorem entryAddr_leafWord (s : PageMem) (w : Nat × Nat) : entryAddr (s.leafWord w) = s.pageToKvaddr w.1 := by
  have odd := s.leafWord_odd w
  have bound := pteFlags_lt w.2
  have phys : s.leafWord w &&& ptePhys ≠ 0 := by
    rw [ptePhys, Nat.and_one_is_mod, odd]
    decide
  have cleared : (s.leafWord w ||| pteLowmask) ^^^ pteLowmask = s.leafWord w / 2 ^ 12 * 2 ^ 12 :=
    or_xor_mask (s.leafWord w) 12
  have address : s.leafWord w / 2 ^ 12 * 2 ^ 12 = s.pageToPaddr w.1 := by
    rw [leafWord_eq, pageToPaddr, pageToPfn, pgshift, Nat.shiftLeft_eq]
    omega
  rw [entryAddr, if_neg phys, cleared, address, pageToKvaddr]

theorem leafWord_frame {s s' : PageMem} (geometry : SameGeometry s s') : s'.leafWord = s.leafWord := by
  funext w
  rw [leafWord_eq, leafWord_eq, geometry.base]

theorem leafWord_lt {s : PageMem} (phys : PhysBound s) {w : Nat × Nat} (bound : w.1 < s.nrPages) :
    s.leafWord w < 2 ^ 64 := by
  have flags := pteFlags_lt w.2
  rw [PhysBound] at phys
  rw [leafWord_eq]
  omega

/-- The directories in memory form the tree `r`: each is in use, and its words
are those the tree has for their paths. -/
structure Tree (s : PageMem) (r : Dirs) : Prop where
  dirs : ∀ π d, r.dir π = some d → IsDir s d
  words : ∀ π d i, r.dir π = some d → i < 2048 →
    s.slot d i = r.word s.pageToKvaddr s.leafWord (i :: π)
  pages : ∀ π w, r.leaf π = some w → w.1 < s.nrPages

theorem kvaddr_frame {s s' : PageMem} (geometry : SameGeometry s s') : s'.pageToKvaddr = s.pageToKvaddr :=
  funext geometry.kvaddr

namespace Tree

variable {s s' : PageMem} {r : Dirs}

theorem frame (tree : Tree s r) (geometry : SameGeometry s s') (agree : ∀ d, r.Owns d → s.Agree s' d) :
    Tree s' r := by
  refine ⟨?_, ?_, ?_⟩
  · intro π d found
    exact (tree.dirs π d found).frame geometry (agree d ⟨π, found⟩)
  · intro π d i found bound
    rw [(agree d ⟨π, found⟩).slot geometry bound, tree.words π d i found bound, kvaddr_frame geometry,
      leafWord_frame geometry]
  · intro π w found
    rw [geometry.pages]
    exact tree.pages π w found

theorem slot_eq_zero (tree : Tree s r) {π : List Nat} {d i : Nat} (found : r.dir π = some d) (bound : i < 2048) :
    s.slot d i = 0 ↔ ¬ r.Taken (i :: π) := by
  rw [tree.words π d i found bound]
  exact Radix.word_eq_zero (kvaddr_pos s) (leafWord_pos s)

/-- A directory counts no entry exactly when nothing hangs below it. -/
theorem used_zero (tree : Tree s r) {π : List Nat} {d : Nat} (found : r.dir π = some d) :
    s.used d = 0 ↔ ∀ j, ¬ r.Taken (j :: π) := by
  rw [used_eq_zero]
  constructor
  · intro zero j taken
    have bound := Radix.taken_fan taken
    exact (tree.slot_eq_zero found bound).mp (zero j bound) taken
  · intro none j bound
    exact (tree.slot_eq_zero found bound).mpr (none j)

theorem not_free (tree : Tree s r) {l : List Nat} {d : Nat} (owned : r.Owns d) (free : FreeList s l) : d ∉ l := by
  obtain ⟨π, found⟩ := owned
  exact (tree.dirs π d found).not_free free

/-- A directory is made below `e`, from the lowest free page. -/
theorem addDir (tree : Tree s r) {π rest : List Nat} {e i x : Nat} (found : r.dir π = some e) (bound : i < 2048)
    (shallow : π.length < 2) (vacant : r.dir (i :: π) = none) (free : FreeList s (x :: rest))
    (phys : PhysBound s) (parent : r.dir π ≠ none) (fresh : ∀ ρ, r.dir ρ ≠ some x) :
    ∃ s', s.pgdirAddPgdir e i = .ok (s.pageToKvaddr x, s') ∧
      Tree s' (r.addDir i π x bound parent shallow fresh) ∧ FreeList s' rest ∧ SameGeometry s s' ∧
      ∀ p, p ∉ x :: rest → ¬ r.Owns p → s.Agree s' p := by
  have dir := tree.dirs π e found
  have untaken : ¬ r.Taken (i :: π) := by
    rintro (present | leaf)
    · exact present vacant
    · exact leaf (Radix.leaf_shallow (by rw [List.length_cons]; omega))
  obtain ⟨s', run, free', dir', new, slots, zero, geometry, agree⟩ :=
    pgdirAddPgdir_spec dir bound ((tree.slot_eq_zero found bound).mpr untaken) free phys
  have kept : ∀ ρ d, r.dir ρ = some d → ρ ≠ π → s.Agree s' d := by
    intro ρ d known other
    refine agree d ((tree.dirs ρ d known).not_free free) ?_
    rintro rfl
    exact other (r.distinct ρ π d known found)
  have word : ∀ σ, σ ≠ i :: π → (r.addDir i π x bound parent shallow fresh).word s'.pageToKvaddr s'.leafWord σ =
      r.word s.pageToKvaddr s.leafWord σ := by
    intro σ other
    rw [kvaddr_frame geometry, leafWord_frame geometry]
    simp only [Radix.word, Radix.addDir, Function.update_of_ne other]
  refine ⟨s', run, ⟨?_, ?_, ?_⟩, free', geometry, fun p outFree outTree => agree p outFree ?_⟩
  · intro ρ d known
    by_cases here : ρ = i :: π
    · have same : x = d := by simpa [Radix.addDir, here] using known
      exact same ▸ new
    · simp only [Radix.addDir, Function.update_of_ne here] at known
      by_cases above : ρ = π
      · rw [above, found] at known
        exact Option.some.inj known ▸ dir'
      · exact (tree.dirs ρ d known).frame geometry (kept ρ d known above)
  · intro ρ d j known small
    by_cases here : ρ = i :: π
    · have same : x = d := by simpa [Radix.addDir, here] using known
      rw [← same, zero j small, here, word (j :: i :: π) (by simp)]
      exact ((Radix.word_eq_zero (kvaddr_pos s) (leafWord_pos s)).mpr (Radix.not_taken vacant j)).symm
    · simp only [Radix.addDir, Function.update_of_ne here] at known
      by_cases above : ρ = π
      · rw [above, found] at known
        rw [← Option.some.inj known, slots j small, above]
        by_cases same : j = i
        · rw [if_pos same, same, Radix.word_dir (by rw [List.length_cons]; omega)]
          simp [Radix.addDir, geometry.kvaddr]
        · rw [if_neg same, word (j :: π) (by simp [same]), tree.words π e j found small]
      · rw [(kept ρ d known above).slot geometry small, tree.words ρ d j known small, word (j :: ρ)]
        exact fun same => above (List.cons.inj same).2
  · intro ρ w known
    rw [geometry.pages]
    exact tree.pages ρ w known
  · rintro rfl
    exact outTree ⟨π, found⟩

/-- The words of a tree after a cut. -/
theorem word_cut (r : Dirs) (i : Nat) (π σ : List Nat) (address : Nat → Nat) (value : Nat × Nat → Nat) :
    (r.cut i π).word address value σ = if i :: π <:+ σ then 0 else r.word address value σ := by
  by_cases below : i :: π <:+ σ <;> simp [Radix.word, Radix.cut, below]

/-- An entry of `e` is cleared. The directory it led to is freed when it is empty;
otherwise its subtree is lost. -/
theorem cut (tree : Tree s r) {π l : List Nat} {e c i : Nat} (found : r.dir π = some e)
    (child : r.dir (i :: π) = some c) (free : FreeList s l) (small : s.nrPages < 2 ^ 64) :
    ∃ s' l', s.pgdirRemovePgdir e i = .ok s' ∧ Tree s' (r.cut i π) ∧ FreeList s' l' ∧
      l'.Perm (if s.used c = 0 then c :: l else l) ∧ SameGeometry s s' ∧
      ∀ p, p ∉ l → p ≠ e → (p = c → s.used c ≠ 0) → s.Agree s' p := by
  have bound : i < 2048 := (r.closed i π c child).1
  have shallow : (i :: π).length ≤ 2 := r.short _ c child
  have different : c ≠ e := by
    rintro rfl
    have same := r.distinct _ _ c child found
    exact absurd (congrArg List.length same) (by simp)
  have word : s.slot e i = s.pageToKvaddr c := by
    rw [tree.words π e i found bound, Radix.word_dir shallow, child, Option.elim_some]
  obtain ⟨s', l', run, free', perm, dir', slots, geometry, agree⟩ :=
    pgdirRemovePgdir_spec (tree.dirs π e found) bound (tree.dirs _ c child) different word free small
  have kept : ∀ ρ d, r.dir ρ = some d → ¬ i :: π <:+ ρ → ρ ≠ π → s.Agree s' d := by
    intro ρ d known outside other
    refine agree d ((tree.dirs ρ d known).not_free free) ?_ ?_
    · rintro rfl
      exact other (r.distinct ρ π d known found)
    · rintro rfl
      have same := r.distinct ρ _ d known child
      exact absurd (same ▸ List.suffix_refl _) outside
  refine ⟨s', l', run, ⟨?_, ?_, ?_⟩, free', perm, geometry, agree⟩
  · intro ρ d known
    simp only [Radix.cut] at known
    split at known
    · cases known
    · rename_i outside
      by_cases above : ρ = π
      · rw [above, found] at known
        exact Option.some.inj known ▸ dir'
      · exact (tree.dirs ρ d known).frame geometry (kept ρ d known outside above)
  · intro ρ d j known below
    simp only [Radix.cut] at known
    split at known
    · cases known
    · rename_i outside
      have onlyHere : i :: π <:+ j :: ρ ↔ j :: ρ = i :: π := by
        rw [List.suffix_cons_iff]
        exact ⟨fun both => (both.resolve_right outside).symm, fun same => .inl same.symm⟩
      rw [word_cut, kvaddr_frame geometry, leafWord_frame geometry]
      by_cases above : ρ = π
      · rw [above, found] at known
        rw [← Option.some.inj known, slots j below, above]
        by_cases same : j = i
        · rw [if_pos same, same, if_pos (List.suffix_refl _)]
        · have apart : ¬ i :: π <:+ j :: ρ := fun here => same (List.cons.inj (onlyHere.mp here)).1
          rw [above] at apart
          rw [if_neg same, if_neg apart, tree.words π e j found below]
      · have apart : ¬ i :: π <:+ j :: ρ := fun here => above (List.cons.inj (onlyHere.mp here)).2
        rw [if_neg apart, (kept ρ d known outside above).slot geometry below, tree.words ρ d j known below]
  · intro ρ w known
    simp only [Radix.cut] at known
    split at known
    · cases known
    · rw [geometry.pages]
      exact tree.pages ρ w known

/-- A leaf word is written: `w` is the new leaf, or none. -/
theorem writeLeaf (tree : Tree s r) {π : List Nat} {e i n : Nat} {w : Option (Nat × Nat)} (found : r.dir π = some e)
    (bound : i < 2048) (deep : π.length = 2) (parent : r.dir π ≠ none) (dir' : IsDir s' e)
    (wrote : Wrote s s' e i (w.elim 0 s.leafWord) n) (page : ∀ v, w = some v → v.1 < s.nrPages) :
    Tree s' (r.setLeaf i π w bound deep parent) := by
  have geometry := wrote.lists.geometry
  have word : ∀ σ, (r.setLeaf i π w bound deep parent).word s'.pageToKvaddr s'.leafWord σ =
      if σ = i :: π then w.elim 0 s.leafWord else r.word s.pageToKvaddr s.leafWord σ := by
    intro σ
    rw [kvaddr_frame geometry, leafWord_frame geometry]
    by_cases here : σ = i :: π
    · simp [Radix.word, Radix.setLeaf, here, deep]
    · simp [Radix.word, Radix.setLeaf, here]
  refine ⟨?_, ?_, ?_⟩
  · intro ρ d known
    by_cases above : d = e
    · exact above ▸ dir'
    · exact (tree.dirs ρ d known).frame geometry (wrote.agree d above)
  · intro ρ d j known below
    rw [word]
    by_cases above : d = e
    · subst above
      have same := r.distinct ρ π d known found
      subst same
      rw [wrote.slot]
      by_cases here : j = i
      · simp [here]
      · rw [if_neg here, if_neg (by simp [here]), tree.words ρ d j known below]
    · have apart : ρ ≠ π := by
        rintro rfl
        exact above (Option.some.inj (known.symm.trans found))
      rw [(wrote.agree d above).slot geometry below, if_neg (fun same => apart (List.cons.inj same).2),
        tree.words ρ d j known below]
  · intro ρ v known
    rw [geometry.pages]
    by_cases here : ρ = i :: π
    · simp only [Radix.setLeaf, here, Function.update_self] at known
      exact page v known
    · simp only [Radix.setLeaf, Function.update_of_ne here] at known
      exact tree.pages ρ v known

end Tree

end Xv6.PageMem
