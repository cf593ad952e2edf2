import Xv6.Space
import Xv6.TlbSpec

namespace Xv6

/-- The 34 bits of a frame number in an EntryLo value. -/
def entryLoPfn (lo : Nat) : Nat := lo / 2 ^ 8 % 2 ^ 34

theorem entryLo_zero : entryLo 0 = 0 := by decide

theorem entryLo_eq (pte : Nat) : entryLo pte = pte / 64 + pte / 2 % 32 * 2 ^ 59 := by
  have cleared : (pte ||| ptePhys) ^^^ ptePhys = pte / 2 * 2 := PageMem.or_xor_mask pte 1
  rw [entryLo, rotateRight, cleared, pteSoftShift]
  omega

namespace PageMem

theorem entryLo_leafWord (s : PageMem) (phys : PhysBound s) {w : Nat × Nat} (inside : w.1 < s.nrPages) :
    entryLoPfn (entryLo (s.leafWord w)) = s.pageToPfn w.1 := by
  have flags := pteFlags_lt w.2
  rw [PhysBound] at phys
  rw [entryLoPfn, entryLo_eq, leafWord_eq, pageToPfn]
  generalize frame : w.1 + s.highmemBasePfn = k
  generalize pteFlags w.2 &&& pteLowmask = low at flags ⊢
  have high : (k * 16384 + low) / 64 / 2 ^ 8 = k := by omega
  rw [show (2 : Nat) ^ 59 = 2 ^ 51 * 2 ^ 8 from rfl, ← Nat.mul_assoc, Nat.add_mul_div_right _ _ (by decide), high]
  omega

theorem entryLo_own (s : PageMem) {w : Nat × Nat} (own : w.2 &&& pteGlobal = 0) :
    entryLo (s.leafWord w) % 2 = 0 := by
  have flags := pteFlags_lt w.2
  have bit : (pteFlags w.2 &&& pteLowmask).testBit 6 = false := by
    have global : (w.2 &&& pteGlobal).testBit 6 = false := by simp [own]
    have mask : pteGlobal.testBit 6 = true := by decide
    have cache : (pteCacheable ||| ptePhys).testBit 6 = false := by decide
    rw [Nat.testBit_and, mask, Bool.and_true] at global
    rw [pteFlags, Nat.testBit_and, Nat.testBit_or, Nat.testBit_and, global, cache]
    rfl
  rw [Nat.testBit_eq_decide_div_mod_eq, decide_eq_false_iff_not] at bit
  rw [entryLo_eq, leafWord_eq]
  omega

/-- The index of the even page of a pair. -/
theorem and_even (x : Nat) : x &&& (pdeMask - 1) = x / 2 % 1024 * 2 := by
  have half : (x &&& (pdeMask - 1)) / 2 = x / 2 % 1024 := by
    rw [Nat.and_div_two]
    exact Nat.and_two_pow_sub_one_eq_mod (x / 2) 10
  have even : (x &&& (pdeMask - 1)) % 2 = 0 := by
    have parts : (x &&& (pdeMask - 1)) % 2 ^ 1 = x % 2 ^ 1 &&& (pdeMask - 1) % 2 ^ 1 := Nat.and_mod_two_pow
    rw [show (pdeMask - 1) % 2 ^ 1 = 0 from rfl, Nat.and_zero] at parts
    exact parts
  omega

theorem tableEntry_path {s : PageMem} {r : Dirs} {root t : Nat} (tree : Tree s r) (rooted : r.dir [] = some root)
    {v w : Nat} (same : path w = [t, pmx v, pgx v]) :
    s.tableEntry (s.pageToKvaddr root) w =
      (r.dir [pmx v, pgx v]).elim 0 (fun d => s.pdeGetEntry (s.pageToKvaddr d) t) := by
  rw [tableEntry_spec tree rooted, same]
  have bound : t < 2048 := by
    have index : ptx w = t := (List.cons.inj same).1
    rw [← index]
    exact ptx_lt w
  cases inner : r.dir [pmx v, pgx v] with
  | none =>
    have absent : r.leaf [t, pmx v, pgx v] = none := by
      by_contra present
      exact Radix.not_taken inner t (.inr present)
    rw [absent, Option.elim_none, Option.elim_none]
  | some d => exact (tree.leafEntry inner bound rfl).symm

/-- The refill handler shifts first and masks then. -/
theorem shift_pgx (v : Nat) : v >>> pgdOffset &&& pdeMask = pgx v := by
  rw [pgx_eq, pgdOffset, Nat.shiftRight_eq_div_pow]
  exact Nat.and_two_pow_sub_one_eq_mod _ 11

theorem shift_pmx (v : Nat) : v >>> pmdOffset &&& pdeMask = pmx v := by
  rw [pmx_eq, pmdOffset, Nat.shiftRight_eq_div_pow]
  exact Nat.and_two_pow_sub_one_eq_mod _ 11

/-- The path of a page of the pair that `v` is in. -/
theorem pair_path {v w : Nat} (same : Cpu.vpn2Of w = Cpu.vpn2Of v) :
    path w = [if Cpu.oddPage w then (v >>> pteOffset &&& (pdeMask - 1)) + 1 else v >>> pteOffset &&& (pdeMask - 1),
      pmx v, pgx v] := by
  rw [Cpu.vpn2Of_eq, Cpu.vpn2Of_eq] at same
  rw [Cpu.oddPage_eq, and_even, pteOffset, pgshift, Nat.shiftRight_eq_div_pow]
  simp only [path, ptx_eq, pmx_eq, pgx_eq, List.cons.injEq, and_true, decide_eq_true_eq]
  refine ⟨?_, by omega, by omega⟩
  split <;> omega

/-- The refill handler writes what the table has for the pair of pages, unless it
has nothing for both. -/
theorem xtlbRefill_spec {s : PageMem} {r : Dirs} {root : Nat} (tree : Tree s r) (rooted : r.dir [] = some root)
    {onlineHpt : Nat → Nat} {c : Cpu} (registered : onlineHpt c.asid = s.pageToKvaddr root) (v random : Nat) :
    ∃ k1 k0, (∀ w, Cpu.vpn2Of w = Cpu.vpn2Of v →
        s.tableEntry (s.pageToKvaddr root) w = if Cpu.oddPage w then k0 else k1) ∧
      s.xtlbRefill onlineHpt c v random =
        if k1 = 0 ∧ k0 = 0 then c else { c with entryLo0 := entryLo k1, entryLo1 := entryLo k0 }.tlbwr random := by
  refine ⟨(r.dir [pmx v, pgx v]).elim 0 (fun d => s.pdeGetEntry (s.pageToKvaddr d) (v >>> pteOffset &&& (pdeMask - 1))),
    (r.dir [pmx v, pgx v]).elim 0 (fun d => s.pdeGetEntry (s.pageToKvaddr d) ((v >>> pteOffset &&& (pdeMask - 1)) + 1)),
    ?_, ?_⟩
  · intro w same
    rw [tableEntry_path tree rooted (pair_path same)]
    split <;> rfl
  · have above := tree.dirEntry rooted (pgx_lt v) (by decide)
    simp only [xtlbRefill, registered, kvaddr_pos, if_false, shift_pgx, shift_pmx, above]
    cases outer : r.dir [pgx v] with
    | none =>
      have lower : r.dir [pmx v, pgx v] = none := by
        by_contra present
        exact Radix.not_taken outer (pmx v) (.inl present)
      simp [lower]
    | some d =>
      have below := tree.dirEntry outer (pmx_lt v) (by simp)
      simp only [Option.elim_some, kvaddr_pos, if_false, below]
      cases r.dir [pmx v, pgx v] with
      | none => simp
      | some e =>
        simp only [Option.elim_some, kvaddr_pos, if_false]
        exact if_congr Iff.rfl rfl rfl

/-- The EntryLo value the table has for an address. -/
def tableLo (s : PageMem) (root v : Nat) : Nat := entryLo (s.tableEntry (s.pageToKvaddr root) v)

/-- The table at `pgd` maps the page somewhere. -/
def Mapped (s : PageMem) (pgd p : Nat) : Prop :=
  ∃ v, v < 2 ^ 47 ∧ s.tableEntry pgd v ≠ 0 ∧ s.tableEntry pgd v >>> pgshift = s.pageToPfn p

namespace SpaceKept

variable {root : Nat} {s s' : PageMem} {r r' : Dirs} {l l' : List Nat}

theorem tableLo_eq (kept : SpaceKept root s r l) (v : Nat) :
    s.tableLo root v = entryLo ((r.leaf (path v)).elim 0 s.leafWord) := by
  rw [tableLo, tableEntry_spec kept.tree kept.rooted]

theorem tableLo_same (kept : SpaceKept root s r l) (kept' : SpaceKept root s' r' l') (geometry : SameGeometry s s')
    {v : Nat} (leaf : r'.leaf (path v) = r.leaf (path v)) : s'.tableLo root v = s.tableLo root v := by
  rw [kept'.tableLo_eq, kept.tableLo_eq, leaf, leafWord_frame geometry]

theorem tableLo_own (kept : SpaceKept root s r l) (v : Nat) : s.tableLo root v % 2 = 0 := by
  rw [kept.tableLo_eq]
  cases found : r.leaf (path v) with
  | none => simp [entryLo_zero]
  | some w => exact s.entryLo_own (kept.own _ w found)

theorem mapped_iff (kept : SpaceKept root s r l) {p : Nat} :
    s.Mapped (s.pageToKvaddr root) p ↔ ∃ π w, r.leaf π = some w ∧ w.1 = p := by
  constructor
  · rintro ⟨v, -, present, pfn⟩
    obtain ⟨w, found⟩ := (tableEntry_ne_zero kept.tree kept.rooted).mp present
    rw [tableEntry_spec kept.tree kept.rooted, found, Option.elim_some, leafWord_pfn, pageToPfn, pageToPfn] at pfn
    exact ⟨path v, w, found, by omega⟩
  · rintro ⟨π, w, found, rfl⟩
    obtain ⟨v, small, rfl⟩ := leaf_path (Option.ne_none_iff_exists'.mpr ⟨w, found⟩)
    refine ⟨v, small, (tableEntry_ne_zero kept.tree kept.rooted).mpr ⟨w, found⟩, ?_⟩
    rw [tableEntry_spec kept.tree kept.rooted, found, Option.elim_some]
    exact leafWord_pfn s w

theorem not_mapped (kept : SpaceKept root s r l) {p : Nat} (unmapped : ¬ s.Mapped (s.pageToKvaddr root) p) :
    ∀ π w, r.leaf π = some w → w.1 ≠ p :=
  fun π w found same => unmapped (kept.mapped_iff.mpr ⟨π, w, found, same⟩)

/-- What the table maps is not free. -/
theorem pfn_not_free (kept : SpaceKept root s r l) {v p : Nat} (present : s.tableEntry (s.pageToKvaddr root) v ≠ 0)
    (member : p ∈ l) : entryLoPfn (s.tableLo root v) ≠ s.pageToPfn p := by
  obtain ⟨w, found⟩ := (tableEntry_ne_zero kept.tree kept.rooted).mp present
  rw [kept.tableLo_eq, found, Option.elim_some, entryLo_leafWord s kept.phys (kept.tree.pages _ w found)]
  intro same
  have page : w.1 = p := by
    simp only [pageToPfn] at same
    omega
  exact (kept.held _ w found).not_free kept.free (page ▸ member)

end SpaceKept

end PageMem

/-- What happens to the address space whose directory is `root`: user code goes
on, misses the TLB, or the kernel changes a mapping or takes a page back. -/
inductive SpaceOp
  | resume (entryHi : Nat)
  | refill (badvaddr random : Nat)
  | map (vaddr page perm : Nat)
  | unmap (vaddr : Nat)
  | release (page : Nat)

namespace PageMem

def spaceExec (s : PageMem) (onlineHpt : Nat → Nat) (c : Cpu) (root : Nat) : SpaceOp → Res (PageMem × Cpu)
  | .resume entryHi => .ok (s, { c with entryHi := entryHi })
  | .refill badvaddr random => .ok (s, s.xtlbRefill onlineHpt (c.tlbMiss badvaddr) badvaddr random)
  | .map vaddr page perm => do
    let (_, s) ← s.archMapPage (s.pageToKvaddr root) vaddr page perm
    .ok (s, c)
  | .unmap vaddr => do
    let (_, s, c) ← s.archUnmapPage c (s.pageToKvaddr root) vaddr
    .ok (s, c)
  | .release page => do
    let s ← s.pgfree (some page)
    .ok (s, c)

/-- User code runs under the ASID of the space and misses where no entry matches.
Pages are mapped and taken back by those who hold them and have not mapped them;
`page_perm` makes no page global. -/
def SpaceAllowed (s : PageMem) (c : Cpu) (root : Nat) (a : Fin 256) : SpaceOp → Prop
  | .resume entryHi => entryHi % 256 = a
  | .refill badvaddr _ => c.asid = a ∧ ∀ i, i < c.tlbsize → ¬ Cpu.Matches (c.tlb i) (Cpu.vpn2Of badvaddr) a
  | .map _ page perm => s.Held page ∧ ¬ s.Mapped (s.pageToKvaddr root) page ∧ perm &&& pteGlobal = 0
  | .unmap _ => True
  | .release page => s.Held page ∧ ¬ s.Mapped (s.pageToKvaddr root) page

/-- The steps that leave no stale half behind: addresses stay in the range of the
table, nothing that is cached is replaced or lost with its directory, and
`tlb_remove` runs under the ASID of the space or for a page that is not cached. -/
def Harmless (root : Nat) (a : Fin 256) (s : PageMem) (c : Cpu) : SpaceOp → Prop
  | .resume _ => True
  | .refill badvaddr _ => badvaddr < 2 ^ 47
  | .map vaddr _ _ => vaddr < 2 ^ 47 ∧ ¬ c.Cached a vaddr ∧
      (s.Short (s.pageToKvaddr root) vaddr → ∀ w, w < 2 ^ 47 → pgx w = pgx vaddr → ¬ c.Cached a w)
  | .unmap vaddr => vaddr < 2 ^ 47 ∧ (c.asid = a ∨ ¬ c.Cached a vaddr)
  | .release _ => True

/-- The memory and the TLB of the space fit together. -/
structure SpaceIn (onlineHpt : Nat → Nat) (root : Nat) (a : Fin 256) (s : PageMem) (c : Cpu) (r : Dirs)
    (l : List Nat) : Prop where
  memory : SpaceKept root s r l
  coherent : c.Coherent a (s.tableLo root)
  registered : onlineHpt a = s.pageToKvaddr root

namespace SpaceIn

variable {onlineHpt : Nat → Nat} {root : Nat} {a : Fin 256} {s : PageMem} {c : Cpu} {r : Dirs} {l : List Nat}

theorem refill (space : SpaceIn onlineHpt root a s c r l) {v : Nat} (random : Nat) (asid : c.asid = a)
    (miss : ∀ i, i < c.tlbsize → ¬ Cpu.Matches (c.tlb i) (Cpu.vpn2Of v) a) :
    (s.xtlbRefill onlineHpt (c.tlbMiss v) v random).Coherent a (s.tableLo root) := by
  have missAsid : (c.tlbMiss v).asid = c.asid := Cpu.asid_of rfl
  have pair : Cpu.vpn2Of (c.tlbMiss v).entryHi = Cpu.vpn2Of v := Cpu.vpn2Of_or _ _
  obtain ⟨k1, k0, words, run⟩ := xtlbRefill_spec space.memory.tree space.memory.rooted (c := c.tlbMiss v)
    (by rw [missAsid, asid]; exact space.registered) v random
  rw [run]
  split
  · exact space.coherent.registers rfl rfl
  · have value : ∀ w, Cpu.vpn2Of w = Cpu.vpn2Of v →
        s.tableLo root w = if Cpu.oddPage w then entryLo k0 else entryLo k1 := by
      intro w same
      rw [tableLo, words w same, apply_ite entryLo]
    have even : entryLo k1 % 2 = 0 := by
      have page : Cpu.vpn2Of (v / 32768 * 32768) = Cpu.vpn2Of v ∧ Cpu.oddPage (v / 32768 * 32768) = false := by
        rw [Cpu.vpn2Of_eq, Cpu.vpn2Of_eq, Cpu.oddPage_eq, decide_eq_false_iff_not]
        omega
      have own := space.memory.tableLo_own (v / 32768 * 32768)
      rwa [value _ page.1, page.2, if_neg Bool.false_ne_true] at own
    have odd : entryLo k0 % 2 = 0 := by
      have page : Cpu.vpn2Of (v / 32768 * 32768 + 16384) = Cpu.vpn2Of v ∧
          Cpu.oddPage (v / 32768 * 32768 + 16384) = true := by
        rw [Cpu.vpn2Of_eq, Cpu.vpn2Of_eq, Cpu.oddPage_eq, decide_eq_true_eq]
        omega
      have own := space.memory.tableLo_own (v / 32768 * 32768 + 16384)
      rwa [value _ page.1, page.2, if_pos rfl] at own
    exact space.coherent.refill _ miss rfl rfl pair rfl rfl even odd (fun w _ same => value w same)

theorem map (space : SpaceIn onlineHpt root a s c r l) {v p perm : Nat}
    (allowed : SpaceAllowed s c root a (.map v p perm)) (harmless : Harmless root a s c (.map v p perm)) :
    ∃ retcode s' r' l', s.archMapPage (s.pageToKvaddr root) v p perm = .ok (retcode, s') ∧
      SpaceIn onlineHpt root a s' c r' l' := by
  obtain ⟨held, unmapped, own⟩ := allowed
  obtain ⟨small, fresh, short⟩ := harmless
  obtain ⟨retcode, s', r', l', run, geometry, kept', leaf⟩ :=
    space.memory.map (by omega : v < 2 ^ 64) held (space.memory.not_mapped unmapped) own
  refine ⟨retcode, s', r', l', run, kept', ?_, ?_⟩
  · refine space.coherent.change (fun w wSmall cached => space.memory.tableLo_same kept' geometry ?_)
    rcases leaf with mapped | same | ⟨noPage, lost⟩
    · have apart : path w ≠ path v := by
        intro here
        obtain ⟨pair, side⟩ := Cpu.half_eq_iff.mpr ((path_inj wSmall small).mp here)
        rw [Cpu.Cached, pair, side] at cached
        exact fresh cached
      rw [mapped, Function.update_of_ne apart]
    · rw [same]
    · have other : ¬ [pgx v] <:+ path w := by
        rintro ⟨t, suffix⟩
        refine short noPage w wSmall ?_ cached
        have last := congrArg List.getLast? suffix
        simp only [List.getLast?_append, path] at last
        simpa using last.symm
      rw [lost]
      simp [Radix.cut, other]
  · rw [geometry.kvaddr]
    exact space.registered

theorem unmap (space : SpaceIn onlineHpt root a s c r l) {v : Nat} (harmless : Harmless root a s c (.unmap v)) :
    ∃ p s' r' l', s.archUnmapPage c (s.pageToKvaddr root) v = .ok (p, s', c.tlbRemove v) ∧
      SpaceIn onlineHpt root a s' (c.tlbRemove v) r' l' := by
  obtain ⟨small, safe⟩ := harmless
  obtain ⟨s', r', l', run, ⟨-, -, geometry, -, -, -⟩, kept', leaf, -⟩ := space.memory.remove v
  refine ⟨(r.leaf (path v)).map Prod.fst, s', r', l', ?_, kept', ?_, ?_⟩
  · simp only [archUnmapPage, pgtableRemove, run, Res.ok_bind]
  · refine space.coherent.remove small safe (fun w wSmall other => space.memory.tableLo_same kept' geometry ?_)
    rw [leaf, Function.update_of_ne (fun here => other ((path_inj wSmall small).mp here))]
  · rw [geometry.kvaddr]
    exact space.registered

/-- A harmless step is made, and keeps memory and TLB together. -/
theorem exec (space : SpaceIn onlineHpt root a s c r l) {op : SpaceOp} (allowed : SpaceAllowed s c root a op)
    (harmless : Harmless root a s c op) :
    ∃ s' c' r' l', s.spaceExec onlineHpt c root op = .ok (s', c') ∧ SpaceIn onlineHpt root a s' c' r' l' := by
  cases op with
  | resume entryHi => exact ⟨s, _, r, l, rfl, space.memory, space.coherent.registers rfl rfl, space.registered⟩
  | refill v random =>
    exact ⟨s, _, r, l, rfl, space.memory, space.refill random allowed.1 allowed.2, space.registered⟩
  | map v p perm =>
    obtain ⟨retcode, s', r', l', run, space'⟩ := space.map allowed harmless
    exact ⟨s', c, r', l', by simp only [spaceExec, run, Res.ok_bind], space'⟩
  | unmap v =>
    obtain ⟨p, s', r', l', run, space'⟩ := space.unmap harmless
    exact ⟨s', _, r', l', by simp only [spaceExec, run, Res.ok_bind], space'⟩
  | release p =>
    obtain ⟨held, unmapped⟩ := allowed
    obtain ⟨s', l', run, geometry, kept', -⟩ := space.memory.release held (space.memory.not_mapped unmapped)
    refine ⟨s', c, r, l', by simp only [spaceExec, run, Res.ok_bind], kept', ?_, ?_⟩
    · exact space.coherent.change (fun v _ _ => space.memory.tableLo_same kept' geometry rfl)
    · rw [geometry.kvaddr]
      exact space.registered

theorem start (onlineHpt : Nat → Nat) {s₀ : PageMem} {asid : Nat} {l₀ : List Nat} (free : FreeList s₀ l₀)
    (phys : PhysBound s₀) (new : s₀.pgdirNew asid = .ok (some root, s)) (registered : onlineHpt a = s.pageToKvaddr root)
    (nonempty : 0 < c.tlbsize) (size : c.tlbsize ≤ 64)
    (absent : ∀ i v, i < c.tlbsize → v < 2 ^ 47 → ¬ Cpu.Matches (c.tlb i) (Cpu.vpn2Of v) a) :
    ∃ r l, SpaceIn onlineHpt root a s c r l ∧ ∀ π w, r.leaf π ≠ some w := by
  obtain ⟨l₁, r, -, kept⟩ := TableKept.start free phys new
  have bare : ∀ π w, r.leaf π ≠ some w := by
    intro π w found
    obtain ⟨v, small, rfl⟩ := leaf_path (Option.ne_none_iff_exists'.mpr ⟨w, found⟩)
    have mapped := kept.mapped v small
    rw [found] at mapped
    cases mapped
  refine ⟨r, l₁, ⟨⟨kept.tree, kept.rooted, kept.full, kept.free, kept.phys, ?_, ?_, ?_⟩,
    .start nonempty size absent, registered⟩, bare⟩
  · exact fun π w found => absurd found (bare π w)
  · exact fun π _ w _ found => absurd found (bare π w)
  · exact fun π w found => absurd found (bare π w)

end SpaceIn

end PageMem

/-- Runs of an address space under the ASID `a`, from a fresh directory and a TLB
that has nothing for the ASID; every step meets the condition `safe`. -/
inductive SpaceRun (safe : PageMem → Cpu → SpaceOp → Prop) (s₀ : PageMem) (onlineHpt : Nat → Nat) (root : Nat)
    (a : Fin 256) : PageMem → Cpu → Prop
  | start {s : PageMem} {c : Cpu} {asid : Nat} (new : s₀.pgdirNew asid = .ok (some root, s))
      (registered : onlineHpt a = s.pageToKvaddr root) (nonempty : 0 < c.tlbsize) (size : c.tlbsize ≤ 64)
      (absent : ∀ i v, i < c.tlbsize → v < 2 ^ 47 → ¬ Cpu.Matches (c.tlb i) (Cpu.vpn2Of v) a) :
      SpaceRun safe s₀ onlineHpt root a s c
  | step {s s' : PageMem} {c c' : Cpu} {op : SpaceOp} (run : SpaceRun safe s₀ onlineHpt root a s c)
      (allowed : s.SpaceAllowed c root a op) (met : safe s c op)
      (done : s.spaceExec onlineHpt c root op = .ok (s', c')) : SpaceRun safe s₀ onlineHpt root a s' c'

/-- What an entry holds for a page, when its half is valid, is what the table has
for the page now, and not the frame of a free page. -/
def NoStale (root : Nat) (a : Fin 256) (s : PageMem) (c : Cpu) : Prop :=
  ∀ i v, i < c.tlbsize → v < 2 ^ 47 → Cpu.Matches (c.tlb i) (Cpu.vpn2Of v) a → (c.tlb i).Valid (Cpu.oddPage v) →
    (c.tlb i).entryLo (Cpu.oddPage v) = entryLo (s.tableEntry (s.pageToKvaddr root) v) ∧
    ∀ l p, s.FreeList l → p ∈ l → entryLoPfn ((c.tlb i).entryLo (Cpu.oddPage v)) ≠ s.pageToPfn p

theorem PageMem.SpaceIn.fresh {onlineHpt : Nat → Nat} {root : Nat} {a : Fin 256} {s : PageMem} {c : Cpu}
    {r : PageMem.Dirs} {l : List Nat} (space : PageMem.SpaceIn onlineHpt root a s c r l) : NoStale root a s c := by
  intro i v bound small found valid
  have current := space.coherent.current i v bound small found valid
  refine ⟨current, fun l' p free member => ?_⟩
  rw [current]
  refine space.memory.pfn_not_free ?_ (free.unique space.memory.free ▸ member)
  intro zero
  have half := valid
  rw [TlbEntry.entryLo, PageMem.tableLo, zero, entryLo_zero] at current
  rw [TlbEntry.Valid] at half
  omega

/-- In a run of harmless steps no translation is stale. -/
theorem SpaceRun.noStale {s₀ : PageMem} {onlineHpt : Nat → Nat} {root : Nat} {a : Fin 256} {l₀ : List Nat}
    (free : s₀.FreeList l₀) (phys : s₀.PhysBound) {s : PageMem} {c : Cpu}
    (run : SpaceRun (PageMem.Harmless root a) s₀ onlineHpt root a s c) : NoStale root a s c := by
  have kept : ∃ r l, PageMem.SpaceIn onlineHpt root a s c r l := by
    induction run with
    | start new registered nonempty size absent =>
      obtain ⟨r, l, space, -⟩ := PageMem.SpaceIn.start _ free phys new registered nonempty size absent
      exact ⟨r, l, space⟩
    | step _ allowed harmless done ih =>
      obtain ⟨r, l, space⟩ := ih
      obtain ⟨s', c', r', l', run, space'⟩ := space.exec allowed harmless
      rw [done] at run
      cases run
      exact ⟨r', l', space'⟩
  obtain ⟨r, l, space⟩ := kept
  exact space.fresh

namespace PageMem.SpaceIn

variable {onlineHpt : Nat → Nat} {root : Nat} {a : Fin 256} {s : PageMem} {c : Cpu} {r : Dirs} {l : List Nat}

/-- A refill caches the page when the table has a valid word for it. -/
theorem refill_cached (space : SpaceIn onlineHpt root a s c r l) {v random : Nat} (asid : c.asid = a)
    (bound : random < c.tlbsize) (valid : s.tableLo root v / 2 % 2 = 1) :
    (s.xtlbRefill onlineHpt (c.tlbMiss v) v random).Cached a v := by
  have missAsid : (c.tlbMiss v).asid = c.asid := Cpu.asid_of rfl
  have pair : Cpu.vpn2Of (c.tlbMiss v).entryHi = Cpu.vpn2Of v := Cpu.vpn2Of_or _ _
  obtain ⟨k1, k0, words, run⟩ := xtlbRefill_spec space.memory.tree space.memory.rooted (c := c.tlbMiss v)
    (by rw [missAsid, asid]; exact space.registered) v random
  have value : s.tableLo root v = if Cpu.oddPage v then entryLo k0 else entryLo k1 := by
    rw [tableLo, words v rfl, apply_ite entryLo]
  have some : ¬ (k1 = 0 ∧ k0 = 0) := by
    rintro ⟨rfl, rfl⟩
    rw [value, entryLo_zero, ite_self] at valid
    cases valid
  rw [run, if_neg some]
  refine ⟨random, bound, ⟨?_, .inr ?_⟩, ?_⟩
  · rw [Cpu.tlbwr_self]
    exact pair
  · rw [Cpu.tlbwr_self, Cpu.latched_asid, ← asid, ← missAsid]
    exact Cpu.asid_congr rfl
  · rw [value] at valid
    rw [Cpu.tlbwr_self]
    cases side : Cpu.oddPage v <;> simpa [side, TlbEntry.Valid, TlbEntry.half, Cpu.latched] using valid

theorem cached_leaf (space : SpaceIn onlineHpt root a s c r l) {v : Nat} (small : v < 2 ^ 47)
    (cached : c.Cached a v) : ∃ w, r.leaf (path v) = some w := by
  obtain ⟨i, bound, found, valid⟩ := cached
  have current := space.coherent.current i v bound small found valid
  cases leaf : r.leaf (path v) with
  | some w => exact ⟨w, rfl⟩
  | none =>
    rw [space.memory.tableLo_eq, leaf, Option.elim_none, entryLo_zero, TlbEntry.entryLo] at current
    rw [TlbEntry.Valid] at valid
    omega

/-- Replacing a page that is cached leaves its old half behind. -/
theorem stale (space : SpaceIn onlineHpt root a s c r l) {v p perm : Nat} (low : 16384 ≤ v) (small : v < 2 ^ 47)
    (cached : c.Cached a v) (allowed : SpaceAllowed s c root a (.map v p perm)) :
    ∃ s', s.spaceExec onlineHpt c root (.map v p perm) = .ok (s', c) ∧ ¬ NoStale root a s' c := by
  obtain ⟨w, leaf⟩ := space.cached_leaf small cached
  obtain ⟨held, unmapped, own⟩ := allowed
  have other := space.memory.not_mapped unmapped
  have nonzero : pgaddrRounddown v ≠ 0 := by
    rw [pgaddrRounddown_eq (by omega)]
    omega
  have enough : missing r v ≤ l.length := by
    have inner : r.dir [pmx v, pgx v] ≠ none := by
      intro none
      exact Radix.not_taken none (ptx v) (.inr (by rw [show r.leaf (ptx v :: [pmx v, pgx v]) = some w from leaf]; simp))
    have outer : r.dir [pgx v] ≠ none := fun none => Radix.not_taken none (pmx v) (.inl inner)
    rw [missing, if_neg inner, if_neg outer]
    exact Nat.zero_le _
  obtain ⟨s', r', l', run, kept', ⟨geometry, leaf', -, -, -, -, -⟩⟩ :=
    space.memory.map_served (by omega) nonzero held other own enough
  refine ⟨s', by simp only [spaceExec, run, Res.ok_bind], fun fine => ?_⟩
  obtain ⟨i, bound, found, valid⟩ := cached
  have old := space.coherent.current i v bound small found valid
  have new := (fine i v bound small found valid).1
  rw [old] at new
  have frames := congrArg entryLoPfn new
  rw [← tableLo, space.memory.tableLo_eq, kept'.tableLo_eq, leaf, leaf', Function.update_self, Option.elim_some,
    Option.elim_some, entryLo_leafWord s space.memory.phys (space.memory.tree.pages _ w leaf),
    entryLo_leafWord s' kept'.phys (kept'.held (path v) (p, perm) (by rw [leaf', Function.update_self])).inside,
    pageToPfn, pageToPfn, geometry.base] at frames
  exact other (path v) w leaf (by omega)

end PageMem.SpaceIn

/-- A machine on which a process holds the pages 1 and 2 and gets page 3 as directory. -/
theorem PageMem.two_held : ∃ s₀ s : PageMem, s₀.FreeList [3, 4, 5, 6, 7] ∧ s₀.PhysBound ∧
    s₀.pgdirNew 0xff = .ok (some 3, s) ∧ s.FreeList [4, 5, 6, 7] ∧ s.Held 1 ∧ s.Held 2 ∧ s.highmemBasePfn = 0 := by
  have books := initPageArray_books 0 8 ⟨id, id⟩ (fun _ => 0)
  have pages : (bootLedger 8).free.sort = [1, 2, 3, 4, 5, 6, 7] := (bootLedger_sort 8).trans (by decide)
  have free := books.free
  rw [pages] at free
  have phys : (initPageArray 0 8 ⟨id, id⟩ (fun _ => 0)).PhysBound := by
    rw [PhysBound]
    decide
  obtain ⟨s₁, -, free₁, set₁, type₁, geometry₁, -, -⟩ := allocPage_spec free
  obtain ⟨s₂, -, free₂, set₂, type₂, geometry₂, -, agree₂⟩ := allocPage_spec free₁
  obtain ⟨s₃, new, free₃, -, -, geometry₃, agree₃⟩ := pgdirNew_spec free₂ 0xff
  have held₁ : Held s₁ 1 := ⟨1, [], set₁, by simp, type₁⟩
  have held₂ : Held s₂ 2 := ⟨2, [], set₂, by simp, type₂⟩
  have later : Held s₂ 1 := held₁.frame geometry₂ (fun q inside => agree₂ q (inside.not_free free₁))
  have keep : ∀ p, Held s₂ p → Held s₃ p := fun p held =>
    held.frame geometry₃ (fun q inside => agree₃ q (inside.not_free free₂))
  refine ⟨s₂, s₃, free₂, (phys.frame geometry₁).frame geometry₂, new, free₃, keep 1 later, keep 2 held₂, ?_⟩
  rw [geometry₃.base, geometry₂.base, geometry₁.base]
  rfl

/-- Page 1 is mapped at `0x4000` and cached, and page 2 may be mapped there. -/
theorem SpaceRun.one_cached (safe : PageMem → Cpu → SpaceOp → Prop)
    (met : ∀ s c op, PageMem.Harmless 3 1 s c op → safe s c op) :
    ∃ s₀ l₀ onlineHpt s c r l, s₀.FreeList l₀ ∧ s₀.PhysBound ∧ SpaceRun safe s₀ onlineHpt 3 1 s c ∧
      PageMem.SpaceIn onlineHpt 3 1 s c r l ∧ c.Cached 1 0x4000 ∧
      s.SpaceAllowed c 3 1 (.map 0x4000 2 (pagePerm 0)) := by
  obtain ⟨s₀, s, free₀, phys, new, free, held₁, held₂, base⟩ := PageMem.two_held
  let c : Cpu := ⟨64, fun _ => ⟨2 ^ 40, 0, false, 0, 0⟩, 0, 1, 0, 0, id, 0⟩
  have absent : ∀ i v, i < c.tlbsize → v < 2 ^ 47 → ¬ Cpu.Matches (c.tlb i) (Cpu.vpn2Of v) 1 := by
    rintro i v - small ⟨pair, -⟩
    have low := Cpu.vpn2_lt small
    have high : 2 ^ 40 = Cpu.vpn2Of v := pair
    omega
  have uncached : ∀ v, v < 2 ^ 47 → ¬ c.Cached 1 v := fun v small ⟨i, bound, found, _⟩ => absent i v bound small found
  let onlineHpt : Nat → Nat := fun _ => s.pageToKvaddr 3
  have run₀ : SpaceRun safe s₀ onlineHpt 3 1 s c := .start new rfl (by decide) (by decide) absent
  obtain ⟨r, l, space, bare⟩ :=
    PageMem.SpaceIn.start onlineHpt free₀ phys new rfl (by decide) (by decide) absent
  have unmapped : ¬ s.Mapped (s.pageToKvaddr 3) 1 := by
    rw [space.memory.mapped_iff]
    rintro ⟨π, w, found, -⟩
    exact bare π w found
  have own := pagePerm_own 0
  have first : s.SpaceAllowed c 3 1 (.map 0x4000 1 (pagePerm 0)) := ⟨held₁, unmapped, own⟩
  have harmless : PageMem.Harmless 3 1 s c (.map 0x4000 1 (pagePerm 0)) :=
    ⟨by decide, uncached _ (by decide), fun _ w small _ => uncached w small⟩
  have list : l = [4, 5, 6, 7] := space.memory.free.unique free
  obtain ⟨s₁, r₁, l₁, mapped, kept₁, ⟨geometry, leaf, still, -, -, -, -⟩⟩ := space.memory.map_served (v := 0x4000) (by decide)
    (by decide) held₁ (space.memory.not_mapped unmapped) own (by
      have most := PageMem.missing_le r 0x4000
      rw [list]
      exact Nat.le_trans most (by decide))
  have done₁ : s.spaceExec onlineHpt c 3 (.map 0x4000 1 (pagePerm 0)) = .ok (s₁, c) := by
    simp only [PageMem.spaceExec, mapped, Res.ok_bind]
  have run₁ := SpaceRun.step run₀ first (met _ _ _ harmless) done₁
  obtain ⟨s', c', r', l', again, space₁⟩ := space.exec first harmless
  rw [done₁] at again
  cases again
  have second : s₁.SpaceAllowed c 3 1 (.refill 0x4000 0) := ⟨by decide, fun i bound => absent i _ bound (by decide)⟩
  have run₂ := SpaceRun.step run₁ second (met _ _ _ (by decide : (0x4000 : Nat) < 2 ^ 47)) rfl
  obtain ⟨s'', c'', r₂, l₂, again, space₂⟩ := space₁.exec second (by decide : (0x4000 : Nat) < 2 ^ 47)
  cases again
  have here : r₁.leaf (path 0x4000) = some (1, pagePerm 0) := by rw [leaf, Function.update_self]
  have valid : s₁.tableLo 3 0x4000 / 2 % 2 = 1 := by
    rw [kept₁.tableLo_eq, here, Option.elim_some, PageMem.leafWord_eq, geometry.base, base]
    decide
  have cached := space₁.refill_cached second.1 (by decide : 0 < c.tlbsize) valid
  refine ⟨s₀, _, onlineHpt, _, _, r₂, l₂, free₀, phys, run₂, space₂, cached, still 2 held₂ ?_, ?_, own⟩
  · exact fun w found => absurd found (bare _ w)
  · rw [kept₁.mapped_iff]
    rintro ⟨π, w, found, two⟩
    rw [leaf] at found
    by_cases at4000 : π = path 0x4000
    · rw [at4000, Function.update_self] at found
      rw [← Option.some.inj found] at two
      cases two
    · rw [Function.update_of_ne at4000] at found
      exact bare π w found

/-- One page mapped and used: its half is cached and not stale. -/
theorem SpaceRun.noStale_one : ∃ s₀ onlineHpt s c, SpaceRun (PageMem.Harmless 3 1) s₀ onlineHpt 3 1 s c ∧
    c.Cached 1 0x4000 ∧ NoStale 3 1 s c := by
  obtain ⟨s₀, l₀, onlineHpt, s, c, r, l, free, phys, run, -, cached, -⟩ :=
    SpaceRun.one_cached (PageMem.Harmless 3 1) (fun _ _ _ harmless => harmless)
  exact ⟨s₀, onlineHpt, s, c, run, cached, run.noStale free phys⟩

/-- Where `arch_map_page` replaces the page at `0x4000` user code still reaches the old one. -/
theorem SpaceRun.not_noStale : ¬ ∀ (s₀ : PageMem) (l₀ : List Nat) (onlineHpt : Nat → Nat) (root : Nat) (a : Fin 256)
    (s : PageMem) (c : Cpu), s₀.FreeList l₀ → s₀.PhysBound → SpaceRun (fun _ _ _ => True) s₀ onlineHpt root a s c →
      NoStale root a s c := by
  intro always
  obtain ⟨s₀, l₀, onlineHpt, s, c, r, l, free, phys, run, space, cached, allowed⟩ :=
    SpaceRun.one_cached (fun _ _ _ => True) (fun _ _ _ _ => trivial)
  obtain ⟨s', done, stale⟩ := space.stale (by decide) (by decide) cached allowed
  exact stale (always s₀ l₀ onlineHpt 3 1 s' c free phys (.step run allowed trivial done))

end Xv6
