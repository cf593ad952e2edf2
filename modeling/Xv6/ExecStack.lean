import Xv6.ExecLoad

namespace Xv6

/-- The highest end of a segment, loaded or not. -/
def topOf (hs : List Phdr) : Nat := (hs.map Phdr.top).foldr max 0

/-- The page number of the program top. -/
def stackPage (hs : List Phdr) : Nat := (topOf hs + 16383) / 16384 + 1

/-- The stack and the page below it are apart from the program. -/
structure StackApart (t : ExecTask) (hs : List Phdr) : Prop where
  aligned : t.progtop % pgsize = 0
  below : ∀ ph ∈ hs, ph.Loads → (ph.pVaddr + ph.pMemsz - 1) / pgsize + 2 ≤ t.progtop / pgsize
  guard : (∃ ph ∈ hs, ph.Loads) → t.mm.heap.pm.tableEntry t.mm.pgd (t.progtop - pgsize) = 0
  stack : (∃ ph ∈ hs, ph.Loads) → t.mm.heap.pm.tableEntry t.mm.pgd t.progtop = 0

/-- No end of a segment wraps, the highest one is not within two pages of the end of memory, and no page that is mapped
looks to the table like that of the stack or the one below. -/
structure StackFits (hs : List Phdr) : Prop where
  nowrap : ∀ ph ∈ hs, ph.Loads → ph.pVaddr + ph.pMemsz < 2 ^ 64
  room : topOf hs ≤ 2 ^ 64 - 2 ^ 15
  apart : ∀ ph ∈ hs, ph.pType = ptLoad → ∀ j, MappedFor ph.pVaddr ph.pMemsz j →
    j % 2 ^ 33 ≠ stackPage hs % 2 ^ 33 ∧ j % 2 ^ 33 ≠ (stackPage hs - 1) % 2 ^ 33

/-- The header of an image that `task_load_elf_kmem` takes. -/
def ElfHdr.Accepted (hdr : ElfHdr) : Prop :=
  (List.range 4).map hdr.eIdent = elfmag ∧ hdr.eIdent 6 = 1 ∧ hdr.eType = 2 ∧ hdr.eIdent 4 = 2 ∧ hdr.eIdent 5 = 1 ∧
    hdr.eMachine = 8 ∧ hdr.ePhentsize = sizeofPhdr ∧ hdr.eShentsize = sizeofShdr

namespace ExecTask

open PageMem

variable {t t' : ExecTask} {root addr : Nat} {r : Dirs} {l : List Nat} {B : Heap.Slabs} {areas : List (Nat × VmArea)}
variable {hs : List Phdr}

/-- The loop over the headers raises the program top to the highest end of a segment. -/
theorem loadLoop_top (done : loadLoop addr hs t = .ok (0, t')) : t'.progtop = max t.progtop (topOf hs) := by
  induction hs generalizing t with
  | nil =>
    obtain ⟨-, rfl⟩ := Prod.mk.inj (Except.ok.inj done)
    exact (Nat.max_eq_left (Nat.zero_le _)).symm
  | cons ph hs ih =>
    obtain ⟨mm, done, -⟩ := loadLoop_cons done
    rw [ih done, topOf, topOf, List.map_cons, List.foldr_cons]
    simp only
    split <;> omega

theorem topOf_lt (hs : List Phdr) : topOf hs < 2 ^ 64 := by
  induction hs with
  | nil => decide
  | cons ph hs ih =>
    rw [topOf, List.map_cons, List.foldr_cons]
    exact Nat.max_lt.mpr ⟨Nat.mod_lt _ (by decide), ih⟩

theorem le_topOf {ph : Phdr} (member : ph ∈ hs) : ph.top ≤ topOf hs := by
  induction hs with
  | nil => cases member
  | cons other hs ih =>
    rw [topOf, List.map_cons, List.foldr_cons]
    rcases List.mem_cons.mp member with rfl | member
    · exact Nat.le_max_left ..
    · exact Nat.le_trans (ih member) (Nat.le_max_right ..)

/-- What a successful load leaves. -/
theorem taskLoadElf_leaf {image : ByteMem} {entry e : Nat} (kept : t.mm.Kept root r l B areas)
    (bare : ∀ π, r.leaf π = none) (fresh : t.progtop = 0)
    (done : t.taskLoadElfKmem image addr entry = .ok (0, e, t')) :
    ∃ r' l' B' areas', t'.mm.Kept root r' l' B' areas' ∧
      t'.progtop = ((topOf (headersOf image addr) + 16383) % 2 ^ 64 / 16384 * 16384 + 16384) % 2 ^ 64 ∧
      ∀ v, t'.mm.heap.pm.tableEntry t'.mm.pgd v = 0 ↔ ∀ ph ∈ headersOf image addr, ph.pType = ptLoad →
        ∀ j, MappedFor ph.pVaddr ph.pMemsz j → path (16384 * j) ≠ path v := by
  obtain ⟨t₁, loop, rfl⟩ := taskLoadElf_loop done
  have top := loadLoop_top loop
  obtain ⟨r', l', B', areas', kept', loaded⟩ := loadLoop_loaded kept (phdrs_small _ _ _ _ _) loop
  refine ⟨r', l', B', areas', kept', ?_, fun v => ?_⟩
  · rw [fresh, Nat.zero_max] at top
    have round : pow2Roundup t₁.progtop pgshift = (t₁.progtop + 16383) % 2 ^ 64 / 16384 * 16384 :=
      pow2Rounddown_eq (Nat.mod_lt _ (by decide)) (by decide)
    show (pow2Roundup t₁.progtop pgshift + pgsize) % 2 ^ 64 = _
    rw [round, top]
    rfl
  · show t₁.mm.heap.pm.tableEntry t₁.mm.pgd v = 0 ↔ _
    constructor
    · intro zero ph member type j mapped here
      have present := loaded.mapped ph member type j mapped
      rw [here, Option.ne_none_iff_exists', ← tableEntry_ne_zero kept'.space.tree kept'.space.rooted, ← kept'.pgd] at present
      exact present zero
    · intro all
      by_contra present
      obtain ⟨q, ph, member, type, j, mapped, here, -⟩ := loaded.entry kept' bare present
      exact all ph member type j mapped here

/-- After a successful load the stack is apart from the program if and only if the ends of the segments and the pages
that were mapped leave room for it. No segment of a successful load has more than INT_MAX pages in its 32 bits, since the
int of `map_pages` overflows on them. -/
theorem stackApart_iff {image : ByteMem} {entry e : Nat} (kept : t.mm.Kept root r l B areas)
    (bare : ∀ π, r.leaf π = none) (fresh : t.progtop = 0)
    (done : t.taskLoadElfKmem image addr entry = .ok (0, e, t')) :
    StackApart t' (headersOf image addr) ↔ ((∃ ph ∈ headersOf image addr, ph.Loads) → StackFits (headersOf image addr)) := by
  obtain ⟨r', l', B', areas', kept', top, entries⟩ := taskLoadElf_leaf kept bare fresh done
  obtain ⟨hs, defHs⟩ : ∃ hs, hs = headersOf image addr := ⟨_, rfl⟩
  rw [← defHs] at top entries ⊢
  have bound := topOf_lt hs
  have page : pgsize = 16384 := rfl
  have aligned : t'.progtop % pgsize = 0 := by
    rw [top, page]
    omega
  -- without a wrap the program top is the page that `stackPage` names
  have place (room : topOf hs ≤ 2 ^ 64 - 2 ^ 15) : t'.progtop = 16384 * stackPage hs := by
    rw [top, stackPage]
    omega
  have paths (j v : Nat) : path (16384 * j) ≠ path (16384 * v) ↔ j % 2 ^ 33 ≠ v % 2 ^ 33 := not_congr path_alias
  constructor
  · rintro ⟨-, below, guard, stack⟩ some
    obtain ⟨ph, member, loads⟩ := some
    have high := below ph member loads
    have room : topOf hs ≤ 2 ^ 64 - 2 ^ 15 := by
      rw [top, page] at high
      omega
    have here := place room
    refine ⟨fun ph' member' loads' => ?_, room, fun ph' member' type j mapped => ?_⟩
    · have high' := below ph' member' loads'
      rw [here, page, stackPage] at high'
      omega
    · have stackFree := (entries _).mp (stack ⟨ph, member, loads⟩) ph' member' type j mapped
      have guardFree := (entries _).mp (guard ⟨ph, member, loads⟩) ph' member' type j mapped
      have one : 1 ≤ stackPage hs := by
        rw [stackPage]
        omega
      rw [here, page, show 16384 * stackPage hs - 16384 = 16384 * (stackPage hs - 1) by omega] at guardFree
      rw [here] at stackFree
      exact ⟨(paths _ _).mp stackFree, (paths _ _).mp guardFree⟩
  · intro fits
    refine ⟨aligned, fun ph member loads => ?_, fun some => ?_, fun some => ?_⟩
    · obtain ⟨nowrap, room, -⟩ := fits ⟨ph, member, loads⟩
      have small := nowrap ph member loads
      have le := le_topOf member
      rw [Phdr.top, Nat.mod_eq_of_lt small] at le
      have positive : ph.pMemsz ≠ 0 := loads.2
      rw [place room, page, stackPage]
      omega
    · obtain ⟨-, room, apart⟩ := fits some
      rw [entries, place room, page]
      intro ph member type j mapped
      rw [show 16384 * stackPage hs - 16384 = 16384 * (stackPage hs - 1) by omega]
      exact (paths _ _).mpr (apart ph member type j mapped).2
    · obtain ⟨-, room, apart⟩ := fits some
      rw [entries, place room]
      intro ph member type j mapped
      exact (paths _ _).mpr (apart ph member type j mapped).1

theorem taskLoadElf_accepted {image : ByteMem} {entry : Nat} {ret : Int} (accepted : (elfHdrAt image addr).Accepted)
    (load : t.taskLoadSegsKmem image addr (elfHdrAt image addr) = .ok (ret, t')) :
    t.taskLoadElfKmem image addr entry = .ok (ret, (elfHdrAt image addr).eEntry, t') := by
  obtain ⟨magic, version, type, bits, order, machine, headers, sections⟩ := accepted
  rw [taskLoadElfKmem]
  simp only [magic, version, type, bits, order, machine, headers, sections, ne_eq, not_true_eq_false, or_self, if_false, load]
  rfl

/-- Headers of segments that are not loaded move the program top only. -/
theorem loadLoop_skip (skipped : ∀ ph ∈ hs, ph.pType ≠ ptLoad) : ∃ top, loadLoop addr hs t = .ok (0, ⟨t.mm, top⟩) := by
  induction hs generalizing t with
  | nil => exact ⟨t.progtop, rfl⟩
  | cons ph hs ih =>
    obtain ⟨top, rest⟩ := @ih ⟨t.mm, if t.progtop < ph.top then ph.top else t.progtop⟩ fun other member =>
      skipped other (List.mem_cons_of_mem _ member)
    rw [loadLoop, if_neg (skipped ph (List.mem_cons_self ..))]
    exact ⟨top, rest⟩

end ExecTask

/-- A segment of one page without data at `0x4000`. -/
def onePage : Phdr := ⟨ptLoad, 7, 0x4000, 0, 0x4000⟩

/-- An image with that segment, and with a note at the end of memory if there are two headers. -/
def smallImage (phnum : UInt8) : ByteMem := fun a =>
  (elfmag ++ [2, 1, 1] ++ List.replicate 9 0 ++ [2, 0, 8, 0] ++ List.replicate 12 0 ++ [64] ++ List.replicate 21 0 ++
    [56, 0, phnum, 0, 64, 0] ++ List.replicate 4 0 ++ [1, 0, 0, 0, 7, 0, 0, 0] ++ List.replicate 8 0 ++ [0, 0x40] ++
    List.replicate 22 0 ++ [0, 0x40] ++ List.replicate 14 0 ++ [4] ++ List.replicate 15 0 ++ List.replicate 8 0xff).getD a 0

theorem headersOf_one : ExecTask.headersOf (smallImage 1) 0 = [onePage] := by decide

theorem headersOf_two : ExecTask.headersOf (smallImage 2) 0 = [onePage, ⟨4, 0, 2 ^ 64 - 1, 0, 0⟩] := by decide

/-- Nothing is copied where there is no page to copy to. -/
theorem Mm.copyToUvm_nothing {k : Mm} {u kv len : Nat} (accepted : u ≤ xusegEnd) (nothing : nrPagesSpanned u len = 0) :
    k.copyToUvm u kv len = .ok (0, k) := by
  have result : k.heap.pm.copyToUvm k.pgd u kv len = (0, k.heap.pm) := by
    rw [PageMem.copyToUvm, PageMem.copyUvm, if_neg (not_not.mpr accepted)]
    simp only [nothing, PageMem.copyLoop]
  rw [Mm.copyToUvm, if_neg fun wild => wild.2.1 nothing, result]
  simp only [nothing, Nat.zero_ne_one, false_and, and_false, if_false]
  rfl

/-- An image with one segment of one page is loaded into a new structure. -/
theorem pageImage_loads {image : ByteMem} {flags : Nat} {rest : List Phdr}
    (headers : ExecTask.headersOf image 0 = ⟨ptLoad, flags, 0x4000, 0, 0x4000⟩ :: rest)
    (skipped : ∀ ph ∈ rest, ph.pType ≠ ptLoad) (accepted : (elfHdrAt image 0).Accepted) :
    ∃ (k : Mm) (root : Nat) (l : List Nat) (B : Heap.Slabs) (e : Nat) (t' : ExecTask), k.Kept root (Radix.single root) l B [] ∧
      61 ≤ l.length ∧ ExecTask.taskLoadElfKmem ⟨k, 0⟩ image 0 0 = .ok (0, e, t') := by
  obtain ⟨ph, defPh⟩ : ∃ ph : Phdr, ph = ⟨ptLoad, flags, 0x4000, 0, 0x4000⟩ := ⟨_, rfl⟩
  obtain ⟨k, root, l, B, -, -, kept, room⟩ := Mm.smallNew
  obtain ⟨k', -, -, -, -, create, -⟩ := kept.createUvm_last (m := 1) (n := 1) .nil (.single root) (elfToVmaflags flags)
    le_rfl (by decide) (by decide) (by decide) (by simp) (by omega)
  have load : k.taskLoadSegKmem 0 ph = .ok (0, k') := by
    rw [Mm.taskLoadSegKmem, defPh]
    show (k.createUvm (16384 * 1) (16384 * 1) (elfToVmaflags flags) >>= _) = _
    rw [create, Res.ok_bind]
    show (k'.copyToUvm 0x4000 0 0 >>= _) = _
    rw [Mm.copyToUvm_nothing (by decide) (by decide), Res.ok_bind]
    rfl
  obtain ⟨top, others⟩ := @ExecTask.loadLoop_skip ⟨k', if 0 < ph.top then ph.top else 0⟩ 0 rest skipped
  have loop : ExecTask.loadLoop 0 (ph :: rest) ⟨k, 0⟩ = .ok (0, ⟨k', top⟩) := by
    rw [ExecTask.loadLoop, if_pos (by rw [defPh])]
    show (k.taskLoadSegKmem 0 ph >>= _) = _
    rw [load]
    exact others
  have segs : ExecTask.taskLoadSegsKmem ⟨k, 0⟩ image 0 (elfHdrAt image 0) =
      .ok (0, ⟨k', (pow2Roundup top pgshift + pgsize) % 2 ^ 64⟩) := by
    rw [ExecTask.taskLoadSegsKmem]
    show (ExecTask.loadLoop 0 (ExecTask.headersOf image 0) ⟨k, 0⟩ >>= _) = _
    rw [headers, ← defPh, loop]
    rfl
  exact ⟨k, root, l, B, _, _, kept, room, ExecTask.taskLoadElf_accepted accepted segs⟩

/-- The image with one header leaves room for the stack. -/
theorem stackApart_one : ∃ (t t' : ExecTask) (e : Nat), t.taskLoadElfKmem (smallImage 1) 0 0 = .ok (0, e, t') ∧
    StackApart t' (ExecTask.headersOf (smallImage 1) 0) := by
  obtain ⟨k, root, l, B, e, t', kept, -, done⟩ := pageImage_loads headersOf_one (by simp) (by rw [ElfHdr.Accepted]; decide)
  have apart := @ExecTask.stackApart_iff ⟨k, 0⟩ _ _ _ _ _ _ _ _ _ _ kept (fun _ => rfl) rfl done
  refine ⟨_, t', e, done, apart.mpr fun _ => ?_⟩
  rw [headersOf_one]
  refine ⟨?_, by decide, ?_⟩
  · simp only [List.forall_mem_singleton]
    exact fun _ => by decide
  · simp only [List.forall_mem_singleton]
    rintro - j ⟨-, -, lower, upper⟩
    have first : onePage.pVaddr / 16384 = 1 := rfl
    have count : nrPagesSpanned onePage.pVaddr onePage.pMemsz % 2 ^ 32 = 1 := by decide
    have stack : stackPage [onePage] = 3 := by decide
    omega

/-- With the note at the end of memory the stack is put on the segment. -/
theorem not_stackApart : ¬ ∀ (t t' : ExecTask) (root : Nat) (r : PageMem.Dirs) (l : List Nat) (B : Heap.Slabs) (image : ByteMem)
    (addr entry e : Nat), t.mm.Kept root r l B [] → (∀ π, r.leaf π = none) → t.progtop = 0 →
    t.taskLoadElfKmem image addr entry = .ok (0, e, t') → StackApart t' (ExecTask.headersOf image addr) := by
  intro always
  obtain ⟨k, root, l, B, e, t', kept, -, done⟩ := pageImage_loads headersOf_two (by simp [ptLoad]) (by rw [ElfHdr.Accepted]; decide)
  have below := (always _ t' _ _ _ _ _ _ _ _ kept (fun _ => rfl) rfl done).below
  obtain ⟨-, -, -, -, -, top, -⟩ := ExecTask.taskLoadElf_leaf kept (fun _ => rfl) rfl done
  rw [headersOf_two] at below top
  have high := below onePage (List.mem_cons_self ..) ⟨rfl, by decide⟩
  have last : topOf [onePage, ⟨4, 0, 2 ^ 64 - 1, 0, 0⟩] = 2 ^ 64 - 1 := by decide
  have segment : (onePage.pVaddr + onePage.pMemsz - 1) / pgsize = 1 := by decide
  have page : pgsize = 16384 := rfl
  rw [segment, top, last, page] at high
  omega

end Xv6
