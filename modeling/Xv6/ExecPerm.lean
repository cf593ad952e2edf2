import Xv6.ExecStack

namespace Xv6

/-- The page-table entry has the attributes of a page that is present and cached, and the permissions of `p_flags`. -/
structure EntryPerms (entry pFlags : Nat) : Prop where
  valid : entry &&& pteValid ≠ 0
  phys : entry &&& ptePhys ≠ 0
  cacheable : entry &&& pteCacheMask = pteCacheable
  dirty : entry &&& pteDirty ≠ 0 ↔ pFlags &&& 2 ≠ 0
  noexec : entry &&& pteNoexec ≠ 0 ↔ pFlags &&& 1 = 0

/-- The area has the permissions of `p_flags`. -/
structure AreaPerms (v : VmArea) (pFlags : Nat) : Prop where
  read : v.flags &&& vmaRead ≠ 0 ↔ pFlags &&& 4 ≠ 0
  write : v.flags &&& vmaWrite ≠ 0 ↔ pFlags &&& 2 ≠ 0
  exec : v.flags &&& vmaExec ≠ 0 ↔ pFlags &&& 1 ≠ 0

/-- The permissions of the segments are those of the entries and areas of all their pages. -/
def PermsReach (t : ExecTask) (hs : List Phdr) : Prop :=
  ∃ areas, t.mm.Listed areas ∧ ∀ ph ∈ hs, ∀ j, ph.HasPage j →
    EntryPerms (t.mm.heap.pm.tableEntry t.mm.pgd (16384 * j)) ph.pFlags ∧
      ∃ e ∈ areas, e.2.Has (16384 * j) ∧ AreaPerms e.2 ph.pFlags

/-- The segment is not executable, not in page 0, and its pages are counted by an int. -/
structure Phdr.Plain (ph : Phdr) : Prop where
  data : ph.pFlags &&& 1 = 0
  above : 16384 ≤ ph.pVaddr
  few : (ph.pVaddr + ph.pMemsz - 1) / 16384 + 1 ≤ ph.pVaddr / 16384 + intMax

/-- All segments are plain, those with pages that look the same to the table are writable alike, and there is memory
for their areas. -/
structure PermsFit (addr : Nat) (hs : List Phdr) (k : Mm) : Prop where
  plain : ∀ ph ∈ hs, ph.Loads → ph.Plain
  alike : ∀ ph ∈ hs, ∀ other ∈ hs, ∀ i j, ph.HasPage i → other.HasPage j → i % 2 ^ 33 = j % 2 ^ 33 →
    (ph.pFlags &&& 2 ≠ 0 ↔ other.pFlags &&& 2 ≠ 0)
  room : AreasFit addr hs k

theorem Phdr.HasArea.perms {ph : Phdr} {v : VmArea} (area : ph.HasArea v) : AreaPerms v ph.pFlags := by
  obtain ⟨-, -, -, flags⟩ := area
  refine ⟨?_, ?_, ?_⟩ <;> rw [flags, elfToVmaflags] <;> split_ifs <;> simp_all [vmaRead, vmaWrite, vmaExec]

/-- Whether the segment is executable makes no difference to its pages. -/
theorem pagePerm_elf (f : Nat) : pagePerm (elfToVmaflags f) = if f &&& 2 ≠ 0 then 0x188 else 0x88 := by
  rw [elfToVmaflags]
  split_ifs <;> decide

/-- The low bits of an entry are its flags. -/
theorem PageMem.leafWord_and (s : PageMem) (w : Nat × Nat) {mask : Nat} (low : mask < 2 ^ 12) :
    s.leafWord w &&& mask = pteFlags w.2 &&& pteLowmask &&& mask := by
  have flags := pteFlags_lt w.2
  have rest : s.leafWord w % 2 ^ 12 = pteFlags w.2 &&& pteLowmask := by
    rw [leafWord_eq]
    omega
  have small : s.leafWord w &&& mask < 2 ^ 12 := Nat.lt_of_le_of_lt Nat.and_le_right low
  rw [← Nat.mod_eq_of_lt small, Nat.and_mod_two_pow, rest, Nat.mod_eq_of_lt low]

/-- The flags of an entry that is made for a segment. -/
theorem PageMem.pteFlags_elf (f : Nat) :
    pteFlags (pagePerm (elfToVmaflags f)) &&& pteLowmask = if f &&& 2 ≠ 0 then 0x789 else 0x689 := by
  rw [pagePerm_elf]
  split_ifs <;> rfl

/-- No page of a segment can be executed. -/
theorem PageMem.leafWord_noexec (s : PageMem) (q f : Nat) : s.leafWord (q, pagePerm (elfToVmaflags f)) &&& pteNoexec ≠ 0 := by
  rw [leafWord_and s _ (by decide), pteFlags_elf]
  split_ifs <;> decide

theorem PageMem.leafWord_perms (s : PageMem) (q f : Nat) {pFlags : Nat} (data : pFlags &&& 1 = 0)
    (alike : pFlags &&& 2 ≠ 0 ↔ f &&& 2 ≠ 0) : EntryPerms (s.leafWord (q, pagePerm (elfToVmaflags f))) pFlags := by
  refine ⟨?_, ?_, ?_, ?_, fun _ => data, fun _ => s.leafWord_noexec q f⟩
  · rw [leafWord_and s _ (by decide), pteFlags_elf]
    split_ifs <;> decide
  · rw [leafWord_and s _ (by decide), pteFlags_elf]
    split_ifs <;> decide
  · rw [leafWord_and s _ (by decide), pteFlags_elf]
    split_ifs <;> rfl
  · rw [leafWord_and s _ (by decide), pteFlags_elf, alike]
    split_ifs with writable
    · exact ⟨fun _ => writable, fun _ => by decide⟩
    · exact ⟨fun some => absurd some (by decide), fun some => absurd some writable⟩

namespace Phdr

variable {ph other : Phdr} {v : VmArea} {hs : List Phdr} {j : Nat}

/-- The pages of a plain segment are those that are mapped for it. -/
theorem Plain.mapped_iff (plain : ph.Plain) (low : ph.pVaddr ≤ xusegEnd) (loads : ph.Loads) :
    MappedFor ph.pVaddr ph.pMemsz j ↔ ph.HasPage j := by
  have top : xusegEnd = 2 ^ 48 - 1 := rfl
  have few := plain.few
  have above := plain.above
  rw [intMax] at few
  have positive : ph.pMemsz ≠ 0 := loads.2
  have count := nrPagesSpanned_eq (show 0 < ph.pMemsz by omega) (show ph.pVaddr + ph.pMemsz ≤ 2 ^ 64 by omega)
  rw [MappedFor, HasPage, count]
  constructor
  · rintro ⟨-, -, lower, upper⟩
    exact ⟨loads, lower, by omega⟩
  · rintro ⟨-, lower, upper⟩
    exact ⟨positive, above, lower, by omega⟩

/-- The area of a plain segment has its pages. -/
theorem HasArea.has (area : ph.HasArea v) (plain : ph.Plain) (low : ph.pVaddr ≤ xusegEnd) (page : ph.HasPage j) :
    v.Has (16384 * j) := by
  have top : xusegEnd = 2 ^ 48 - 1 := rfl
  have few := plain.few
  rw [intMax] at few
  have positive : ph.pMemsz ≠ 0 := page.1.2
  have count := nrPagesSpanned_eq (show 0 < ph.pMemsz by omega) (show ph.pVaddr + ph.pMemsz ≤ 2 ^ 64 by omega)
  obtain ⟨-, lower, upper⟩ := page
  rw [VmArea.Has, area.start, area.stop, count]
  omega

/-- The area has pages of the segment only, and no more than are counted in 32 bits. -/
theorem HasArea.page (area : ph.HasArea v) (loads : ph.Loads) (low : ph.pVaddr ≤ xusegEnd) (has : v.Has (16384 * j)) :
    ph.HasPage j ∧ j < ph.pVaddr / 16384 + nrPagesSpanned ph.pVaddr ph.pMemsz % 2 ^ 32 := by
  have top : xusegEnd = 2 ^ 48 - 1 := rfl
  have positive : ph.pMemsz ≠ 0 := loads.2
  obtain ⟨lower, upper⟩ := has
  rw [area.start] at lower
  rw [area.stop] at upper
  by_cases wraps : ph.pVaddr + ph.pMemsz ≤ 2 ^ 64
  · have count := nrPagesSpanned_eq (show 0 < ph.pMemsz by omega) wraps
    rw [count] at upper
    exact ⟨⟨loads, by omega, by omega⟩, by omega⟩
  · exact ⟨⟨loads, by omega, by omega⟩, by omega⟩

end Phdr

theorem SharesNone.unique {hs : List Phdr} (apart : SharesNone hs) {ph other : Phdr} {j : Nat} (left : ph ∈ hs)
    (right : other ∈ hs) (here : ph.HasPage j) (there : other.HasPage j) : other = ph := by
  have symmetric : Std.Symm fun ph other : Phdr => ∀ j, ph.HasPage j → ¬ other.HasPage j :=
    ⟨fun _ _ apart j mine yours => apart j yours mine⟩
  by_contra distinct
  exact apart.forall right left distinct j there here

namespace HeadersLoaded

open PageMem

variable {addr root : Nat} {k : Mm} {ph : Phdr} {hs : List Phdr} {r r' : Dirs} {l' : List Nat} {B' : Heap.Slabs}
variable {areas' : List (Nat × VmArea)}

/-- The area that has a page of a segment was made for the segment. -/
theorem area (loaded : HeadersLoaded addr k hs r r' [] areas') (apart : SharesNone hs) (member : ph ∈ hs) {j : Nat}
    (page : ph.HasPage j) {e : Nat × VmArea} (listed : e ∈ areas') (has : e.2.Has (16384 * j)) : ph.HasArea e.2 := by
  rcases loaded.new e listed with none | ⟨other, member', loads, area⟩
  · cases none
  · have there := (area.page loads (loaded.low other member' loads.1) has).1
    rwa [apart.unique member member' page there] at area

/-- Under the conditions the permissions reach the pages. -/
theorem reach (loaded : HeadersLoaded addr k hs r r' [] areas') {t' : ExecTask} (kept' : t'.mm.Kept root r' l' B' areas')
    (bare : ∀ π, r.leaf π = none) (fits : PermsFit addr hs k) : PermsReach t' hs := by
  refine ⟨areas', kept'.listed, fun ph member j page => ?_⟩
  have loads := page.1
  have plain := fits.plain ph member loads
  have low := loaded.low ph member loads.1
  have mapped := (plain.mapped_iff low loads).mpr page
  have present : t'.mm.heap.pm.tableEntry t'.mm.pgd (16384 * j) ≠ 0 := by
    rw [kept'.pgd]
    exact (tableEntry_ne_zero kept'.space.tree kept'.space.rooted).mpr
      (Option.ne_none_iff_exists'.mp (loaded.mapped ph member loads.1 j mapped))
  constructor
  · -- the entry is that of a segment with the same page or one that looks the same
    obtain ⟨q, other, member', type, i, mapped', here, word⟩ := loaded.entry kept' bare present
    have loads' : other.Loads := ⟨type, mapped'.1⟩
    have page' := ((fits.plain other member' loads').mapped_iff (loaded.low other member' type) loads').mp mapped'
    rw [word]
    exact leafWord_perms _ q _ plain.data (fits.alike ph member other member' j i page page' (path_alias.mp here).symm)
  · obtain ⟨e, listed, area⟩ := loaded.fit fits.room ph member loads ⟨j, mapped⟩
    exact ⟨e, listed, area.has plain low page, area.perms⟩

/-- If the permissions reach the pages the conditions hold. -/
theorem fits (loaded : HeadersLoaded addr k hs r r' [] areas') {t' : ExecTask} (kept' : t'.mm.Kept root r' l' B' areas')
    (bare : ∀ π, r.leaf π = none) (apart : SharesNone hs) (reach : PermsReach t' hs) : PermsFit addr hs k := by
  obtain ⟨areas₂, listed, reach⟩ := reach
  obtain rfl := listed.unique kept'.listed
  have first : ∀ {ph : Phdr}, ph.Loads → ph.HasPage (ph.pVaddr / 16384) := by
    intro ph loads
    have size := loads.2
    exact ⟨loads, le_rfl, by omega⟩
  have last : ∀ {ph : Phdr}, ph.Loads → ph.HasPage ((ph.pVaddr + ph.pMemsz - 1) / 16384) := by
    intro ph loads
    have size := loads.2
    exact ⟨loads, by omega, le_rfl⟩
  refine ⟨fun ph member loads => ⟨?_, ?_, ?_⟩, fun ph member other member' i j page page' same => ?_, ?_⟩
  · -- an entry is never executable
    obtain ⟨perms, -⟩ := reach ph member _ (first loads)
    have present : t'.mm.heap.pm.tableEntry t'.mm.pgd (16384 * (ph.pVaddr / 16384)) ≠ 0 := by
      intro zero
      have valid := perms.valid
      rw [zero] at valid
      exact valid (Nat.zero_and _)
    obtain ⟨q, other, -, -, -, -, -, word⟩ := loaded.entry kept' bare present
    refine perms.noexec.mp ?_
    rw [word]
    exact leafWord_noexec _ q _
  · obtain ⟨-, e, made, has, -⟩ := reach ph member _ (first loads)
    exact (loaded.area apart member (first loads) made has).above
  · obtain ⟨-, e, made, has, -⟩ := reach ph member _ (last loads)
    have area := loaded.area apart member (last loads) made has
    have counted := loaded.counted ph member loads area.above
    have below := (area.page loads (loaded.low ph member loads.1) has).2
    omega
  · have left := (reach ph member i page).1.dirty
    have right := (reach other member' j page').1.dirty
    have here : path (16384 * i) = path (16384 * j) := path_alias.mpr same
    rw [kept'.pgd, tableEntry_spec kept'.space.tree kept'.space.rooted, here] at left
    rw [kept'.pgd, tableEntry_spec kept'.space.tree kept'.space.rooted] at right
    exact left.symm.trans right
  · refine loaded.found apart fun ph member loads => ?_
    obtain ⟨-, e, made, has, -⟩ := reach ph member _ (first loads)
    exact ⟨e, made, List.not_mem_nil, loaded.area apart member (first loads) made has⟩

end HeadersLoaded

namespace ExecTask

variable {t t' : ExecTask} {root addr : Nat} {r : PageMem.Dirs} {l : List Nat} {B : Heap.Slabs}

/-- When an image is loaded, the permissions of its segments are those of their pages if and only if no segment
is executable, in page 0 or too large, and segments that look the same to the table are writable alike, and there was
memory for all areas. -/
theorem permsReach_iff {image : ByteMem} {entry e : Nat} (kept : t.mm.Kept root r l B []) (bare : ∀ π, r.leaf π = none)
    (apart : SharesNone (headersOf image addr)) (done : t.taskLoadElfKmem image addr entry = .ok (0, e, t')) :
    PermsReach t' (headersOf image addr) ↔ PermsFit addr (headersOf image addr) t.mm := by
  obtain ⟨r', l', B', areas', kept', loaded⟩ := taskLoadElf_loaded kept done
  exact ⟨loaded.fits kept' bare apart, loaded.reach kept' bare⟩

end ExecTask

/-- One segment shares no page with another. -/
theorem SharesNone.single (ph : Phdr) : SharesNone [ph] := List.pairwise_singleton ..

/-- A segment of one page at `0x4000` that can be read and written. -/
def dataPage : Phdr := ⟨ptLoad, 6, 0x4000, 0, 0x4000⟩

/-- An image with that segment. -/
def dataImage : ByteMem := Function.update (smallImage 1) 68 6

theorem headersOf_data : ExecTask.headersOf dataImage 0 = [dataPage] := by decide

/-- The permissions of that segment reach its page. -/
theorem permsReach_data : ∃ (t t' : ExecTask) (e : Nat), t.taskLoadElfKmem dataImage 0 0 = .ok (0, e, t') ∧
    PermsReach t' (ExecTask.headersOf dataImage 0) := by
  obtain ⟨k, root, l, B, e, t', kept, free, done⟩ := pageImage_loads headersOf_data (by simp) (by rw [ElfHdr.Accepted]; decide)
  have reach := @ExecTask.permsReach_iff ⟨k, 0⟩ t' root 0 (Radix.single root) l B dataImage 0 e kept (fun _ => rfl)
    (headersOf_data ▸ SharesNone.single dataPage) done
  refine ⟨_, t', e, done, reach.mpr ?_⟩
  rw [headersOf_data]
  refine ⟨?_, ?_, ?_⟩
  · simp only [List.forall_mem_singleton]
    exact fun _ => ⟨by decide, by decide, by decide⟩
  · simp only [List.forall_mem_singleton]
    exact fun _ _ _ _ _ => trivial
  · have count : nrPagesSpanned dataPage.pVaddr dataPage.pMemsz = 1 := by decide
    have one : Mm.chunkPages B ≤ 1 := by
      rw [Mm.chunkPages]
      split_ifs <;> omega
    rw [AreasFit, if_pos (show dataPage.pType = ptLoad from rfl)]
    refine ⟨fun _ => ?_, fun k' _ => trivial⟩
    rw [Mm.RoomFor, count]
    exact (kept.roomBehind_iff (by omega)).mpr (by omega)

/-- The page of a segment that is executable is not. -/
theorem not_permsReach : ¬ ∀ (t t' : ExecTask) (root : Nat) (r : PageMem.Dirs) (l : List Nat) (B : Heap.Slabs) (image : ByteMem)
    (addr entry e : Nat), t.mm.Kept root r l B [] → (∀ π, r.leaf π = none) → SharesNone (ExecTask.headersOf image addr) →
    t.taskLoadElfKmem image addr entry = .ok (0, e, t') → PermsReach t' (ExecTask.headersOf image addr) := by
  intro always
  obtain ⟨k, root, l, B, e, t', kept, -, done⟩ := pageImage_loads headersOf_one (by simp) (by rw [ElfHdr.Accepted]; decide)
  have apart : SharesNone (ExecTask.headersOf (smallImage 1) 0) := headersOf_one ▸ SharesNone.single onePage
  have reach := always ⟨k, 0⟩ t' _ _ _ _ _ _ _ _ kept (fun _ => rfl) apart done
  obtain ⟨r', l', B', areas', kept', loaded⟩ := @ExecTask.taskLoadElf_loaded ⟨k, 0⟩ t' _ _ _ _ _ _ _ _ _ kept done
  have fits := loaded.fits kept' (fun _ => rfl) apart reach
  rw [headersOf_one] at fits
  have data := (fits.plain onePage (List.mem_cons_self ..) ⟨rfl, by decide⟩).data
  exact absurd data (by decide)

end Xv6
