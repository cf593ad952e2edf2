import Xv6.ExecSpec
import Xv6.VmServed

namespace Xv6

/-- The segment of the header takes memory. -/
def Phdr.Loads (ph : Phdr) : Prop := ph.pType = ptLoad ∧ ph.pMemsz ≠ 0

/-- The page is one of those that are mapped for the range: none when it starts in page 0, and their number
is one of 32 bits. -/
def MappedFor (addr len j : Nat) : Prop :=
  len ≠ 0 ∧ 16384 ≤ addr ∧ addr / 16384 ≤ j ∧ j < addr / 16384 + nrPagesSpanned addr len % 2 ^ 32

/-- The page is one of those of a segment that is loaded. -/
def Phdr.HasPage (ph : Phdr) (j : Nat) : Prop :=
  ph.Loads ∧ ph.pVaddr / 16384 ≤ j ∧ j ≤ (ph.pVaddr + ph.pMemsz - 1) / 16384

/-- No two segments share a page. -/
def SharesNone (hs : List Phdr) : Prop := hs.Pairwise fun ph other => ∀ j, ph.HasPage j → ¬ other.HasPage j

/-- There is memory for an area when `n` pages are taken. -/
def Mm.RoomBehind (k : Mm) (n : Nat) : Prop :=
  (k.heap.kmcache Mm.areaCache).avail = none → n < k.heap.pm.nrFreePages

/-- There is memory for the area of the segment when its pages are taken. -/
def Mm.RoomFor (k : Mm) (ph : Phdr) : Prop := k.RoomBehind (nrPagesSpanned ph.pVaddr ph.pMemsz)

/-- There is memory for the area of every segment before the segment is loaded. -/
def AreasFit (addr : Nat) : List Phdr → Mm → Prop
  | [], _ => True
  | ph :: rest, k =>
    if ph.pType = ptLoad then
      (ph.pMemsz ≠ 0 → k.RoomFor ph) ∧ ∀ k', k.taskLoadSegKmem addr ph = .ok (0, k') → AreasFit addr rest k'
    else AreasFit addr rest k

/-- The area that is made for a segment. -/
structure Phdr.HasArea (ph : Phdr) (v : VmArea) : Prop where
  above : 16384 ≤ ph.pVaddr
  start : v.start = 16384 * (ph.pVaddr / 16384)
  stop : v.stop = (16384 * (ph.pVaddr / 16384) + 16384 * (nrPagesSpanned ph.pVaddr ph.pMemsz % 2 ^ 32)) % 2 ^ 64
  flags : v.flags = elfToVmaflags ph.pFlags

namespace Mm

open PageMem

variable {k k' : Mm} {root addr : Nat} {r : Dirs} {l : List Nat} {B : Heap.Slabs} {areas : List (Nat × VmArea)}

theorem Kept.roomBehind_iff (kept : k.Kept root r l B areas) {n : Nat} (enough : n ≤ l.length) :
    k.RoomBehind n ↔ n + chunkPages B ≤ l.length := by
  have head : (k.heap.kmcache areaCache).avail = (B.queue (areaCache, true)).head? :=
    (kept.heap.queues.isQueue (areaCache, true)).head
  have empty : (k.heap.kmcache areaCache).avail = none ↔ B.queue (areaCache, true) = [] := by
    rw [head]
    exact List.head?_eq_none_iff
  rw [RoomBehind, chunkPages, kept.heap.free.count]
  by_cases bare : B.queue (areaCache, true) = []
  · rw [if_pos bare]
    exact ⟨fun room => room (empty.mpr bare), fun room _ => room⟩
  · rw [if_neg bare]
    exact ⟨fun _ => enough, fun _ none => absurd (empty.mp none) bare⟩

/-- What a segment leaves when it is loaded. -/
structure SegLoaded (k : Mm) (r r' : Dirs) (areas areas' : List (Nat × VmArea)) (ph : Phdr) : Prop where
  mapped : ∀ j, MappedFor ph.pVaddr ph.pMemsz j → ∃ q, r'.leaf (path (16384 * j)) = some (q, pagePerm (elfToVmaflags ph.pFlags))
  same : ∀ π, (∀ j, MappedFor ph.pVaddr ph.pMemsz j → path (16384 * j) ≠ π) → r'.leaf π = r.leaf π
  old : ∀ e ∈ areas, e ∈ areas'
  new : ∀ e ∈ areas', e ∈ areas ∨ ph.pMemsz ≠ 0 ∧ ph.HasArea e.2
  fit : ph.pVaddr ≤ xusegEnd → k.RoomFor ph → (∃ j, MappedFor ph.pVaddr ph.pMemsz j) → ∃ e ∈ areas', ph.HasArea e.2
  scarce : ¬ k.RoomFor ph → areas' = areas
  counted : ph.pMemsz ≠ 0 → 16384 ≤ ph.pVaddr → nrPagesSpanned ph.pVaddr ph.pMemsz % 2 ^ 32 ≤ intMax

theorem idle_of {addr len : Nat} (none : len = 0 ∨ addr < 16384) (j : Nat) : ¬ MappedFor addr len j := by
  rintro ⟨positive, above, -⟩
  omega

/-- Nothing is made for a segment without pages or in page 0. -/
theorem SegLoaded.idle {ph : Phdr} (none : ph.pMemsz = 0 ∨ ph.pVaddr < 16384) : SegLoaded k r r areas areas ph where
  mapped j mapped := absurd mapped (idle_of none j)
  same _ _ := rfl
  old _ member := member
  new _ member := .inl member
  fit _ _ some := some.elim fun j mapped => absurd mapped (idle_of none j)
  scarce _ := rfl
  counted positive above := none.elim (fun zero => absurd zero positive) fun first => absurd above (Nat.not_le.mpr first)

theorem Kept.createUvm_loaded (kept : k.Kept root r l B areas) {ph : Phdr} (small : ph.pVaddr < 2 ^ 64)
    (done : k.createUvm ph.pVaddr ph.pMemsz (elfToVmaflags ph.pFlags) = .ok (0, k')) :
    ∃ r' l' B' areas', k'.Kept root r' l' B' areas' ∧ SegLoaded k r r' areas areas' ph := by
  have round : pgaddrRounddown ph.pVaddr = ph.pVaddr / 16384 * 16384 := pgaddrRounddown_eq small
  by_cases idle : ph.pMemsz = 0 ∨ pgaddrRounddown ph.pVaddr = 0
  · simp only [createUvm, idle, if_true] at done
    obtain ⟨-, rfl⟩ := Prod.mk.inj (Except.ok.inj done)
    exact ⟨r, l, B, areas, kept, .idle (idle.imp_right fun first => by omega)⟩
  · obtain ⟨positive, above⟩ := not_or.mp idle
    obtain ⟨r', l', B', areas', kept', created, words, room⟩ := kept.createUvm_made positive above small done
    have fits := kept.roomBehind_iff created.enough
    obtain ⟨v, defV⟩ : ∃ v : VmArea, v = ⟨16384 * (ph.pVaddr / 16384), (16384 * (ph.pVaddr / 16384) +
      16384 * (nrPagesSpanned ph.pVaddr ph.pMemsz % 2 ^ 32)) % 2 ^ 64, elfToVmaflags ph.pFlags, k.self⟩ := ⟨_, rfl⟩
    have area : ph.HasArea v := by
      rw [defV]
      exact ⟨by omega, rfl, rfl, rfl⟩
    have enlisted := created.enlisted
    rw [← defV] at enlisted
    refine ⟨r', l', B', areas', kept', ?_, ?_, ?_, ?_, ?_, ?_, fun _ _ => kept.createUvm_few positive above small done⟩
    · rintro j ⟨-, -, lower, upper⟩
      have word := words (j - ph.pVaddr / 16384) (by omega)
      rwa [show ph.pVaddr / 16384 + (j - ph.pVaddr / 16384) = j by omega] at word
    · intro π apart
      exact created.same π fun j less => apart _ ⟨positive, by omega, by omega, by omega⟩
    · exact fun e member => enlisted.old member
    · intro e member
      refine (enlisted.new member).imp_right fun same => ⟨positive, ?_⟩
      rwa [same]
    · rintro low roomy ⟨j, -, -, lower, upper⟩
      have top : xusegEnd = 2 ^ 48 - 1 := rfl
      have enough := fits.mp roomy
      obtain ⟨a, made⟩ := enlisted.made (by rw [defV]; simp only; omega) (by rw [List.length_drop]; omega)
      exact ⟨(a, v), made, area⟩
    · exact fun scarce => room.resolve_right fun enough => scarce (fits.mpr enough)

theorem Kept.taskLoadSeg_loaded (kept : k.Kept root r l B areas) {ph : Phdr} (small : ph.pVaddr < 2 ^ 64)
    (short : ph.pFilesz < 2 ^ 64) (done : k.taskLoadSegKmem addr ph = .ok (0, k')) :
    ∃ r' l' B' areas', k'.Kept root r' l' B' areas' ∧ SegLoaded k r r' areas areas' ph ∧ ph.pVaddr ≤ xusegEnd := by
  rw [taskLoadSegKmem] at done
  obtain ⟨⟨ret, k₁⟩, create, done⟩ := Res.bind_eq_ok.mp done
  simp only at done
  split_ifs at done with failed
  · exact absurd (Prod.mk.inj (Except.ok.inj done)).1 failed
  obtain rfl : ret = 0 := not_not.mp failed
  obtain ⟨⟨ret, k₂⟩, copy, done⟩ := Res.bind_eq_ok.mp done
  simp only at done
  split_ifs at done with zero
  · obtain ⟨-, rfl⟩ := Prod.mk.inj (Except.ok.inj done)
    obtain ⟨r', l', B', areas', kept₁, loaded⟩ := kept.createUvm_loaded small create
    obtain ⟨-, -, kept₂, low⟩ := kept₁.copyToUvm small short copy
    exact ⟨r', l', B', areas', kept₂, loaded, low zero⟩
  · obtain ⟨⟨undone, k₃⟩, -, done⟩ := Res.bind_eq_ok.mp done
    simp only at done
    split_ifs at done
    exact absurd (Prod.mk.inj (Except.ok.inj done)).1 zero

end Mm

/-- What the headers leave when the loop has passed them. -/
structure HeadersLoaded (addr : Nat) (k : Mm) (hs : List Phdr) (r r' : PageMem.Dirs) (areas areas' : List (Nat × VmArea)) :
    Prop where
  low : ∀ ph ∈ hs, ph.pType = ptLoad → ph.pVaddr ≤ xusegEnd
  counted : ∀ ph ∈ hs, ph.Loads → 16384 ≤ ph.pVaddr → nrPagesSpanned ph.pVaddr ph.pMemsz % 2 ^ 32 ≤ intMax
  mapped : ∀ ph ∈ hs, ph.pType = ptLoad → ∀ j, MappedFor ph.pVaddr ph.pMemsz j → r'.leaf (path (16384 * j)) ≠ none
  remain : ∀ π, r.leaf π ≠ none → r'.leaf π ≠ none
  words : ∀ π w, r'.leaf π = some w → r.leaf π = some w ∨ ∃ ph ∈ hs, ph.pType = ptLoad ∧
    ∃ j, MappedFor ph.pVaddr ph.pMemsz j ∧ path (16384 * j) = π ∧ w.2 = pagePerm (elfToVmaflags ph.pFlags)
  old : ∀ e ∈ areas, e ∈ areas'
  new : ∀ e ∈ areas', e ∈ areas ∨ ∃ ph ∈ hs, ph.Loads ∧ ph.HasArea e.2
  fit : AreasFit addr hs k → ∀ ph ∈ hs, ph.Loads → (∃ j, MappedFor ph.pVaddr ph.pMemsz j) → ∃ e ∈ areas', ph.HasArea e.2
  found : SharesNone hs → (∀ ph ∈ hs, ph.Loads → ∃ e ∈ areas', e ∉ areas ∧ ph.HasArea e.2) → AreasFit addr hs k

namespace HeadersLoaded

open PageMem

variable {addr : Nat} {k k₁ : Mm} {ph : Phdr} {hs : List Phdr} {r r₁ r' : Dirs} {areas areas₁ areas' : List (Nat × VmArea)}

theorem nil : HeadersLoaded addr k [] r r areas areas where
  low _ member := by cases member
  counted _ member := by cases member
  mapped _ member := by cases member
  remain _ some := some
  words _ _ found := .inl found
  old _ member := member
  new _ member := .inl member
  fit _ _ member := by cases member
  found _ _ := trivial

/-- A header that is not loaded leaves everything as it is. -/
theorem skip (other : ph.pType ≠ ptLoad) (rest : HeadersLoaded addr k hs r r' areas areas') :
    HeadersLoaded addr k (ph :: hs) r r' areas areas' := by
  have behind : ∀ {p : Phdr}, p ∈ ph :: hs → p.pType = ptLoad → p ∈ hs := by
    intro p member type
    rcases List.mem_cons.mp member with rfl | inside
    · exact absurd type other
    · exact inside
  have fits : AreasFit addr (ph :: hs) k ↔ AreasFit addr hs k := by
    rw [AreasFit, if_neg other]
  refine ⟨fun p member type => rest.low p (behind member type) type,
    fun p member loads => rest.counted p (behind member loads.1) loads, fun p member type => rest.mapped p (behind member type) type, rest.remain, fun π w found => ?_, rest.old,
    fun e member => ?_, fun fit p member loads => rest.fit (fits.mp fit) p (behind member loads.1) loads, fun none every => ?_⟩
  · refine (rest.words π w found).imp_right ?_
    rintro ⟨p, member, word⟩
    exact ⟨p, List.mem_cons_of_mem _ member, word⟩
  · refine (rest.new e member).imp_right ?_
    rintro ⟨p, member, area⟩
    exact ⟨p, List.mem_cons_of_mem _ member, area⟩
  · exact fits.mpr (rest.found (List.pairwise_cons.mp none).2 fun p member => every p (List.mem_cons_of_mem _ member))

/-- Two segments that share no page have different areas. -/
theorem distinct {other : Phdr} {v : VmArea} (loads : ph.Loads) (loads' : other.Loads)
    (apart : ∀ j, ph.HasPage j → ¬ other.HasPage j) (area : ph.HasArea v) (area' : other.HasArea v) : False := by
  have first : ph.pVaddr / 16384 = other.pVaddr / 16384 := by
    have left := area.start
    have right := area'.start
    omega
  have size := loads.2
  have size' := loads'.2
  exact apart (ph.pVaddr / 16384) ⟨loads, le_rfl, by omega⟩ ⟨loads', by omega, by omega⟩

/-- A segment, and then the other headers. -/
theorem cons (type : ph.pType = ptLoad) (load : k.taskLoadSegKmem addr ph = .ok (0, k₁))
    (first : Mm.SegLoaded k r r₁ areas areas₁ ph) (low : ph.pVaddr ≤ xusegEnd) (rest : HeadersLoaded addr k₁ hs r₁ r' areas₁ areas') :
    HeadersLoaded addr k (ph :: hs) r r' areas areas' := by
  have fits : AreasFit addr (ph :: hs) k ↔ (ph.pMemsz ≠ 0 → k.RoomFor ph) ∧ AreasFit addr hs k₁ := by
    rw [AreasFit, if_pos type]
    refine and_congr_right fun _ => ⟨fun all => all k₁ load, fun fit k' same => ?_⟩
    rw [load] at same
    obtain ⟨-, rfl⟩ := Prod.mk.inj (Except.ok.inj same)
    exact fit
  refine ⟨?_, ?_, ?_, fun π some => ?_, fun π w found => ?_, fun e member => rest.old e (first.old e member), fun e member => ?_,
    fun fit p member loads some => ?_, fun none every => ?_⟩
  · exact List.forall_mem_cons.mpr ⟨fun _ => low, rest.low⟩
  · exact List.forall_mem_cons.mpr ⟨fun loads => first.counted loads.2, rest.counted⟩
  · refine List.forall_mem_cons.mpr ⟨fun _ j mapped => ?_, rest.mapped⟩
    obtain ⟨q, word⟩ := first.mapped j mapped
    exact rest.remain _ (by rw [word]; exact Option.some_ne_none _)
  · refine rest.remain π ?_
    by_cases mine : ∃ j, MappedFor ph.pVaddr ph.pMemsz j ∧ path (16384 * j) = π
    · obtain ⟨j, mapped, rfl⟩ := mine
      obtain ⟨q, word⟩ := first.mapped j mapped
      rw [word]
      exact Option.some_ne_none _
    · rwa [first.same π fun j mapped here => mine ⟨j, mapped, here⟩]
  · rcases rest.words π w found with early | ⟨p, member, word⟩
    · by_cases mine : ∃ j, MappedFor ph.pVaddr ph.pMemsz j ∧ path (16384 * j) = π
      · obtain ⟨j, mapped, rfl⟩ := mine
        obtain ⟨q, word⟩ := first.mapped j mapped
        rw [word] at early
        refine .inr ⟨ph, List.mem_cons_self .., type, j, mapped, rfl, ?_⟩
        rw [← Option.some.inj early]
      · rw [first.same π fun j mapped here => mine ⟨j, mapped, here⟩] at early
        exact .inl early
    · exact .inr ⟨p, List.mem_cons_of_mem _ member, word⟩
  · rcases rest.new e member with early | ⟨p, inside, area⟩
    · refine (first.new e early).imp_right fun area => ?_
      exact ⟨ph, List.mem_cons_self .., ⟨type, area.1⟩, area.2⟩
    · exact .inr ⟨p, List.mem_cons_of_mem _ inside, area⟩
  · obtain ⟨room, later⟩ := fits.mp fit
    rcases List.mem_cons.mp member with rfl | inside
    · obtain ⟨e, made, area⟩ := first.fit low (room loads.2) some
      exact ⟨e, rest.old e made, area⟩
    · exact rest.fit later p inside loads some
  · obtain ⟨apart, none⟩ := List.pairwise_cons.mp none
    refine fits.mpr ⟨fun size => ?_, rest.found none fun p member loads => ?_⟩
    · -- without room the area would be that of a later segment
      by_contra scarce
      obtain ⟨e, member, fresh, area⟩ := every ph (List.mem_cons_self ..) ⟨type, size⟩
      rcases rest.new e member with early | ⟨p, inside, loads, area'⟩
      · rw [first.scarce scarce] at early
        exact fresh early
      · exact distinct ⟨type, size⟩ loads (apart p inside) area area'
    · obtain ⟨e, made, fresh, area⟩ := every p (List.mem_cons_of_mem _ member) loads
      refine ⟨e, made, fun early => ?_, area⟩
      rcases first.new e early with older | ⟨size, area'⟩
      · exact fresh older
      · exact distinct ⟨type, size⟩ loads (apart p member) area' area

variable {root : Nat} {k' : Mm} {l' : List Nat} {B' : Heap.Slabs}

/-- Every entry of a table that was empty is one of a segment. -/
theorem entry (loaded : HeadersLoaded addr k hs r r' areas areas') (kept' : k'.Kept root r' l' B' areas')
    (bare : ∀ π, r.leaf π = none) {v : Nat} (present : k'.heap.pm.tableEntry k'.pgd v ≠ 0) :
    ∃ q, ∃ ph ∈ hs, ph.pType = ptLoad ∧ ∃ j, MappedFor ph.pVaddr ph.pMemsz j ∧ path (16384 * j) = path v ∧
      k'.heap.pm.tableEntry k'.pgd v = k'.heap.pm.leafWord (q, pagePerm (elfToVmaflags ph.pFlags)) := by
  rw [kept'.pgd] at present ⊢
  obtain ⟨w, found⟩ := (tableEntry_ne_zero kept'.space.tree kept'.space.rooted).mp present
  rcases loaded.words _ w found with old | ⟨ph, member, type, j, mapped, here, perm⟩
  · rw [bare] at old
    cases old
  · refine ⟨w.1, ph, member, type, j, mapped, here, ?_⟩
    rw [tableEntry_spec kept'.space.tree kept'.space.rooted, found, Option.elim_some, ← perm]

end HeadersLoaded

namespace ExecTask

open PageMem

variable {t t' : ExecTask} {root addr : Nat} {r : Dirs} {l : List Nat} {B : Heap.Slabs} {areas : List (Nat × VmArea)}
variable {hs : List Phdr}

/-- One round of the loop over the headers. -/
theorem loadLoop_cons {ph : Phdr} (done : loadLoop addr (ph :: hs) t = .ok (0, t')) :
    ∃ mm, loadLoop addr hs ⟨mm, if t.progtop < ph.top then ph.top else t.progtop⟩ = .ok (0, t') ∧
      (ph.pType = ptLoad ∧ t.mm.taskLoadSegKmem addr ph = .ok (0, mm) ∨ ph.pType ≠ ptLoad ∧ mm = t.mm) := by
  rw [loadLoop] at done
  by_cases type : ph.pType = ptLoad
  · rw [if_pos type] at done
    obtain ⟨⟨ret, mm⟩, load, done⟩ := Res.bind_eq_ok.mp done
    simp only at done
    by_cases failed : ret ≠ 0
    · rw [if_pos failed] at done
      exact absurd (Prod.mk.inj (Except.ok.inj done)).1 failed
    · rw [if_neg failed] at done
      obtain rfl : ret = 0 := not_not.mp failed
      exact ⟨mm, done, .inl ⟨type, load⟩⟩
  · rw [if_neg type] at done
    exact ⟨t.mm, done, .inr ⟨type, rfl⟩⟩

theorem loadLoop_loaded (kept : t.mm.Kept root r l B areas) (small : ∀ ph ∈ hs, ph.pVaddr < 2 ^ 64 ∧ ph.pFilesz < 2 ^ 64)
    (done : loadLoop addr hs t = .ok (0, t')) :
    ∃ r' l' B' areas', t'.mm.Kept root r' l' B' areas' ∧ HeadersLoaded addr t.mm hs r r' areas areas' := by
  induction hs generalizing t r l B areas with
  | nil =>
    obtain ⟨-, rfl⟩ := Prod.mk.inj (Except.ok.inj done)
    exact ⟨r, l, B, areas, kept, .nil⟩
  | cons ph hs ih =>
    obtain ⟨bound, short⟩ := small ph (List.mem_cons_self ..)
    have others := fun other member => small other (List.mem_cons_of_mem _ member)
    obtain ⟨mm, done, ⟨type, load⟩ | ⟨type, rfl⟩⟩ := loadLoop_cons done
    · obtain ⟨r₁, l₁, B₁, areas₁, kept₁, first, low⟩ := kept.taskLoadSeg_loaded bound short load
      obtain ⟨r', l', B', areas', kept', rest⟩ := ih kept₁ others done
      exact ⟨r', l', B', areas', kept', .cons type load first low rest⟩
    · obtain ⟨r', l', B', areas', kept', rest⟩ :=
        @ih ⟨t.mm, if t.progtop < ph.top then ph.top else t.progtop⟩ _ _ _ _ kept others done
      exact ⟨r', l', B', areas', kept', .skip type rest⟩

theorem phdrs_small (image : ByteMem) (a size n off : Nat) :
    ∀ ph ∈ phdrs image a size n off, ph.pVaddr < 2 ^ 64 ∧ ph.pFilesz < 2 ^ 64 := by
  induction n generalizing off with
  | zero => simp [phdrs]
  | succ n ih =>
    rw [phdrs, List.forall_mem_cons]
    exact ⟨⟨image.load_lt _ 8, image.load_lt _ 8⟩, ih _⟩

/-- The headers that `task_load_elf_kmem` reads. -/
def headersOf (image : ByteMem) (a : Nat) : List Phdr :=
  phdrs image a (elfHdrAt image a).ePhentsize (elfHdrAt image a).ePhnum (elfHdrAt image a).ePhoff

/-- A successful load passes all headers and rounds the program top. -/
theorem taskLoadElf_loop {image : ByteMem} {entry e : Nat} (done : t.taskLoadElfKmem image addr entry = .ok (0, e, t')) :
    ∃ t₁, loadLoop addr (headersOf image addr) t = .ok (0, t₁) ∧
      t' = ⟨t₁.mm, (pow2Roundup t₁.progtop pgshift + pgsize) % 2 ^ 64⟩ := by
  rw [taskLoadElfKmem] at done
  simp only at done
  split_ifs at done with magic format sizes
  · exact absurd (Prod.mk.inj (Except.ok.inj done)).1 (by decide)
  · exact absurd (Prod.mk.inj (Except.ok.inj done)).1 (by decide)
  · exact absurd (Prod.mk.inj (Except.ok.inj done)).1 (by decide)
  obtain ⟨⟨ret, t₂⟩, load, done⟩ := Res.bind_eq_ok.mp done
  obtain ⟨rfl, same⟩ := Prod.mk.inj (Except.ok.inj done)
  obtain ⟨-, rfl⟩ := Prod.mk.inj same
  rw [taskLoadSegsKmem] at load
  obtain ⟨⟨ret, t₁⟩, loop, load⟩ := Res.bind_eq_ok.mp load
  simp only at load
  split_ifs at load with zero
  · obtain rfl := zero
    obtain ⟨-, rfl⟩ := Prod.mk.inj (Except.ok.inj load)
    exact ⟨t₁, loop, rfl⟩
  · obtain ⟨mm, -, load⟩ := Res.bind_eq_ok.mp load
    exact absurd (Prod.mk.inj (Except.ok.inj load)).1 zero

theorem taskLoadElf_loaded {image : ByteMem} {entry e : Nat} (kept : t.mm.Kept root r l B areas)
    (done : t.taskLoadElfKmem image addr entry = .ok (0, e, t')) :
    ∃ r' l' B' areas', t'.mm.Kept root r' l' B' areas' ∧
      HeadersLoaded addr t.mm (headersOf image addr) r r' areas areas' := by
  obtain ⟨t₁, loop, rfl⟩ := taskLoadElf_loop done
  obtain ⟨r', l', B', areas', kept', loaded⟩ := loadLoop_loaded kept (phdrs_small _ _ _ _ _) loop
  exact ⟨r', l', B', areas', kept', loaded⟩

end ExecTask

end Xv6
