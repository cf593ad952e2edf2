import Xv6.ExecSpec
import Xv6.SnprintfFormat
import Xv6.VmServed
import Xv6.Write

namespace Xv6

/-- A string is read up to its first NUL. -/
theorem cString_eq {m : ByteMem} {a n j : Nat} (inside : j < n) (text : ∀ i < j, m (a + i) ≠ 0) (nul : m (a + j) = 0) :
    cString m n a = .ok ((List.range j).map fun i => m (a + i)) := by
  induction n generalizing a j with
  | zero => omega
  | succ n ih =>
    rw [cString]
    cases j with
    | zero =>
      rw [Nat.add_zero] at nul
      rw [if_pos nul]
      rfl
    | succ j =>
      have first := text 0 (by omega)
      rw [Nat.add_zero] at first
      have rest := @ih (a + 1) j (by omega) (fun i less => by
        rw [Nat.add_right_comm, Nat.add_assoc]
        exact text (i + 1) (by omega)) (by
        rw [Nat.add_right_comm, Nat.add_assoc]
        exact nul)
      rw [if_neg first, rest, List.range_succ_eq_map, List.map_cons, List.map_map, Nat.add_zero]
      simp only [Function.comp_def, Nat.succ_eq_add_one, Nat.add_comm 1, Nat.add_assoc]
      rfl

theorem expand_string (ap : VaList) : expand [ch '%', ch 's'] ap = ((ap 0).str, .ok ()) := by
  have scanned : scanAll [ch '%', ch 's'] (.start ap) = ((ap 0).str, .ok (.start ap.rest)) := (scanAll_item .str ap).1 trivial
  rw [expand, expandFrom, scanned]
  rfl

/-- A string is printed whole. When it fills the buffer but for its NUL, the size is returned. -/
theorem printk_string {stack : Nat → UInt8} {ap : VaList} {text : List UInt8} (string : (ap 0).str = text)
    (room : text.length < bufsiz) (plain : ∀ c ∈ text, c ≠ 0) :
    printk stack [ch '%', ch 's'] ap = .ok (if text.length + 1 = bufsiz then (bufsiz : Int) else text.length, text) := by
  have expands : expand [ch '%', ch 's'] ap = (text, .ok ()) := by rw [expand_string, string]
  have size : bufsiz = 1024 := rfl
  have prints : vsnprintf stack bufsiz [ch '%', ch 's'] ap =
      .ok (if text.length + 1 = bufsiz then (bufsiz : Int) else text.length, printed stack text) := by
    split_ifs with full
    · have cut := @vsnprintf_cut stack _ _ _ _ expands (show 1 ≤ bufsiz by decide) (by omega)
      rw [List.take_of_length_le (by omega)] at cut
      exact cut
    · rw [vsnprintf_fits expands (by omega), wordInt_eq.mpr (by omega)]
  have puts : promPuts (printed stack text) = .ok text := by
    have read := @cString_eq (printed stack text) 0 bufsiz text.length room (fun i inside => by
      rw [Nat.zero_add, printed_text inside, List.getD_eq_getElem _ _ inside]
      exact plain _ (List.getElem_mem inside)) (by
      rw [Nat.zero_add]
      exact printed_nul)
    rw [promPuts, read]
    congr 1
    refine List.ext_getElem (by rw [List.length_map, List.length_range]) fun i left right => ?_
    rw [List.getElem_map, List.getElem_range, Nat.zero_add, printed_text right, List.getD_eq_getElem _ _ right]
  have early : earlyPrintk ≠ 0 := by decide
  rw [printk, if_pos early, promVprintk, prints, Res.ok_bind]
  simp only [puts, Res.ok_bind]

namespace Mm

open PageMem

variable {k : Mm} {root u kv len x : Nat} {r : Dirs} {l : List Nat}

/-- What the user reads is in the page that the table has. -/
theorem userRead_eq (space : SpaceKept root k.heap.pm r l) (pgd : k.pgd = k.heap.pm.pageToKvaddr root)
    (base : k.heap.pm.highmemBasePfn ≠ 0) (v : Nat) :
    k.userRead v = (entry r (v / 16384)).map fun p => k.heap.pm.mem (k.heap.pm.pageToKvaddr p + v % 16384) := by
  have lookup := uvaddrToKvaddr_spec space.tree space.rooted (v := v) fun p _ => by
    rw [pageToPfn]
    omega
  rw [← pgd] at lookup
  rw [userRead, lookup]
  cases found : entry r (v / 16384) with
  | none => rfl
  | some p =>
    have nonzero : k.heap.pm.userByte r v ≠ 0 := SlabRun.address_ne_zero
    rw [Option.elim_some, if_neg nonzero, userByte, found]
    rfl

/-- Copying from the user into a part of a slab. -/
theorem copyFromUvm_spec (space : SpaceKept root k.heap.pm r l) (pgd : k.pgd = k.heap.pm.pageToKvaddr root)
    (base : k.heap.pm.highmemBasePfn ≠ 0) (slab : SlabPage k.heap.pm x) (low : k.heap.pm.pageToKvaddr x ≤ kv)
    (high : kv + len ≤ k.heap.pm.pageToKvaddr x + 16384) (accepted : u ≤ xusegEnd) (positive : 1 ≤ len) (short : len ≤ pgsize) :
    ∃ ret m, k.copyFromUvm u kv len = .ok (ret, k.setPm { k.heap.pm with mem := m }) ∧
      (∀ y, y < kv ∨ kv + len ≤ y → m y = k.heap.pm.mem y) ∧ ((∃ i < len, k.userRead (u + i) = none) → ret ≠ 0) ∧
      ((∀ i < len, k.userRead (u + i) ≠ none) → ret = 0 ∧ ∀ i < len, k.userRead (u + i) = some (m (kv + i))) := by
  have limit : xusegEnd < 2 ^ 48 := by decide
  have page : pgsize = 16384 := rfl
  have users := space.userMap fun π w _ => by
    rw [pageToPfn]
    omega
  have buffer : BufferApart k.heap.pm (userPages r) r kv len := by
    have apart (p : Nat) (other : p ≠ x) : kv + len ≤ k.heap.pm.pageToKvaddr p ∨ k.heap.pm.pageToKvaddr p + 16384 ≤ kv := by
      rw [pageToKvaddr_eq] at low high ⊢
      omega
    refine ⟨fun j p found => apart p ?_, fun d owned => apart d ?_⟩
    · rintro rfl
      rw [userPages] at found
      split_ifs at found
      obtain ⟨w, leaf, rfl⟩ := Option.map_eq_some_iff.mp found
      exact slab.not_held (space.held _ w leaf)
    · rintro rfl
      exact slab.not_dir (space.owned_dir owned)
  obtain ⟨served, refused, m, result, copied⟩ := copyUvm_spec users buffer accepted positive (by omega) false
  rw [← pgd] at served refused result
  have read := userRead_eq space pgd base
  have entries (i : Nat) : k.userRead (u + i) = none ↔ entry r ((u + i) / 16384) = none := by
    rw [read, Option.map_eq_none_iff]
  have notNull : ¬ (u ≤ xusegEnd ∧ nrPagesSpanned u len ≠ 0 ∧
      (k.pgd = 0 ∨ kv = 0 ∧ k.heap.pm.uvaddrToKvaddr k.pgd u ≠ 0)) := by
    rintro ⟨-, -, none | ⟨none, -⟩⟩
    · rw [pgd] at none
      exact k.heap.pm.kvaddr_pos root none
    · rw [none] at low
      exact k.heap.pm.kvaddr_pos x (Nat.le_zero.mp low)
  have fits : ¬ ((k.heap.pm.copyUvm k.pgd u kv len false).1 = 0 ∧ nrPagesSpanned u len = 1 ∧ pgsize < len) := fun long =>
    Nat.not_lt.mpr short long.2.2
  refine ⟨(k.heap.pm.copyUvm k.pgd u kv len false).1, m, ?_, fun y outside => ?_, ?_, fun all => ?_⟩
  · rw [Mm.copyFromUvm, if_neg notNull, PageMem.copyFromUvm]
    simp only [if_neg fits, result]
  · refine copied.frame y fun v lower upper _ => ?_
    simp only [copyDst, Bool.false_eq_true, if_false, bufferByte]
    omega
  · rintro ⟨i, inside, none⟩
    rw [refused ⟨u + i, by omega, by omega, (entries i).mp none⟩]
    decide
  · have mapped : ∀ w, u ≤ w → w < u + len → entry r (w / 16384) ≠ none := by
      intro w above below none
      obtain ⟨i, rfl⟩ := Nat.exists_eq_add_of_le above
      exact all i (by omega) ((entries i).mpr none)
    refine ⟨served mapped, fun i inside => ?_⟩
    have value := copied.value (u + i) (by omega) (by omega)
      (fun j lower upper => by
        have bytes := mapped (max u (16384 * j)) (by omega) (by omega)
        rwa [show max u (16384 * j) / 16384 = j by omega] at bytes)
      (fun w after _ _ => by
        simp only [copyDst, Bool.false_eq_true, if_false, bufferByte]
        omega)
    simp only [copyDst, copySrc, Bool.false_eq_true, if_false, bufferByte, Nat.add_sub_cancel_left] at value
    obtain ⟨p, found⟩ := Option.ne_none_iff_exists'.mp (mapped (u + i) (by omega) (by omega))
    rw [value, read, found, userByte, found]
    rfl

variable {buf kbuf : Nat} {fd : Int} {stack : Nat → UInt8}

/-- The number of characters that are printed. -/
structure PrintedAt (k : Mm) (buf j : Nat) : Prop where
  room : j < bufsiz
  text : ∀ i < j, k.userRead (buf + i) ≠ some 0
  ends : j + 1 = bufsiz ∨ k.userRead (buf + j) = some 0

theorem exists_printedAt (k : Mm) (buf : Nat) : ∃ j, k.PrintedAt buf j := by
  have size : bufsiz = 1024 := rfl
  have some : ∃ j, j + 1 = bufsiz ∨ k.userRead (buf + j) = some 0 := ⟨bufsiz - 1, .inl (by omega)⟩
  have first : Nat.find some ≤ bufsiz - 1 := Nat.find_min' some (.inl (by omega))
  exact ⟨Nat.find some, by omega, fun i less nul => Nat.find_min some less (.inr nul), Nat.find_spec some⟩

theorem PrintedAt.le {i j : Nat} (left : k.PrintedAt buf i) (right : k.PrintedAt buf j) : i ≤ j := by
  by_contra less
  have room := left.room
  rcases right.ends with full | nul
  · omega
  · exact left.text j (by omega) nul

/-- What is printed: all in front of the NUL. -/
def printedResult (k : Mm) (buf j : Nat) : WriteResult :=
  ⟨0, if j + 1 = bufsiz then bufsiz else j, (List.range j).map fun i => (k.userRead (buf + i)).getD 0⟩

/-- The `switch` for a terminal: nothing is printed, or the string in the buffer. -/
theorem writeFd_spec (space : SpaceKept root k.heap.pm r l) (pgd : k.pgd = k.heap.pm.pageToKvaddr root)
    (base : k.heap.pm.highmemBasePfn ≠ 0) (slab : SlabPage k.heap.pm x) (low : k.heap.pm.pageToKvaddr x ≤ kbuf)
    (high : kbuf + bufsiz ≤ k.heap.pm.pageToKvaddr x + 16384) (accepted : buf ≤ xusegEnd)
    (known : fd = stdoutFileno ∨ fd = stderrFileno) :
    ∃ w m, k.writeFd stack fd buf kbuf = .ok (w, k.setPm { k.heap.pm with mem := m }) ∧
      (∀ y, y < kbuf ∨ kbuf + bufsiz ≤ y → m y = k.heap.pm.mem y) ∧
      ((∃ i < bufsiz, k.userRead (buf + i) = none) → w = ⟨-e2big, -1, []⟩) ∧
      ((∀ i < bufsiz, k.userRead (buf + i) ≠ none) → ∀ j, k.PrintedAt buf j → w = k.printedResult buf j) := by
  have size : bufsiz = 1024 := rfl
  obtain ⟨ret, m, run, frame, refused, served⟩ :=
    copyFromUvm_spec space pgd base slab low high accepted (show 1 ≤ bufsiz by decide) (show bufsiz ≤ pgsize by decide)
  by_cases all : ∀ i < bufsiz, k.userRead (buf + i) ≠ none
  · obtain ⟨rfl, value⟩ := served all
    obtain ⟨m', def'⟩ : ∃ m', m' = Function.update m (kbuf + (bufsiz - 1)) 0 := ⟨_, rfl⟩
    have last : m' (kbuf + (bufsiz - 1)) = 0 := by rw [def', Function.update_self]
    have other (y : Nat) (away : y ≠ kbuf + (bufsiz - 1)) : m' y = m y := by rw [def', Function.update_of_ne away]
    have chars (i : Nat) (early : i + 1 < bufsiz) : k.userRead (buf + i) = some (m' (kbuf + i)) := by
      rw [value i (by omega), other (kbuf + i) (by omega)]
    -- the string ends with the first NUL, or with the one that is put behind it
    obtain ⟨j, at_j⟩ := k.exists_printedAt buf
    have unique : ∀ j', k.PrintedAt buf j' → j' = j := fun j' at_j' => Nat.le_antisymm (at_j'.le at_j) (at_j.le at_j')
    obtain ⟨room, text, ends⟩ := at_j
    have string := @cString_eq m' kbuf bufsiz j room (fun i less nul => text i less (by rw [chars i (by omega), nul])) (by
      rcases ends with full | nul
      · rw [show j = bufsiz - 1 by omega]
        exact last
      · by_cases full : j + 1 = bufsiz
        · rw [show j = bufsiz - 1 by omega]
          exact last
        · rw [chars j (by omega)] at nul
          exact Option.some.inj nul)
    have bytes : ((List.range j).map fun i => m' (kbuf + i)) = (List.range j).map fun i => (k.userRead (buf + i)).getD 0 := by
      refine List.map_congr_left fun i less => ?_
      have early := List.mem_range.mp less
      rw [chars i (by omega)]
      rfl
    rw [bytes] at string
    have prints := @printk_string stack (fun _ => ⟨BitVec.ofNat 64 kbuf, (List.range j).map fun i => (k.userRead (buf + i)).getD 0⟩)
      _ rfl (by rw [List.length_map, List.length_range]; exact room) (by
        intro c member
        obtain ⟨i, less, rfl⟩ := List.mem_map.mp member
        have early := List.mem_range.mp less
        have notNul := text i early
        rw [chars i (by omega)] at notNul ⊢
        exact fun nul => notNul (congrArg some nul))
    rw [List.length_map, List.length_range] at prints
    refine ⟨k.printedResult buf j, m', ?_, fun y outside => ?_, ?_, fun _ j' at_j' => ?_⟩
    · rw [writeFd, if_pos known, maxWriteLen, run, Res.ok_bind]
      simp only [ne_eq, not_true_eq_false, if_false]
      show (cString (Function.update m (kbuf + (bufsiz - 1)) 0) bufsiz kbuf >>= fun s => _) = _
      rw [← def', string, Res.ok_bind, prints, Res.ok_bind, def']
      rfl
    · rw [other y (by omega)]
      exact frame y outside
    · rintro ⟨i, inside, none⟩
      exact absurd none (all i inside)
    · rw [unique j' at_j']
  · obtain ⟨i, inside, none⟩ : ∃ i < bufsiz, k.userRead (buf + i) = none := by
      by_contra each
      exact all fun i inside none => each ⟨i, inside, none⟩
    have failed := refused ⟨i, inside, none⟩
    refine ⟨⟨-e2big, -1, []⟩, m, ?_, frame, fun _ => rfl, fun each => absurd each all⟩
    rw [writeFd, if_pos known, maxWriteLen, run, Res.ok_bind]
    exact if_pos failed

end Mm

/-- The cache of the buffer. -/
def bufCache : Nat := 9

/-- A chunk for the buffer is free, or a page for a slab of them. -/
def Heap.HasRoom (h : Heap) : Prop := h.pm.nrFreePages ≠ 0 ∨ (h.kmcache bufCache).avail ≠ none

namespace Heap

variable {h h' : Heap} {l : List Nat} {B : Slabs}

theorem fits_bufCache : Fits bufCache maxWriteLen := by
  rw [Fits]
  decide

/-- The buffer is a chunk of a slab, or there is no room for it. -/
theorem kmalloc_buf (kept : Kept h l B) :
    (¬ h.HasRoom ∧ ∃ h', h.kmalloc 0 maxWriteLen = .ok (0, h') ∧ h'.pm = h.pm) ∨
      ∃ a h' l' B' x i, h.kmalloc 0 maxWriteLen = .ok (a, h') ∧ h.HasRoom ∧ Served h h' l l' B B' bufCache x i ∧
        Chunk h' B' a maxWriteLen bufCache x i := by
  have alloc : h.kmalloc 0 maxWriteLen = h.slabAlloc 1024 := rfl
  have size : roundup maxWriteLen kmallocAlign = 1024 := by decide
  have head : (h.kmcache bufCache).avail = (B.queue (bufCache, true)).head? := (kept.queues.isQueue (bufCache, true)).head
  obtain ⟨c, known, fits, ⟨none, bare, run⟩ | ⟨x, i, h', l', B', run, served⟩⟩ :=
    slabAlloc_spec kept (n := 1024) (by decide) (by decide) (by decide)
  all_goals obtain rfl : c = bufCache := fits.unique known (by decide) fits_bufCache
  · refine .inl ⟨?_, _, alloc.trans run, rfl⟩
    rintro (pages | chunks)
    · exact pages (by rw [kept.free.count, none, List.length_nil])
    · exact chunks (by rw [head, bare, List.head?_nil])
  · have live : B'.Live bufCache x i := (served.handed.live bufCache x i).mpr (.inr ⟨rfl, rfl, rfl⟩)
    refine .inr ⟨_, h', l', B', x, i, alloc.trans run, ?_, served, by rw [size]; exact fits, live, by rw [served.geometry.kvaddr]⟩
    rcases served.pages with ⟨-, b, member⟩ | ⟨-, rfl⟩
    · -- the chunk was free, so its slab is among the available ones
      right
      have free : i ∈ B.chain x := by
        by_contra taken
        exact served.handed.fresh ⟨⟨b, member⟩, live.2.1, taken⟩
      obtain rfl : b = true := (kept.state (bufCache, b) x member).mp (List.ne_nil_of_mem free)
      rw [head, ne_eq, List.head?_eq_none_iff]
      exact List.ne_nil_of_mem member
    · left
      rw [kept.free.count, List.length_cons]
      exact Nat.succ_ne_zero _

/-- A chunk that was written into is given back. -/
theorem Chunk.kfree_written {a n c x i : Nat} (chunk : Chunk h B a n c x i) (kept : Kept h l B) (small : n ≤ cacheSize c)
    {m : ByteMem} (frame : ∀ y, y < a ∨ a + n ≤ y → m y = h.pm.mem y) :
    ∃ h', { h with pm := { h.pm with mem := m } }.kfree a = .ok h' := by
  obtain ⟨fits, live, place⟩ := chunk
  have kept' : Kept { h with pm := { h.pm with mem := m } } l B := kept.write live fun y away => frame y (by omega)
  have chunk' : Chunk { h with pm := { h.pm with mem := m } } B a n c x i := ⟨fits, live, place⟩
  obtain ⟨⟨b, member⟩, bound, absent⟩ := live
  obtain ⟨h', -, run, -⟩ := slabFree_spec kept' member bound absent
  refine ⟨h', (chunk'.kfree kept').trans ?_⟩
  rw [place]
  exact run

end Heap

namespace Mm

open PageMem

variable {k : Mm} {root buf : Nat} {r : Dirs} {l : List Nat} {B : Heap.Slabs} {areas : List (Nat × VmArea)}
variable {fd : Int} {stack : Nat → UInt8}

/-- The allocation of the buffer changes nothing that the user reads. -/
theorem userRead_served {h' : Heap} {l' : List Nat} {B' : Heap.Slabs} {c x i : Nat} (kept : k.Kept root r l B areas)
    (base : k.heap.pm.highmemBasePfn ≠ 0) (served : Heap.Served k.heap h' l l' B B' c x i) (v : Nat) :
    userRead { k with heap := h' } v = k.userRead v := by
  have space := kept.heap.space served.kept kept.space served.geometry served.own served.agree
  have pgd : k.pgd = h'.pm.pageToKvaddr root := by rw [served.geometry.kvaddr]; exact kept.pgd
  rw [userRead_eq kept.space kept.pgd base, @userRead_eq { k with heap := h' } _ _ _ space pgd (by
    rw [show ({ k with heap := h' } : Mm).heap.pm = h'.pm from rfl, served.geometry.base]
    exact base)]
  cases found : entry r (v / 16384) with
  | none => rfl
  | some p =>
    obtain ⟨w, leaf, rfl⟩ := Option.map_eq_some_iff.mp found
    have held := kept.space.held _ w leaf
    have other : w.1 ≠ x := by
      rintro rfl
      rcases served.own with free | ⟨d, holds⟩
      · exact held.not_free kept.heap.free free
      · exact (kept.heap.slabPage holds).not_held held
    have same := (served.agree w.1 (held.not_free kept.heap.free) other).mem (k.heap.pm.pageToKvaddr w.1 + v % 16384)
      (by omega) (by omega)
    rw [Option.map_some, Option.map_some, ← same, ← served.geometry.kvaddr]

theorem userRead_none {v : Nat} : k.userRead v = none ↔ k.heap.pm.uvaddrToKvaddr k.pgd v = 0 := by
  rw [userRead]
  split
  · exact iff_of_true rfl ‹_›
  · exact iff_of_false (Option.some_ne_none _) ‹_›

/-- Without a buffer nothing is copied, and there was nothing to copy. -/
theorem copyFromUvm_null {u len : Nat} {ret : Int} {k' : Mm} (accepted : u ≤ xusegEnd) (some : nrPagesSpanned u len ≠ 0)
    (done : k.copyFromUvm u 0 len = .ok (ret, k')) : ret ≠ 0 ∧ k.heap.pm.uvaddrToKvaddr k.pgd u = 0 := by
  obtain ⟨n, count⟩ := Nat.exists_eq_succ_of_ne_zero some
  rw [Mm.copyFromUvm] at done
  split_ifs at done with wild
  have unmapped : k.heap.pm.uvaddrToKvaddr k.pgd u = 0 := by
    by_contra mapped
    exact wild ⟨accepted, some, .inr ⟨rfl, mapped⟩⟩
  have result : (k.heap.pm.copyFromUvm k.pgd u 0 len) = (-eacces, k.heap.pm) := by
    rw [PageMem.copyFromUvm, copyUvm, if_neg (not_not.mpr accepted)]
    simp only [count, Nat.succ_eq_add_one, copyLoop, if_true, unmapped]
  have failed : -eacces ≠ 0 := by decide
  rw [result] at done
  simp only [failed, false_and, if_false] at done
  obtain ⟨rfl, -⟩ := Prod.mk.inj (Except.ok.inj done)
  exact ⟨failed, unmapped⟩

/-- What `do_write` does: without room for its buffer nothing, if it returns, else it prints the string in it, or nothing. -/
theorem doWrite_spec (kept : k.Kept root r l B areas) (base : k.heap.pm.highmemBasePfn ≠ 0) (accepted : buf ≤ xusegEnd)
    (known : fd = stdoutFileno ∨ fd = stderrFileno) (len : Nat) :
    (¬ k.heap.HasRoom ∧ ∀ w k', k.doWrite stack fd buf len = .ok (w, k') →
        w = ⟨-e2big, -1, []⟩ ∧ k.userRead buf = none) ∨
      k.heap.HasRoom ∧ ∃ w k', k.doWrite stack fd buf len = .ok (w, k') ∧
        ((∃ i < bufsiz, k.userRead (buf + i) = none) → w = ⟨-e2big, -1, []⟩) ∧
        ((∀ i < bufsiz, k.userRead (buf + i) ≠ none) → ∀ j, k.PrintedAt buf j → w = k.printedResult buf j) := by
  have entered : ¬ ¬ buf ≤ xusegEnd := not_not.mpr accepted
  rcases Heap.kmalloc_buf kept.heap with ⟨bare, h', run, same⟩ | ⟨kbuf, h', l', B', x, i, run, room, served, chunk⟩
  · refine .inl ⟨bare, fun w k' done => ?_⟩
    have some : nrPagesSpanned buf maxWriteLen ≠ 0 := by
      have limit : xusegEnd < 2 ^ 48 := by decide
      have size : maxWriteLen = 1024 := rfl
      rw [nrPagesSpanned_eq (by omega) (by omega)]
      omega
    rw [doWrite, if_neg entered, run, Res.ok_bind] at done
    obtain ⟨⟨w', k₁⟩, switch, rest⟩ := Res.bind_eq_ok.mp done
    obtain ⟨heap, -, result⟩ := Res.bind_eq_ok.mp rest
    obtain ⟨rfl, -⟩ := Prod.mk.inj (Except.ok.inj result)
    rw [writeFd, if_pos known] at switch
    obtain ⟨⟨ret, k₂⟩, copied, inner⟩ := Res.bind_eq_ok.mp switch
    obtain ⟨failed, unmapped⟩ := copyFromUvm_null accepted some copied
    simp only [ne_eq, failed, not_false_eq_true, if_true] at inner
    obtain ⟨rfl, -⟩ := Prod.mk.inj (Except.ok.inj inner)
    have here : h'.pm.uvaddrToKvaddr k.pgd buf = 0 := unmapped
    rw [same] at here
    exact ⟨rfl, userRead_none.mpr here⟩
  · refine .inr ⟨room, ?_⟩
    have space := kept.heap.space served.kept kept.space served.geometry served.own served.agree
    have pgd : k.pgd = h'.pm.pageToKvaddr root := by rw [served.geometry.kvaddr]; exact kept.pgd
    have base' : h'.pm.highmemBasePfn ≠ 0 := by rw [served.geometry.base]; exact base
    have slab := served.kept.slabPage chunk.2.1.1
    have bound : i < 16 := chunk.2.1.2.1
    have place : kbuf = h'.pm.pageToKvaddr x + i * 1024 := chunk.2.2
    have size : bufsiz = 1024 := rfl
    obtain ⟨w, m, switch, frame, refused, prints⟩ := @writeFd_spec { k with heap := h' } _ _ _ _ buf kbuf fd stack space pgd base'
      slab (by rw [place]; exact Nat.le_add_right _ _) (by rw [place, size]; show h'.pm.pageToKvaddr x + i * 1024 + 1024 ≤ h'.pm.pageToKvaddr x + 16384; omega)
      accepted known
    obtain ⟨h'', freed⟩ := chunk.kfree_written served.kept (show maxWriteLen ≤ 1024 by decide) frame
    have reads := userRead_served kept base served
    simp only [reads] at refused prints
    refine ⟨w, { k with heap := h'' }, ?_, refused, fun all j at_j => ?_⟩
    · rw [doWrite, if_neg entered, run, Res.ok_bind]
      show (writeFd { k with heap := h' } stack fd buf kbuf >>= _) = _
      rw [switch, Res.ok_bind]
      show (Heap.kfree { h' with pm := { h'.pm with mem := m } } kbuf >>= _) = _
      rw [freed]
      rfl
    · have result := prints all j ⟨at_j.room, fun i less => by rw [reads]; exact at_j.text i less,
        at_j.ends.imp_right fun nul => by rw [reads]; exact nul⟩
      rw [result]
      simp only [printedResult, reads]

/-- The number of characters that the user has in front of the first NUL, or in front of the last byte of the buffer. -/
def textLength (k : Mm) (buf : Nat) : Nat := (List.range (bufsiz - 1)).findIdx fun i => k.userRead (buf + i) = some 0

theorem PrintedAt.textLength {j : Nat} (at_j : k.PrintedAt buf j) : k.textLength buf = j := by
  obtain ⟨room, text, ends⟩ := at_j
  rw [Mm.textLength]
  by_cases full : j + 1 = bufsiz
  · have size : (List.range (bufsiz - 1)).length = j := by
      rw [List.length_range]
      omega
    rw [← size, List.findIdx_eq_length]
    intro i inside
    have less := List.mem_range.mp inside
    exact decide_eq_false (text i (by omega))
  · have less : j < (List.range (bufsiz - 1)).length := by
      rw [List.length_range]
      omega
    rw [List.findIdx_eq less]
    simp only [List.getElem_range, decide_eq_true_eq, decide_eq_false_iff_not]
    exact ⟨ends.resolve_left full, text⟩

/-- What comes of a `do_write` that returns, by what the user has at `buf` when it is called. -/
def written (k : Mm) (fd : Int) (buf : Nat) : WriteResult :=
  if ¬ buf ≤ xusegEnd then ⟨-efault, -1, []⟩
  else if ¬ (fd = stdoutFileno ∨ fd = stderrFileno) then ⟨-ebadf, -1, []⟩
  else if ∀ i < bufsiz, k.userRead (buf + i) ≠ none then k.printedResult buf (k.textLength buf)
  else ⟨-e2big, -1, []⟩

theorem doWrite_written {len : Nat} {w : WriteResult} {k' : Mm} (kept : k.Kept root r l B areas)
    (base : k.heap.pm.highmemBasePfn ≠ 0) (done : k.doWrite stack fd buf len = .ok (w, k')) : w = k.written fd buf := by
  rw [written]
  by_cases accepted : buf ≤ xusegEnd
  · rw [if_neg (not_not.mpr accepted)]
    by_cases known : fd = stdoutFileno ∨ fd = stderrFileno
    · rw [if_neg (not_not.mpr known)]
      rcases @doWrite_spec _ _ _ _ _ _ _ _ stack kept base accepted known len with ⟨-, fails⟩ | ⟨-, w', k'', run, refused, prints⟩
      · obtain ⟨result, unmapped⟩ := fails w k' done
        rw [if_neg fun all => all 0 (by decide) unmapped, result]
      · obtain ⟨rfl, -⟩ := Prod.mk.inj (Except.ok.inj (run.symm.trans done))
        by_cases all : ∀ i < bufsiz, k.userRead (buf + i) ≠ none
        · obtain ⟨j, at_j⟩ := k.exists_printedAt buf
          rw [if_pos all, at_j.textLength]
          exact prints all j at_j
        · rw [if_neg all]
          refine refused ?_
          by_contra each
          exact all fun i inside none => each ⟨i, inside, none⟩
    · rw [if_pos known]
      rw [doWrite, if_neg (not_not.mpr accepted)] at done
      obtain ⟨⟨kbuf, heap⟩, -, done⟩ := Res.bind_eq_ok.mp done
      simp only [writeFd, if_neg known, Res.ok_bind] at done
      obtain ⟨heap', -, done⟩ := Res.bind_eq_ok.mp done
      exact (Prod.mk.inj (Except.ok.inj done)).1.symm
  · rw [if_pos accepted]
    rw [doWrite, if_pos accepted] at done
    exact (Prod.mk.inj (Except.ok.inj done)).1.symm

/-- `do_write` prints what the user has in front of a NUL at the end of the range, and there is room for its buffer. -/
structure Printable (k : Mm) (buf len : Nat) : Prop where
  user : buf ≤ xusegEnd
  room : k.heap.HasRoom
  mapped : ∀ i < bufsiz, k.userRead (buf + i) ≠ none
  short : len + 1 < bufsiz
  text : ∀ i < len, k.userRead (buf + i) ≠ some 0
  ends : k.userRead (buf + len) = some 0

theorem Printable.doWrite {len : Nat} (printable : k.Printable buf len) (kept : k.Kept root r l B areas)
    (base : k.heap.pm.highmemBasePfn ≠ 0) (known : fd = stdoutFileno ∨ fd = stderrFileno) (stack : Nat → UInt8) :
    ∃ k', k.doWrite stack fd buf len = .ok (⟨0, len, (List.range len).map fun i => (k.userRead (buf + i)).getD 0⟩, k') := by
  obtain ⟨user, room, mapped, short, text, ends⟩ := printable
  rcases @doWrite_spec _ _ _ _ _ _ _ _ stack kept base user known len with ⟨bare, -⟩ | ⟨-, w, k', done, -, prints⟩
  · exact absurd room bare
  · have result := prints mapped len ⟨Nat.lt_of_succ_lt short, text, .inr ends⟩
    rw [printedResult, if_neg (Nat.ne_of_lt short)] at result
    exact ⟨k', by rw [done, result]⟩

/-- When `do_write` returns 0 and the right length of what it printed, the string ended in the right place. -/
theorem printable_of_doWrite {len : Nat} {w : WriteResult} {k' : Mm} (kept : k.Kept root r l B areas)
    (base : k.heap.pm.highmemBasePfn ≠ 0) (known : fd = stdoutFileno ∨ fd = stderrFileno)
    (done : k.doWrite stack fd buf len = .ok (w, k')) (errno : w.errno = 0) (result : w.result = len)
    (length : w.out.length = len) : k.Printable buf len := by
  by_cases user : buf ≤ xusegEnd
  · rcases @doWrite_spec _ _ _ _ _ _ _ _ stack kept base user known len with ⟨-, fails⟩ | ⟨room, w', k'', done', refused, prints⟩
    · rw [(fails w k' done).1] at errno
      exact absurd errno (by decide)
    · obtain ⟨rfl, -⟩ := Prod.mk.inj (Except.ok.inj (done'.symm.trans done))
      have mapped : ∀ i < bufsiz, k.userRead (buf + i) ≠ none := by
        intro i inside none
        rw [refused ⟨i, inside, none⟩] at errno
        exact absurd errno (by decide)
      obtain ⟨j, at_j⟩ := k.exists_printedAt buf
      have same := prints mapped j at_j
      rw [same, printedResult, List.length_map, List.length_range] at length
      subst length
      rw [same, printedResult] at result
      simp only at result
      have room' := at_j.room
      have notFull : j + 1 ≠ bufsiz := by
        intro full
        rw [if_pos full] at result
        omega
      exact ⟨user, room, mapped, by omega, at_j.text, at_j.ends.resolve_left notFull⟩
  · rw [Mm.doWrite, if_pos user] at done
    obtain ⟨rfl, -⟩ := Prod.mk.inj (Except.ok.inj done)
    exact absurd errno (by decide)

/-- `do_write` prints just the bytes of the range and returns its length, and does the same in the other kernel. -/
def WritesExactly (k k₂ : Mm) (stack stack₂ : Nat → UInt8) (fd : Int) (buf len : Nat) : Prop :=
  ∃ (w : WriteResult) (k' k₂' : Mm), (List.range len).map (fun i => k.userRead (buf + i)) = w.out.map some ∧ w.errno = 0 ∧ w.result = len ∧
    k.doWrite stack fd buf len = .ok (w, k') ∧ k₂.doWrite stack₂ fd buf len = .ok (w, k₂')

variable {k₂ : Mm} {root₂ len : Nat} {r₂ : Dirs} {l₂ : List Nat} {B₂ : Heap.Slabs} {areas₂ : List (Nat × VmArea)}

/-- In two kernels whose users have the same bytes in the range, `do_write` prints just these if and only if in both
the bytes are a string with a NUL behind, in a part of the user's memory that has the size of the buffer. -/
theorem writesExactly_iff (kept : k.Kept root r l B areas) (kept₂ : k₂.Kept root₂ r₂ l₂ B₂ areas₂)
    (base : k.heap.pm.highmemBasePfn ≠ 0) (base₂ : k₂.heap.pm.highmemBasePfn ≠ 0)
    (known : fd = stdoutFileno ∨ fd = stderrFileno) (same : ∀ i < len, k.userRead (buf + i) = k₂.userRead (buf + i))
    (stack stack₂ : Nat → UInt8) :
    WritesExactly k k₂ stack stack₂ fd buf len ↔ k.Printable buf len ∧ k₂.Printable buf len := by
  constructor
  · rintro ⟨w, k', k₂', bytes, errno, result, done, done₂⟩
    have length := congrArg List.length bytes
    rw [List.length_map, List.length_map, List.length_range] at length
    exact ⟨printable_of_doWrite kept base known done errno result length.symm,
      printable_of_doWrite kept₂ base₂ known done₂ errno result length.symm⟩
  · rintro ⟨printable, printable₂⟩
    obtain ⟨k', done⟩ := printable.doWrite kept base known stack
    obtain ⟨k₂', done₂⟩ := printable₂.doWrite kept₂ base₂ known stack₂
    have bytes : (List.range len).map (fun i => (k.userRead (buf + i)).getD 0) =
        (List.range len).map fun i => (k₂.userRead (buf + i)).getD 0 := by
      refine List.map_congr_left fun i member => ?_
      rw [same i (List.mem_range.mp member)]
    rw [← bytes] at done₂
    refine ⟨_, k', k₂', ?_, rfl, rfl, done, done₂⟩
    rw [List.map_map]
    refine List.map_congr_left fun i member => ?_
    have inside := List.mem_range.mp member
    have room := printable.short
    obtain ⟨c, read⟩ := Option.ne_none_iff_exists'.mp (printable.mapped i (by omega))
    rw [Function.comp_apply, read]
    rfl

/-- What is mapped can be filled. -/
theorem Kept.fill (kept : k.Kept root r l B areas) (base : k.heap.pm.highmemBasePfn ≠ 0) {j : Nat} (mapped : entry r j ≠ none)
    (bytes : Nat → UInt8) :
    ∃ k' : Mm, k'.Kept root r l B areas ∧ k'.heap.pm.highmemBasePfn = k.heap.pm.highmemBasePfn ∧
      k'.heap.pm.nrFreePages = k.heap.pm.nrFreePages ∧ ∀ i < 16384, k'.userRead (16384 * j + i) = some (bytes i) := by
  obtain ⟨p, found⟩ := Option.ne_none_iff_exists'.mp mapped
  obtain ⟨w, leaf, rfl⟩ := Option.map_eq_some_iff.mp found
  obtain ⟨start, defStart⟩ : ∃ start, start = k.heap.pm.pageToKvaddr w.1 := ⟨_, rfl⟩
  obtain ⟨m, defM⟩ : ∃ m : ByteMem, m = fun y => if start ≤ y ∧ y < start + 16384 then bytes (y - start) else k.heap.pm.mem y :=
    ⟨_, rfl⟩
  have written : Written k.heap.pm r m := by
    intro y changed
    refine ⟨_, w, leaf, ?_⟩
    rw [InPage, ← defStart]
    by_contra outside
    exact changed (by rw [defM]; exact if_neg outside)
  have kept' : (k.setPm { k.heap.pm with mem := m }).Kept root r l B areas :=
    kept.setPm (kept.space.write written) ⟨rfl, rfl⟩ fun x slab => written.agree kept.space slab.not_held
  refine ⟨_, kept', rfl, rfl, fun i inside => ?_⟩
  rw [userRead_eq kept'.space kept'.pgd base, show (16384 * j + i) / 16384 = j by omega, found, Option.map_some]
  show some (m (k.heap.pm.pageToKvaddr w.1 + (16384 * j + i) % 16384)) = _
  rw [← defStart, defM, show (16384 * j + i) % 16384 = i by omega]
  simp only [Nat.le_add_right, Nat.add_lt_add_left inside, and_self, if_true, Nat.add_sub_cancel_left]

/-- A page of the user with two characters and a NUL. -/
theorem userHi : ∃ (k : Mm) (root : Nat) (r : Dirs) (l : List Nat) (B : Heap.Slabs) (areas : List (Nat × VmArea)),
    k.Kept root r l B areas ∧ k.heap.pm.highmemBasePfn ≠ 0 ∧ k.heap.HasRoom ∧
      ∀ i < 16384, k.userRead (0x4000 + i) = some ([ch 'h', ch 'i'].getD i 0) := by
  obtain ⟨k, root, l, B, new, table, kept, room⟩ := Mm.smallNew
  obtain ⟨k', r', l', B', a, done, kept', -, pages, room', -⟩ := kept.createUvm_last (m := 1) (n := 1) .nil (.single root) 0
    le_rfl (by decide) (by decide) (by decide) (by simp) (by omega)
  obtain ⟨_, _, _, _, -, created⟩ := kept.createUvm_done (by decide) (by decide) (by decide) done
  have base : k'.heap.pm.highmemBasePfn ≠ 0 := by
    rw [created.geometry.base, (mmNew_geometry smallHeap_kept smallHeap_phys new table).base]
    decide
  have mapped : entry r' 1 ≠ none := by
    rw [entry, ne_eq, Option.map_eq_none_iff, ← ne_eq, pages.mapped 1 (by decide)]
    exact ⟨_, List.mem_append_right _ (List.mem_singleton_self _), Nat.le_refl _, Nat.mul_lt_mul_of_pos_left (by decide) (by decide)⟩
  obtain ⟨k'', kept'', same, free, bytes⟩ := kept'.fill base mapped ([ch 'h', ch 'i'].getD · 0)
  refine ⟨k'', root, r', l', B', _, kept'', same ▸ base, .inl ?_, bytes⟩
  rw [free, kept'.heap.free.count]
  omega

/-- The two characters are printed. -/
theorem writesExactly_hi : ∃ (k : Mm) (stack : Nat → UInt8), WritesExactly k k stack stack stdoutFileno 0x4000 2 := by
  obtain ⟨k, root, r, l, B, areas, kept, base, room, bytes⟩ := userHi
  have printable : k.Printable 0x4000 2 := by
    refine ⟨by decide, room, fun i inside => ?_, by decide, fun i inside => ?_, bytes 2 (by decide)⟩
    · have size : bufsiz = 1024 := rfl
      rw [bytes i (by omega)]
      exact Option.some_ne_none _
    · rw [bytes i (by omega)]
      have both : ∀ i < 2, some ([ch 'h', ch 'i'].getD i 0) ≠ some 0 := by decide
      exact both i inside
  exact ⟨k, fun _ => 0, (writesExactly_iff kept kept base base (.inl rfl) (fun _ _ => rfl) _ _).mpr ⟨printable, printable⟩⟩

/-- With the length 1 they are printed, too. -/
theorem not_writesExactly : ¬ ∀ (k k₂ : Mm) (root root₂ : Nat) (r r₂ : Dirs) (l l₂ : List Nat) (B B₂ : Heap.Slabs)
    (areas areas₂ : List (Nat × VmArea)) (fd : Int) (buf len : Nat) (stack stack₂ : Nat → UInt8),
    k.Kept root r l B areas → k₂.Kept root₂ r₂ l₂ B₂ areas₂ → k.heap.pm.highmemBasePfn ≠ 0 → k₂.heap.pm.highmemBasePfn ≠ 0 →
    k.heap.HasRoom → k₂.heap.HasRoom → fd = stdoutFileno ∨ fd = stderrFileno → len ≤ 1024 → buf + len ≤ xusegEnd + 1 →
    (∀ i < len, k.userRead (buf + i) ≠ none) → (∀ i < len, k.userRead (buf + i) = k₂.userRead (buf + i)) →
    WritesExactly k k₂ stack stack₂ fd buf len := by
  intro always
  obtain ⟨k, root, r, l, B, areas, kept, base, room, bytes⟩ := userHi
  have size : bufsiz = 1024 := rfl
  obtain ⟨w, k', -, text, errno, result, done, -⟩ := always k k root root r r l l B B areas areas stdoutFileno 0x4000 1 (fun _ => 0) (fun _ => 0)
    kept kept base base room room (.inl rfl) (by decide) (by decide)
    (fun i inside => by rw [bytes i (by omega)]; exact Option.some_ne_none _) fun _ _ => rfl
  have length := congrArg List.length text
  rw [List.length_map, List.length_map, List.length_range] at length
  have ends := (printable_of_doWrite kept base (.inl rfl) done errno result length.symm).ends
  rw [bytes 1 (by decide)] at ends
  exact absurd (Option.some.inj ends) (by decide)

end Mm

end Xv6
