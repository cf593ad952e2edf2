import Xv6.PageTableSpec

namespace Xv6

def xusegEnd : Nat := 0x0000ffffffffffff

namespace PageMem

/-- `UVADDR_TO_KVADDR` -/
def uvaddrToKvaddr (s : PageMem) (pgd uvaddr : Nat) : Nat :=
  let pfn := s.archMmGetPfn pgd uvaddr
  if pfn = 0 then 0 else (pfn <<< pgshift) + kernbase + pageOff uvaddr

/-- The loop of `copy_uvm`, with `n` pages to go. -/
def copyLoop (s : PageMem) (pgd uvaddr len nrPages : Nat) (toUser : Bool) : Nat → Nat → Nat → Nat → Int × PageMem
  | 0, _, _, _ => (0, s)
  | n + 1, i, stop, kvaddr =>
    let start := if i = 0 then uvaddr else stop
    let stop := if i = nrPages - 1 then (uvaddr + len) % 2 ^ 64 else pgend start
    let kuvaddr := s.uvaddrToKvaddr pgd start
    if kuvaddr = 0 then (-eacces, s)
    else
      let size := (stop + 2 ^ 64 - start) % 2 ^ 64
      let mem := if toUser then s.mem.copyFrom s.mem kuvaddr kvaddr size else s.mem.copyFrom s.mem kvaddr kuvaddr size
      copyLoop { s with mem := mem } pgd uvaddr len nrPages toUser n (i + 1) stop (kvaddr + size)

/-- `copy_uvm` -/
def copyUvm (s : PageMem) (pgd uvaddr kvaddr len : Nat) (toUser : Bool) : Int × PageMem :=
  if ¬ uvaddr ≤ xusegEnd then (-efault, s)
  else
    let nrPages := nrPagesSpanned uvaddr len
    s.copyLoop pgd uvaddr len nrPages toUser nrPages 0 0 kvaddr

def copyToUvm (s : PageMem) (pgd uvaddr kvaddr len : Nat) : Int × PageMem := s.copyUvm pgd uvaddr kvaddr len true

def copyFromUvm (s : PageMem) (pgd uvaddr kvaddr len : Nat) : Int × PageMem := s.copyUvm pgd uvaddr kvaddr len false

/-- The page that the table has for a virtual page number. -/
def entry (r : Dirs) (k : Nat) : Option Nat := (r.leaf (path (16384 * k))).map Prod.fst

/-- The table reads 33 bits of a page number. -/
theorem path_alias {j k : Nat} : path (16384 * j) = path (16384 * k) ↔ j % 2 ^ 33 = k % 2 ^ 33 := by
  simp only [path, ptx_eq, pmx_eq, pgx_eq, List.cons.injEq, and_true]
  omega

/-- The kernel address of a user byte. -/
def userByte (s : PageMem) (r : Dirs) (v : Nat) : Nat := s.pageToKvaddr ((entry r (v / 16384)).getD 0) + v % 16384

theorem uvaddrToKvaddr_spec {s : PageMem} {r : Dirs} {root : Nat} (tree : Tree s r) (rooted : r.dir [] = some root)
    {v : Nat} (frame : ∀ p, entry r (v / 16384) = some p → s.pageToPfn p ≠ 0) :
    s.uvaddrToKvaddr (s.pageToKvaddr root) v = (entry r (v / 16384)).elim 0 fun _ => s.userByte r v := by
  have same : path v = path (16384 * (v / 16384)) := path_page (by omega)
  have found := archMmGetPfn_spec tree rooted v
  rw [same] at found
  cases leaf : r.leaf (path (16384 * (v / 16384))) with
  | none =>
    have none : entry r (v / 16384) = none := by rw [entry, leaf, Option.map_none]
    rw [leaf, Option.elim_none] at found
    rw [none, Option.elim_none, uvaddrToKvaddr, found, if_pos rfl]
  | some w =>
    have some : entry r (v / 16384) = some w.1 := by rw [entry, leaf, Option.map_some]
    have nonzero := frame w.1 some
    rw [leaf, Option.elim_some] at found
    rw [some, Option.elim_some, uvaddrToKvaddr, found, if_neg nonzero, userByte, some, Option.getD_some, pageOff_eq,
      pageToKvaddr, pageToPaddr]

/-- Every page from that of `start` to that of `v` has an entry. -/
def Reached (r : Dirs) (start v : Nat) : Prop := ∀ k, start / 16384 ≤ k → k ≤ v / 16384 → entry r k ≠ none

/-- The addresses of a copy do not meet the directories, and the buffer does not meet the user pages. -/
structure CopySafe (s : PageMem) (r : Dirs) (kv len : Nat) : Prop where
  frame : ∀ k p, entry r k = some p → s.pageToPfn p ≠ 0 ∧ ¬ r.Owns p
  buffer : ∀ k p, entry r k = some p → kv + len ≤ s.pageToKvaddr p ∨ s.pageToKvaddr p + 16384 ≤ kv
  table : ∀ d, r.Owns d → kv + len ≤ s.pageToKvaddr d ∨ s.pageToKvaddr d + 16384 ≤ kv

/-- What a copy of the bytes from `start` to `fin` does to the memory. -/
structure Copied (m m' : ByteMem) (reached : Nat → Prop) (dst src : Nat → Nat) (start fin : Nat) : Prop where
  frame : ∀ x, (∀ v, start ≤ v → v < fin → reached v → x ≠ dst v) → m' x = m x
  value : ∀ v, start ≤ v → v < fin → reached v → (∀ w, v < w → w < fin → reached w → dst w ≠ dst v) →
    m' (dst v) = m (src v)

/-- The same when the bytes that are read may be written, too: only a byte that is written nowhere gets to its place. -/
structure CopiedFree (m m' : ByteMem) (reached : Nat → Prop) (dst src : Nat → Nat) (start fin : Nat) : Prop where
  frame : ∀ x, (∀ v, start ≤ v → v < fin → reached v → x ≠ dst v) → m' x = m x
  value : ∀ v, start ≤ v → v < fin → reached v → (∀ w, start ≤ w → w < fin → reached w → src v ≠ dst w) →
    (∀ w, v < w → w < fin → reached w → dst w ≠ dst v) → m' (dst v) = m (src v)

theorem CopiedFree.copied {m m' : ByteMem} {reached : Nat → Prop} {dst src : Nat → Nat} {start fin : Nat}
    (free : CopiedFree m m' reached dst src start fin)
    (apart : ∀ v w, start ≤ v → v < fin → start ≤ w → w < fin → reached v → reached w → src v ≠ dst w) :
    Copied m m' reached dst src start fin where
  frame := free.frame
  value v lower upper reach := free.value v lower upper reach fun w above below reach' =>
    apart v w lower upper above below reach reach'

/-- One chunk, and then the rest. -/
theorem CopiedFree.chunk {m m₁ m' : ByteMem} {reached reached' : Nat → Prop} {dst src : Nat → Nat} {start stop fin : Nat}
    (order : start < stop) (inside : stop ≤ fin) (first : ∀ v, start ≤ v → v < stop → reached v)
    (later : ∀ v, stop ≤ v → v < fin → (reached' v ↔ reached v))
    (outside : ∀ x, (∀ v, start ≤ v → v < stop → x ≠ dst v) → m₁ x = m x)
    (copied : ∀ v, start ≤ v → v < stop → m₁ (dst v) = m (src v))
    (rest : CopiedFree m₁ m' reached' dst src stop fin) : CopiedFree m m' reached dst src start fin where
  frame x away := by
    rw [rest.frame x fun v lower upper reach => away v (by omega) upper ((later v lower upper).mp reach)]
    exact outside x fun v lower upper => away v lower (by omega) (first v lower upper)
  value v lower upper reach apart last := by
    by_cases early : v < stop
    · rw [rest.frame (dst v) fun w above below reach' =>
        (last w (by omega) below ((later w above below).mp reach')).symm]
      exact copied v lower early
    · rw [rest.value v (by omega) upper ((later v (by omega) upper).mpr reach)
        (fun w above below reach' => apart w (by omega) below ((later w above below).mp reach')) fun w above below reach' =>
        last w above below ((later w (by omega) below).mp reach')]
      exact outside (src v) fun w above below => apart w above (by omega) (first w above below)

/-- The kernel address of byte `v` of the buffer that starts with byte `u`. -/
def bufferByte (u kv v : Nat) : Nat := kv + (v - u)

section Loop

variable {r : Dirs} {root u kv len nrPages : Nat} {user : Nat → Nat}

/-- Where the byte `v` goes, and where it comes from. -/
def copyDst (toUser : Bool) (user : Nat → Nat) (u kv v : Nat) : Nat := if toUser then user v else bufferByte u kv v

def copySrc (toUser : Bool) (user : Nat → Nat) (u kv v : Nat) : Nat := if toUser then bufferByte u kv v else user v

theorem Reached.entry {start v : Nat} (reach : Reached r start v) (order : start ≤ v) : entry r (v / 16384) ≠ none :=
  reach (v / 16384) (Nat.div_le_div_right order) le_rfl

theorem userByte_buffer {s : PageMem} (safe : CopySafe s r kv len) {v w : Nat} (found : entry r (v / 16384) ≠ none)
    (lower : u ≤ w) (upper : w < u + len) : s.userByte r v ≠ bufferByte u kv w := by
  obtain ⟨p, some⟩ := Option.ne_none_iff_exists'.mp found
  have away := safe.buffer _ p some
  have small : v % 16384 < 16384 := Nat.mod_lt _ (by decide)
  rw [userByte, some, Option.getD_some, bufferByte]
  omega

/-- A chunk goes to the end of its page, the last one to the end of the range. -/
theorem chunk_bounds {n i v next : Nat} (nowrap : u + len < 2 ^ 64) (count : nrPages = (u + len - 1) / 16384 - u / 16384 + 1)
    (whole : i + (n + 1) = nrPages) (lower : u ≤ v) (below : v < u + len) (page : v / 16384 = u / 16384 + i)
    (defNext : next = if i = nrPages - 1 then (u + len) % 2 ^ 64 else pgend v) :
    v < next ∧ next ≤ u + len ∧ next ≤ (v / 16384 + 1) * 16384 ∧ (n = 0 → next = u + len) ∧
      (0 < n → next = (v / 16384 + 1) * 16384 ∧ next < u + len) := by
  rw [defNext]
  split_ifs with final
  · omega
  · have round : pgend v = (v / 16384 + 1) * 16384 := by
      rw [pgend, pgaddrRounddown_eq (by omega), pgsize]
      omega
    rw [round]
    omega

/-- Inside of a page both sides of a copy advance together. -/
theorem copy_straight {s : PageMem} {v w : Nat} (bytes : s.userByte r = user) (lower : u ≤ v) (above : v ≤ w)
    (same : w / 16384 = v / 16384) (toUser : Bool) :
    copyDst toUser user u kv w = copyDst toUser user u kv v + (w - v) ∧
      copySrc toUser user u kv w = copySrc toUser user u kv v + (w - v) := by
  have left : user w = user v + (w - v) := by
    rw [← bytes, userByte, userByte, same]
    omega
  have right : bufferByte u kv w = bufferByte u kv v + (w - v) := by
    rw [bufferByte, bufferByte]
    omega
  cases toUser
  · exact ⟨right, left⟩
  · exact ⟨left, right⟩

theorem copyLoop_free (toUser : Bool) (nowrap : u + len < 2 ^ 64) (count : nrPages = (u + len - 1) / 16384 - u / 16384 + 1)
    {n i j v : Nat} {s : PageMem} (tree : Tree s r) (rooted : r.dir [] = some root)
    (frame : ∀ k p, entry r k = some p → s.pageToPfn p ≠ 0 ∧ ¬ r.Owns p)
    (table : toUser = false → ∀ d, r.Owns d → kv + len ≤ s.pageToKvaddr d ∨ s.pageToKvaddr d + 16384 ≤ kv)
    (bytes : s.userByte r = user) (whole : i + n = nrPages) (position : (if i = 0 then u else j) = v) (lower : u ≤ v)
    (last : n = 0 → v = u + len) (more : 0 < n → v < u + len ∧ v / 16384 = u / 16384 + i) :
    ((∀ w, v ≤ w → w < u + len → entry r (w / 16384) ≠ none) →
      (s.copyLoop (s.pageToKvaddr root) u len nrPages toUser n i j (bufferByte u kv v)).1 = 0) ∧
    ((∃ w, v ≤ w ∧ w < u + len ∧ entry r (w / 16384) = none) →
      (s.copyLoop (s.pageToKvaddr root) u len nrPages toUser n i j (bufferByte u kv v)).1 = -eacces) ∧
    ∃ m, (s.copyLoop (s.pageToKvaddr root) u len nrPages toUser n i j (bufferByte u kv v)).2 = { s with mem := m } ∧
      CopiedFree s.mem m (Reached r v) (copyDst toUser user u kv) (copySrc toUser user u kv) v (u + len) := by
  induction n generalizing i j v s with
  | zero =>
    refine ⟨fun _ => rfl, ?_, s.mem, rfl, fun _ _ => rfl, ?_⟩
    · rintro ⟨w, above, below, -⟩
      have := last rfl
      omega
    · intro w above below
      have := last rfl
      omega
  | succ n ih =>
    obtain ⟨below, page⟩ := more (by omega)
    obtain ⟨next, defNext⟩ : ∃ next, next = if i = nrPages - 1 then (u + len) % 2 ^ 64 else pgend v := ⟨_, rfl⟩
    obtain ⟨order, inside, onePage, lastNext, moreNext⟩ := chunk_bounds nowrap count whole lower below page defNext
    have size : (next + 2 ^ 64 - v) % 2 ^ 64 = next - v := by omega
    have lookup := uvaddrToKvaddr_spec tree rooted (v := v) fun p some => (frame _ p some).1
    rw [bytes] at lookup
    simp only [copyLoop, position, ← defNext, size]
    cases found : entry r (v / 16384) with
    | none =>
      rw [found, Option.elim_none] at lookup
      simp only [lookup, if_true]
      refine ⟨fun all => absurd found (all v le_rfl below), fun _ => trivial, s.mem, rfl, fun _ _ => rfl, ?_⟩
      intro w above _ reach
      exact absurd found (reach (v / 16384) le_rfl (Nat.div_le_div_right above))
    | some p =>
      rw [found, Option.elim_some] at lookup
      have nonzero : user v ≠ 0 := by
        rw [← bytes, userByte, pageToKvaddr_eq]
        omega
      simp only [lookup, nonzero, if_false]
      have chunk : (if toUser = true then s.mem.copyFrom s.mem (user v) (bufferByte u kv v) (next - v)
          else s.mem.copyFrom s.mem (bufferByte u kv v) (user v) (next - v)) =
          s.mem.copyFrom s.mem (copyDst toUser user u kv v) (copySrc toUser user u kv v) (next - v) := by
        cases toUser <;> rfl
      have step : bufferByte u kv v + (next - v) = bufferByte u kv next := by
        rw [bufferByte, bufferByte]
        omega
      rw [chunk, step]
      have same : ∀ w, v ≤ w → w < next → w / 16384 = v / 16384 := fun w above below => by omega
      obtain ⟨m₁, def₁⟩ : ∃ m₁, m₁ = s.mem.copyFrom s.mem (copyDst toUser user u kv v)
        (copySrc toUser user u kv v) (next - v) := ⟨_, rfl⟩
      obtain ⟨outside, copied⟩ := @ByteMem.copyFrom_along s.mem s.mem (copyDst toUser user u kv) (copySrc toUser user u kv) v next
        (fun w above below => (copy_straight bytes lower above (same w above below) toUser).1)
        (fun w above below => (copy_straight bytes lower above (same w above below) toUser).2)
      rw [← def₁] at outside copied ⊢
      -- neither the user pages nor the buffer hold a directory
      have tree₁ : Tree { s with mem := m₁ } r := by
        refine tree.frame ⟨rfl, rfl⟩ fun d owns => ⟨rfl, Links.Same.refl _ _, fun x low high => outside x ?_⟩
        intro w above below here
        have small : w % 16384 < 16384 := Nat.mod_lt _ (by decide)
        cases toUser
        · have away := table rfl d owns
          simp only [copyDst, Bool.false_eq_true, if_false, bufferByte] at here
          omega
        · have other : p ≠ d := fun eq => (frame _ p found).2 (eq ▸ owns)
          simp only [copyDst, if_true, ← bytes, userByte, same w above below, found, Option.getD_some] at here
          rw [pageToKvaddr_eq] at here low high
          omega
      obtain ⟨success, failure, m', result, rest⟩ := ih (i := i + 1) (j := next) (v := next) (s := { s with mem := m₁ })
        tree₁ frame table bytes (by omega) (by simp) (by omega) lastNext fun positive => by
          have := moreNext positive
          omega
      refine ⟨fun all => success fun w above below => all w (by omega) below, ?_, m', result, ?_⟩
      · rintro ⟨w, above, below, none⟩
        refine failure ⟨w, ?_, below, none⟩
        by_contra early
        rw [same w above (by omega), found] at none
        cases none
      · refine rest.chunk order inside ?_ ?_ outside copied
        · intro w above below k low high
          have here := same w above below
          rw [show k = v / 16384 by omega, found]
          simp
        · intro w above below'
          have := moreNext (by omega)
          constructor
          · intro reach k low high
            by_cases first : k = v / 16384
            · rw [first, found]
              simp
            · exact reach k (by omega) high
          · intro reach k low high
            exact reach k (by omega) high

end Loop

end PageMem

end Xv6
