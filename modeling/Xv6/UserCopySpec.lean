import Xv6.UserCopy

namespace Xv6.PageMem

/-- The user pages of a table: `made` has, for each page number at which a page was
mapped, the page that is there still. Every entry of the table was mapped at one number. -/
structure UserMap (s : PageMem) (root : Nat) (made : Nat → Option Nat) (r : Dirs) : Prop where
  tree : Tree s r
  rooted : r.dir [] = some root
  page : ∀ k p, made k = some p → entry r k = some p
  born : ∀ k p, entry r k = some p → ∃ j, made j = some p ∧ j % 2 ^ 33 = k % 2 ^ 33
  apart : ∀ j k p, made j = some p → made k = some p → j = k
  user : ∀ k p, made k = some p → s.pageToPfn p ≠ 0 ∧ ¬ r.Owns p

/-- The kernel buffer is no part of the user pages, nor of the table. -/
structure BufferApart (s : PageMem) (made : Nat → Option Nat) (r : Dirs) (kv len : Nat) : Prop where
  user : ∀ k p, made k = some p → kv + len ≤ s.pageToKvaddr p ∨ s.pageToKvaddr p + 16384 ≤ kv
  table : ∀ d, r.Owns d → kv + len ≤ s.pageToKvaddr d ∨ s.pageToKvaddr d + 16384 ≤ kv

/-- The pages that `len` bytes from `u` on span. -/
def InRange (u len k : Nat) : Prop := u / 16384 ≤ k ∧ k ≤ (u + len - 1) / 16384

/-- The byte is in a page that was mapped outside of the range. -/
def Outside (s : PageMem) (made : Nat → Option Nat) (u len x : Nat) : Prop :=
  ∃ k p, made k = some p ∧ ¬ InRange u len k ∧ s.pageToKvaddr p ≤ x ∧ x < s.pageToKvaddr p + 16384

/-- The user copies touch the named pages only. -/
structure UserCopies (s : PageMem) (root : Nat) (made : Nat → Option Nat) (kv u len : Nat) : Prop where
  whole : (∀ k, InRange u len k → made k ≠ none ∧ 16384 * k ≤ xusegEnd) →
    (s.copyToUvm (s.pageToKvaddr root) u kv len).1 = 0 ∧
    (∀ v p, u ≤ v → v < u + len → made (v / 16384) = some p →
      (s.copyToUvm (s.pageToKvaddr root) u kv len).2.mem (s.pageToKvaddr p + v % 16384) = s.mem (kv + (v - u))) ∧
    ∀ x, (∀ v p, u ≤ v → v < u + len → made (v / 16384) = some p → x ≠ s.pageToKvaddr p + v % 16384) →
      (s.copyToUvm (s.pageToKvaddr root) u kv len).2.mem x = s.mem x
  refused : (∃ k, InRange u len k ∧ (made k = none ∨ xusegEnd < 16384 * k)) →
    (s.copyToUvm (s.pageToKvaddr root) u kv len).1 ≠ 0 ∧ (s.copyFromUvm (s.pageToKvaddr root) u kv len).1 ≠ 0
  unwritten : ∀ toUser x, Outside s made u len x →
    (s.copyUvm (s.pageToKvaddr root) u kv len toUser).2.mem x = s.mem x
  unread : ∀ toUser m, (∀ x, ¬ Outside s made u len x → m x = s.mem x) →
    ({ s with mem := m }.copyUvm (s.pageToKvaddr root) u kv len toUser).1 =
      (s.copyUvm (s.pageToKvaddr root) u kv len toUser).1 ∧
    ∀ x, ¬ Outside s made u len x →
      ({ s with mem := m }.copyUvm (s.pageToKvaddr root) u kv len toUser).2.mem x =
        (s.copyUvm (s.pageToKvaddr root) u kv len toUser).2.mem x

/-- The table has an entry for the page number: one with the same low 33 bits was mapped. -/
def Backed (made : Nat → Option Nat) (k : Nat) : Prop := ∃ j, made j ≠ none ∧ j % 2 ^ 33 = k % 2 ^ 33

/-- As far as the copy comes, the entries were mapped in the range; and when all
pages of the range have entries, these were mapped at these very pages of user space. -/
structure Unaliased (made : Nat → Option Nat) (u len : Nat) : Prop where
  reached : ∀ k, InRange u len k → (∀ k', InRange u len k' → k' ≤ k → Backed made k') →
    ∃ j, InRange u len j ∧ made j ≠ none ∧ j % 2 ^ 33 = k % 2 ^ 33
  whole : (∀ k, InRange u len k → Backed made k) → ∀ k, InRange u len k → made k ≠ none ∧ 16384 * k ≤ xusegEnd

section

variable {s : PageMem} {root kv u len : Nat} {made : Nat → Option Nat} {r : Dirs}

theorem entry_alias {j k : Nat} (same : j % 2 ^ 33 = k % 2 ^ 33) : entry r j = entry r k := by
  rw [entry, entry, path_alias.mpr same]

theorem UserMap.backed_iff (users : UserMap s root made r) {k : Nat} : entry r k ≠ none ↔ Backed made k := by
  constructor
  · intro found
    obtain ⟨p, some⟩ := Option.ne_none_iff_exists'.mp found
    obtain ⟨j, isMade, same⟩ := users.born k p some
    exact ⟨j, by simp [isMade], same⟩
  · rintro ⟨j, isMade, same⟩
    obtain ⟨p, some⟩ := Option.ne_none_iff_exists'.mp isMade
    rw [← entry_alias same, users.page j p some]
    simp

theorem UserMap.safe (users : UserMap s root made r) (buffer : BufferApart s made r kv len) : CopySafe s r kv len where
  frame k p found := by
    obtain ⟨j, isMade, -⟩ := users.born k p found
    exact users.user j p isMade
  buffer k p found := by
    obtain ⟨j, isMade, -⟩ := users.born k p found
    exact buffer.user j p isMade
  table := buffer.table

/-- A copy with a buffer anywhere, but for the directories when it is written. -/
theorem copyUvm_free (users : UserMap s root made r) (accepted : u ≤ xusegEnd) (positive : 1 ≤ len) (nowrap : u + len < 2 ^ 64)
    (toUser : Bool) (table : toUser = false → ∀ d, r.Owns d → kv + len ≤ s.pageToKvaddr d ∨ s.pageToKvaddr d + 16384 ≤ kv) :
    ((∀ w, u ≤ w → w < u + len → entry r (w / 16384) ≠ none) →
      (s.copyUvm (s.pageToKvaddr root) u kv len toUser).1 = 0) ∧
    ((∃ w, u ≤ w ∧ w < u + len ∧ entry r (w / 16384) = none) →
      (s.copyUvm (s.pageToKvaddr root) u kv len toUser).1 = -eacces) ∧
    ∃ m, (s.copyUvm (s.pageToKvaddr root) u kv len toUser).2 = { s with mem := m } ∧
      CopiedFree s.mem m (Reached r u) (copyDst toUser (s.userByte r) u kv) (copySrc toUser (s.userByte r) u kv) u
        (u + len) := by
  have start : bufferByte u kv u = kv := by
    rw [bufferByte]
    omega
  obtain ⟨n, defN⟩ : ∃ n, n = nrPagesSpanned u len := ⟨_, rfl⟩
  have count : n = (u + len - 1) / 16384 - u / 16384 + 1 := defN.trans (nrPagesSpanned_eq (by omega) (by omega))
  have run : s.copyUvm (s.pageToKvaddr root) u kv len toUser =
      s.copyLoop (s.pageToKvaddr root) u len n toUser n 0 0 kv := by
    have no : ¬ ¬ u ≤ xusegEnd := not_not.mpr accepted
    simp only [copyUvm, no, if_false, ← defN]
  have position : (if 0 = 0 then u else 0) = u := if_pos rfl
  have frame : ∀ k p, entry r k = some p → s.pageToPfn p ≠ 0 ∧ ¬ r.Owns p := by
    intro k p found
    obtain ⟨j, isMade, -⟩ := users.born k p found
    exact users.user j p isMade
  have spec := copyLoop_free toUser nowrap count users.tree users.rooted frame table rfl
    (Nat.zero_add n) position le_rfl (fun none => by omega) (fun _ => by omega)
  rw [start, ← run] at spec
  exact spec

theorem copyUvm_spec (users : UserMap s root made r) (buffer : BufferApart s made r kv len) (accepted : u ≤ xusegEnd)
    (positive : 1 ≤ len) (nowrap : u + len < 2 ^ 64) (toUser : Bool) :
    ((∀ w, u ≤ w → w < u + len → entry r (w / 16384) ≠ none) →
      (s.copyUvm (s.pageToKvaddr root) u kv len toUser).1 = 0) ∧
    ((∃ w, u ≤ w ∧ w < u + len ∧ entry r (w / 16384) = none) →
      (s.copyUvm (s.pageToKvaddr root) u kv len toUser).1 = -eacces) ∧
    ∃ m, (s.copyUvm (s.pageToKvaddr root) u kv len toUser).2 = { s with mem := m } ∧
      Copied s.mem m (Reached r u) (copyDst toUser (s.userByte r) u kv) (copySrc toUser (s.userByte r) u kv) u
        (u + len) := by
  obtain ⟨success, failure, m, result, free⟩ := copyUvm_free users accepted positive nowrap toUser fun _ => buffer.table
  have safe := users.safe buffer
  refine ⟨success, failure, m, result, free.copied fun w w' above below above' below' reach reach' => ?_⟩
  have some := reach.entry above
  have some' := reach'.entry above'
  cases toUser
  · exact userByte_buffer safe some above' below'
  · exact (userByte_buffer safe some' above below).symm

theorem inRange_byte {k : Nat} (positive : 1 ≤ len) (inside : InRange u len k) :
    ∃ w, u ≤ w ∧ w < u + len ∧ w / 16384 = k := by
  obtain ⟨low, high⟩ := inside
  refine ⟨max u (16384 * k), by omega, by omega, by omega⟩

theorem byte_inRange {w : Nat} (low : u ≤ w) (high : w < u + len) : InRange u len (w / 16384) :=
  ⟨Nat.div_le_div_right low, Nat.div_le_div_right (by omega)⟩

/-- A byte lies in one page only. -/
theorem byte_page {p q i x : Nat} (small : i < 16384) (same : x = s.pageToKvaddr q + i) (low : s.pageToKvaddr p ≤ x)
    (high : x < s.pageToKvaddr p + 16384) : p = q := by
  rw [pageToKvaddr_eq] at same low high
  omega

/-- A copy that meets the condition does not leave the pages of the range. -/
theorem Unaliased.not_outside (unaliased : Unaliased made u len) (users : UserMap s root made r) {v : Nat} (low : u ≤ v)
    (high : v < u + len) (reach : Reached r u v) : ¬ Outside s made u len (s.userByte r v) := by
  rintro ⟨k, p, isMade, out, lower, upper⟩
  obtain ⟨j, inside, some, same⟩ := unaliased.reached (v / 16384) (byte_inRange low high) fun k' within le =>
    users.backed_iff.mp (reach k' within.1 le)
  obtain ⟨q, isMade'⟩ := Option.ne_none_iff_exists'.mp some
  have found : entry r (v / 16384) = q := (entry_alias same).symm.trans (users.page j q isMade')
  have pages : p = q := byte_page (Nat.mod_lt _ (by decide)) (by rw [userByte, found, Option.getD_some]) lower upper
  exact out (users.apart k j p isMade (pages ▸ isMade') ▸ inside)

theorem BufferApart.not_outside (buffer : BufferApart s made r kv len) {v : Nat} (low : u ≤ v) (high : v < u + len) :
    ¬ Outside s made u len (bufferByte u kv v) := by
  rintro ⟨k, p, isMade, -, lower, upper⟩
  have away := buffer.user k p isMade
  rw [bufferByte] at lower upper
  omega

/-- Of the bytes that go to one place the last one stays. -/
theorem Copied.last {m m' : ByteMem} {reached : Nat → Prop} {dst src : Nat → Nat} {start fin x : Nat}
    (copied : Copied m m' reached dst src start fin) :
    (m' x = m x ∧ ∀ v, start ≤ v → v < fin → reached v → x ≠ dst v) ∨
      ∃ v, start ≤ v ∧ v < fin ∧ reached v ∧ x = dst v ∧ (∀ w, v < w → w < fin → reached w → x ≠ dst w) := by
  classical
  by_cases hit : ∃ v, start ≤ v ∧ v < fin ∧ reached v ∧ x = dst v
  · right
    obtain ⟨v, lower, upper, reach, same⟩ := hit
    have found := Nat.findGreatest_spec (P := fun v => start ≤ v ∧ v < fin ∧ reached v ∧ x = dst v) (n := fin)
      (by omega : v ≤ fin) ⟨lower, upper, reach, same⟩
    obtain ⟨lower', upper', reach', same'⟩ := found
    refine ⟨_, lower', upper', reach', same', fun w above below reach'' eq => ?_⟩
    exact Nat.findGreatest_is_greatest above (by omega) ⟨by omega, below, reach'', eq⟩
  · left
    have away : ∀ v, start ≤ v → v < fin → reached v → x ≠ dst v :=
      fun v lower upper reach same => hit ⟨v, lower, upper, reach, same⟩
    exact ⟨copied.frame x away, away⟩

/-- With other contents of the user pages outside of the range, the table is the same. -/
theorem UserMap.other (users : UserMap s root made r) {m : ByteMem}
    (same : ∀ x, ¬ Outside s made u len x → m x = s.mem x) : UserMap { s with mem := m } root made r where
  tree := users.tree.frame ⟨rfl, rfl⟩ fun d owns => ⟨rfl, Links.Same.refl _ _, fun x low high => same x (by
    rintro ⟨k, p, isMade, -, low', high'⟩
    have pages : p = d := by
      rw [pageToKvaddr_eq] at low high low' high'
      omega
    exact (users.user k p isMade).2 (pages ▸ owns))⟩
  rooted := users.rooted
  page := users.page
  born := users.born
  apart := users.apart
  user := users.user

theorem copies_whole (users : UserMap s root made r) (buffer : BufferApart s made r kv len) (accepted : u ≤ xusegEnd)
    (positive : 1 ≤ len) (nowrap : u + len < 2 ^ 64) (all : ∀ k, InRange u len k → made k ≠ none) :
    (s.copyToUvm (s.pageToKvaddr root) u kv len).1 = 0 ∧
    (∀ v p, u ≤ v → v < u + len → made (v / 16384) = some p →
      (s.copyToUvm (s.pageToKvaddr root) u kv len).2.mem (s.pageToKvaddr p + v % 16384) = s.mem (kv + (v - u))) ∧
    ∀ x, (∀ v p, u ≤ v → v < u + len → made (v / 16384) = some p → x ≠ s.pageToKvaddr p + v % 16384) →
      (s.copyToUvm (s.pageToKvaddr root) u kv len).2.mem x = s.mem x := by
  obtain ⟨success, -, m, result, copied⟩ := copyUvm_spec users buffer accepted positive nowrap true
  have found : ∀ w, u ≤ w → w < u + len → ∃ p, made (w / 16384) = some p ∧ entry r (w / 16384) = some p := by
    intro w low high
    obtain ⟨p, isMade⟩ := Option.ne_none_iff_exists'.mp (all _ (byte_inRange low high))
    exact ⟨p, isMade, users.page _ p isMade⟩
  have address : ∀ w p, entry r (w / 16384) = some p → copyDst true (s.userByte r) u kv w = s.pageToKvaddr p + w % 16384 := by
    intro w p some
    rw [copyDst, if_pos rfl, userByte, some, Option.getD_some]
  simp only [copyToUvm, result]
  refine ⟨success fun w low high => ?_, ?_, ?_⟩
  · obtain ⟨p, -, some⟩ := found w low high
    simp [some]
  · intro v p low high isMade
    have some := users.page _ p isMade
    have value := copied.value v low high (fun k low' high' => by
      rw [users.backed_iff]
      exact ⟨k, all k ⟨low', le_trans high' (byte_inRange low high).2⟩, rfl⟩) (by
      intro w above below reach eq
      obtain ⟨q, isMade', some'⟩ := found w (by omega) below
      rw [address w q some', address v p some] at eq
      have pages : p = q := byte_page (Nat.mod_lt w (by decide : 0 < 16384)) eq.symm (by omega) (by omega)
      have numbers := users.apart _ _ p isMade (pages ▸ isMade')
      rw [pages] at eq
      omega)
    rw [address v p some] at value
    exact value
  · intro x away
    refine copied.frame x fun v low high _ => ?_
    obtain ⟨p, isMade, some⟩ := found v low high
    rw [address v p some]
    exact away v p low high isMade

/-- A copy that runs to its end has an entry for every page, and the other way round. -/
theorem copies_done (users : UserMap s root made r) (buffer : BufferApart s made r kv len) (accepted : u ≤ xusegEnd)
    (positive : 1 ≤ len) (nowrap : u + len < 2 ^ 64) (toUser : Bool) :
    (s.copyUvm (s.pageToKvaddr root) u kv len toUser).1 = 0 ↔ ∀ k, InRange u len k → Backed made k := by
  obtain ⟨success, failure, -⟩ := copyUvm_spec users buffer accepted positive nowrap toUser
  constructor
  · intro done k inside
    by_contra none
    obtain ⟨w, low, high, rfl⟩ := inRange_byte positive inside
    have absent : entry r (w / 16384) = .none := by
      by_contra some
      exact none (users.backed_iff.mp some)
    have failed := failure ⟨w, low, high, absent⟩
    rw [done] at failed
    cases failed
  · intro all
    exact success fun w low high => users.backed_iff.mpr (all _ (byte_inRange low high))

/-- What was copied to the user is what comes back, and no other byte of the user changes. -/
theorem copies_back {kv' : Nat} (users : UserMap s root made r) (buffer : BufferApart s made r kv len) (buffer' : BufferApart s made r kv' len)
    (accepted : u ≤ xusegEnd) (positive : 1 ≤ len) (nowrap : u + len < 2 ^ 64) (all : ∀ k, InRange u len k → made k ≠ none) :
    (s.copyToUvm (s.pageToKvaddr root) u kv len).1 = 0 ∧
    ((s.copyToUvm (s.pageToKvaddr root) u kv len).2.copyFromUvm (s.pageToKvaddr root) u kv' len).1 = 0 ∧
    (∀ i < len, ((s.copyToUvm (s.pageToKvaddr root) u kv len).2.copyFromUvm (s.pageToKvaddr root) u kv' len).2.mem (kv' + i) =
      s.mem (kv + i)) ∧
    ∀ j p x, made j = some p → x < 16384 → (16384 * j + x < u ∨ u + len ≤ 16384 * j + x) →
      ((s.copyToUvm (s.pageToKvaddr root) u kv len).2.copyFromUvm (s.pageToKvaddr root) u kv' len).2.mem (s.pageToKvaddr p + x) =
        s.mem (s.pageToKvaddr p + x) := by
  obtain ⟨done, written, frame⟩ := copies_whole users buffer accepted positive nowrap all
  obtain ⟨-, -, m, result, -⟩ := copyUvm_spec users buffer accepted positive nowrap true
  rw [copyToUvm] at done written frame ⊢
  rw [result] at written frame ⊢
  -- no page of the user is outside of every range, so all of them may have changed
  have users' : UserMap { s with mem := m } root made r := users.other fun x (apart : ¬ Outside s made 16384 0 x) => by
    refine frame x fun v p low high isMade eq => apart ⟨v / 16384, p, isMade, ?_, ?_, ?_⟩
    · rw [InRange]
      omega
    · omega
    · have := Nat.mod_lt v (by decide : 0 < 16384)
      omega
  have apart' : BufferApart { s with mem := m } made r kv' len := ⟨buffer'.user, buffer'.table⟩
  obtain ⟨success, -, m', result', copied⟩ := copyUvm_spec users' apart' accepted positive nowrap false
  have found : ∀ w, u ≤ w → w < u + len → ∃ p, made (w / 16384) = some p ∧ entry r (w / 16384) = some p := by
    intro w low high
    obtain ⟨p, isMade⟩ := Option.ne_none_iff_exists'.mp (all _ (byte_inRange low high))
    exact ⟨p, isMade, users.page _ p isMade⟩
  have back : ({ s with mem := m }.copyFromUvm (s.pageToKvaddr root) u kv' len).2 = { s with mem := m' } := result'
  refine ⟨done, success fun w low high => ?_, ?_, ?_⟩
  · obtain ⟨p, -, some⟩ := found w low high
    simp [some]
  · intro i inside
    rw [back]
    have value := copied.value (u + i) (by omega) (by omega) (fun k low' high' => by
      rw [users.backed_iff]
      exact ⟨k, all k ⟨low', le_trans high' (byte_inRange (by omega) (by omega)).2⟩, rfl⟩) (by
      intro w above below _ eq
      simp only [copyDst, Bool.false_eq_true, if_false, bufferByte] at eq
      omega)
    obtain ⟨p, isMade, some⟩ := found (u + i) (by omega) (by omega)
    simp only [copyDst, copySrc, Bool.false_eq_true, if_false, bufferByte, Nat.add_sub_cancel_left] at value
    have source : ({ s with mem := m } : PageMem).userByte r (u + i) = s.pageToKvaddr p + (u + i) % 16384 := by
      rw [userByte, some, Option.getD_some]
      rfl
    rw [source] at value
    have first := written (u + i) p (by omega) (by omega) isMade
    rw [Nat.add_sub_cancel_left] at first
    exact value.trans first
  · intro j p x isMade small outside
    rw [back]
    have kept := copied.frame (s.pageToKvaddr p + x) fun v low high _ eq => by
      simp only [copyDst, Bool.false_eq_true, if_false, bufferByte] at eq
      have away := buffer'.user j p isMade
      omega
    refine kept.trans (frame _ fun v q low high isMade' eq => ?_)
    have rest := Nat.mod_lt v (by decide : 0 < 16384)
    have pages : p = q := byte_page rest eq (by omega) (by omega)
    subst pages
    have numbers := users.apart _ _ p isMade isMade'
    omega

end

end Xv6.PageMem
