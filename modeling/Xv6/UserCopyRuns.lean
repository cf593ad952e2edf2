import Xv6.PageTableRuns
import Xv6.UserCopySpec

namespace Xv6

/-- What `made` is after a page was mapped: the entry may have had a page of another number. -/
def mapAt (made : Nat → Option Nat) (k : Nat) (page : Option Nat) (j : Nat) : Option Nat :=
  if j % 2 ^ 33 = k % 2 ^ 33 then if j = k then page else none else made j

/-- Runs on a user table: pages that are not among the free pages `l₀` of the start
are mapped at any page number but 0, and unmapped. -/
inductive UserRun (s₀ : PageMem) (l₀ : List Nat) (root : Nat) : PageMem → (Nat → Option Nat) → Prop
  | start {s : PageMem} {asid : Nat} (new : s₀.pgdirNew asid = .ok (some root, s)) :
      UserRun s₀ l₀ root s fun _ => none
  | map {s s' : PageMem} {made : Nat → Option Nat} {k page perm : Nat} {old : Option Nat}
      (run : UserRun s₀ l₀ root s made) (low : 1 ≤ k) (high : k < 2 ^ 50) (inside : page < s.nrPages)
      (frame : s.pageToPfn page ≠ 0) (new : ∀ j, made j ≠ some page) (taken : page ∉ l₀)
      (done : s.pgtableInsert (s.pageToKvaddr root) (16384 * k) page perm true = .ok (0, old, s')) :
      UserRun s₀ l₀ root s' (mapAt made k (some page))
  | unmap {s s' : PageMem} {made : Nat → Option Nat} {k : Nat} {old : Option Nat} (run : UserRun s₀ l₀ root s made)
      (done : s.pgtableClear (s.pageToKvaddr root) (16384 * k) = .ok (old, s')) :
      UserRun s₀ l₀ root s' (mapAt made k none)

namespace PageMem

/-- What a run on a user table keeps. -/
structure UserKept (l₀ : List Nat) (root : Nat) (s : PageMem) (made : Nat → Option Nat) (r : Dirs) (l : List Nat) :
    Prop where
  users : UserMap s root made r
  full : r.Full
  free : FreeList s l
  phys : PhysBound s
  owned : ∀ p, p ∈ l ∨ r.Owns p ↔ p ∈ l₀
  taken : ∀ k p, made k = some p → p ∉ l₀

variable {l₀ l l' : List Nat} {root k : Nat} {s s' : PageMem} {made : Nat → Option Nat} {r r' : Dirs}

/-- A change of the leaf of `k`. -/
theorem UserKept.update (kept : UserKept l₀ root s made r l) (moves : Moves s s' r r' l l') (full : r'.Full)
    {w : Option (Nat × Nat)} (leaf : r'.leaf = Function.update r.leaf (path (16384 * k)) w)
    (fresh : ∀ p, w.map Prod.fst = some p → s.pageToPfn p ≠ 0 ∧ p ∉ l₀ ∧ ∀ j, made j ≠ some p) :
    UserKept l₀ root s' (mapAt made k (w.map Prod.fst)) r' l' := by
  have entries : ∀ j, entry r' j = if j % 2 ^ 33 = k % 2 ^ 33 then w.map Prod.fst else entry r j := by
    intro j
    rw [entry, leaf, entry]
    by_cases same : j % 2 ^ 33 = k % 2 ^ 33
    · rw [path_alias.mpr same, Function.update_self, if_pos same]
    · rw [Function.update_of_ne (fun eq => same (path_alias.mp eq)), if_neg same]
  have cases' : ∀ j p, mapAt made k (w.map Prod.fst) j = some p →
      (j = k ∧ w.map Prod.fst = some p) ∨ (j % 2 ^ 33 ≠ k % 2 ^ 33 ∧ made j = some p) := by
    intro j p isMade
    rw [mapAt] at isMade
    by_cases same : j % 2 ^ 33 = k % 2 ^ 33
    · rw [if_pos same] at isMade
      by_cases here : j = k
      · rw [if_pos here] at isMade
        exact .inl ⟨here, isMade⟩
      · rw [if_neg here] at isMade
        cases isMade
    · rw [if_neg same] at isMade
      exact .inr ⟨same, isMade⟩
  have outside : ∀ j p, mapAt made k (w.map Prod.fst) j = some p → p ∉ l₀ := by
    intro j p isMade
    rcases cases' j p isMade with ⟨-, new⟩ | ⟨-, old⟩
    · exact (fresh p new).2.1
    · exact kept.taken j p old
  have owned : ∀ p, p ∈ l' ∨ r'.Owns p ↔ p ∈ l₀ := fun p => (moves.owned p).trans (kept.owned p)
  have pfn : ∀ p, s'.pageToPfn p = s.pageToPfn p := by
    intro p
    rw [pageToPfn, pageToPfn, moves.geometry.base]
  refine ⟨⟨moves.tree, moves.root.trans kept.users.rooted, ?_, ?_, ?_, ?_⟩, full, moves.free,
    kept.phys.frame moves.geometry, owned, outside⟩
  · intro j p isMade
    rw [entries]
    rcases cases' j p isMade with ⟨rfl, new⟩ | ⟨other, old⟩
    · rw [if_pos rfl, new]
    · rw [if_neg other]
      exact kept.users.page j p old
  · intro j p found
    rw [entries] at found
    by_cases same : j % 2 ^ 33 = k % 2 ^ 33
    · rw [if_pos same] at found
      exact ⟨k, by rw [mapAt, if_pos rfl, if_pos rfl, found], same.symm⟩
    · rw [if_neg same] at found
      obtain ⟨i, isMade, agrees⟩ := kept.users.born j p found
      exact ⟨i, by rw [mapAt, if_neg (by omega), isMade], agrees⟩
  · intro i j p left right
    rcases cases' i p left with ⟨rfl, new⟩ | ⟨-, old⟩
    · rcases cases' j p right with ⟨rfl, -⟩ | ⟨-, old'⟩
      · rfl
      · exact absurd old' ((fresh p new).2.2 j)
    · rcases cases' j p right with ⟨rfl, new⟩ | ⟨-, old'⟩
      · exact absurd old ((fresh p new).2.2 i)
      · exact kept.users.apart i j p old old'
  · intro j p isMade
    refine ⟨?_, fun owns => outside j p isMade ((owned p).mp (.inr owns))⟩
    rw [pfn]
    rcases cases' j p isMade with ⟨-, new⟩ | ⟨-, old⟩
    · exact (fresh p new).1
    · exact (kept.users.user j p old).1

theorem UserKept.map (kept : UserKept l₀ root s made r l) (page perm : Nat) (low : 1 ≤ k) (high : k < 2 ^ 50)
    (inside : page < s.nrPages) (frame : s.pageToPfn page ≠ 0) (new : ∀ j, made j ≠ some page) (taken : page ∉ l₀)
    (enough : missing r (16384 * k) ≤ l.length) :
    ∃ s' r' l', s.pgtableInsert (s.pageToKvaddr root) (16384 * k) page perm true =
        .ok (0, (r.leaf (path (16384 * k))).map Prod.fst, s') ∧
      UserKept l₀ root s' (mapAt made k (some page)) r' l' ∧ SameGeometry s s' ∧ (∀ p, p ∉ l₀ → s.Agree s' p) ∧
      l.length = l'.length + missing r (16384 * k) := by
  have small : 16384 * k < 2 ^ 64 := by omega
  have nonzero : pgaddrRounddown (16384 * k) ≠ 0 := by
    rw [pgaddrRounddown_eq small]
    omega
  have differs : ∀ w, r.leaf (path (16384 * k)) = some w → w.1 ≠ page ∧ true = true := by
    intro w leaf
    refine ⟨fun same => ?_, rfl⟩
    obtain ⟨j, isMade, -⟩ := kept.users.born k w.1 (by rw [entry, leaf, Option.map_some])
    exact new j (same ▸ isMade)
  obtain ⟨s', r', run, moves, full, leaf, -⟩ := pgtableInsert_spec perm kept.users.tree kept.users.rooted kept.free
    kept.phys kept.full small nonzero inside enough differs
  refine ⟨s', r', _, run, kept.update moves full leaf fun p same => ?_, moves.geometry, fun p outside =>
    moves.agree p (fun inFree => outside ((kept.owned p).mp (.inl inFree))) fun owns => outside ((kept.owned p).mp (.inr owns)),
    by rw [List.length_drop]; omega⟩
  obtain rfl : page = p := Option.some.inj same
  exact ⟨frame, taken, new⟩

theorem UserKept.unmap (kept : UserKept l₀ root s made r l) (k : Nat) :
    ∃ s' r' l', s.pgtableClear (s.pageToKvaddr root) (16384 * k) =
        .ok ((r.leaf (path (16384 * k))).map Prod.fst, s') ∧ UserKept l₀ root s' (mapAt made k none) r' l' := by
  obtain ⟨s', r', l', run, moves, full, leaf, -⟩ :=
    pgtableClear_spec kept.users.tree kept.users.rooted kept.free kept.phys.nrPages_lt kept.full
  refine ⟨s', r', l', run, kept.update moves full leaf fun p none => ?_⟩
  cases none

theorem TableKept.user (kept : TableKept l₀ root s (fun _ => none) r l) :
    UserKept (root :: l₀) root s (fun _ => none) r l := by
  have none : ∀ j, entry r j = .none := by
    intro j
    rw [entry, show path (16384 * j) = path (16384 * (j % 2 ^ 33)) from path_alias.mpr (by omega),
      kept.mapped _ (by omega)]
  refine ⟨⟨kept.tree, kept.rooted, by simp, fun k p found => ?_, by simp, by simp⟩, kept.full, kept.free, kept.phys,
    fun p => ?_, by simp⟩
  · rw [none] at found
    cases found
  · rw [kept.owned, List.mem_cons, or_comm]

end PageMem

/-- The pages of a run are a user map; a run does not stop for another reason than memory. -/
theorem UserRun.userKept {s₀ s : PageMem} {l₀ : List Nat} {root : Nat} {made : Nat → Option Nat}
    (free : s₀.FreeList l₀) (phys : s₀.PhysBound) (run : UserRun s₀ l₀ root s made) :
    ∃ r l, PageMem.UserKept l₀ root s made r l := by
  induction run with
  | start new =>
    obtain ⟨l₁, r, rfl, kept⟩ := PageMem.TableKept.start free phys new
    exact ⟨r, l₁, kept.user⟩
  | @map s s' made k page perm old run low high inside frame new taken done ih =>
    obtain ⟨r, l, kept⟩ := ih
    by_cases enough : PageMem.missing r (16384 * k) ≤ l.length
    · obtain ⟨s'', r', l', run', kept', -⟩ := kept.map page perm low high inside frame new taken enough
      rw [done] at run'
      cases run'
      exact ⟨r', l', kept'⟩
    · have small : 16384 * k < 2 ^ 64 := by omega
      have nonzero : pgaddrRounddown (16384 * k) ≠ 0 := by
        rw [pgaddrRounddown_eq small]
        omega
      obtain ⟨s'', run'⟩ := PageMem.pgtableInsert_scarce page perm true
        kept.users.tree kept.users.rooted kept.free kept.phys kept.full small nonzero (Nat.lt_of_not_le enough)
      rw [done] at run'
      cases run'
  | @unmap s s' made k old run done ih =>
    obtain ⟨r, l, kept⟩ := ih
    obtain ⟨s'', r', l', run', kept'⟩ := kept.unmap k
    rw [done] at run'
    cases run'
    exact ⟨r', l', kept'⟩

namespace PageMem

variable {s : PageMem} {root kv u len : Nat} {made : Nat → Option Nat} {r : Dirs}

/-- A byte of a range that is mapped up to it is read into the buffer. -/
theorem copyFrom_byte {w : Nat} (users : UserMap s root made r) (buffer : BufferApart s made r kv len) (accepted : u ≤ xusegEnd)
    (positive : 1 ≤ len) (nowrap : u + len < 2 ^ 64) (low : u ≤ w) (high : w < u + len) (reach : Reached r u w) :
    (s.copyUvm (s.pageToKvaddr root) u kv len false).2.mem (bufferByte u kv w) = s.mem (s.userByte r w) := by
  obtain ⟨-, -, m, result, copied⟩ := copyUvm_spec users buffer accepted positive nowrap false
  have byte := copied.value w low high reach fun v above below _ eq => by
    simp only [copyDst, Bool.false_eq_true, if_false, bufferByte] at eq
    omega
  rw [result]
  exact byte

theorem byte_succ_ne (b : UInt8) : b + 1 ≠ b := by
  intro eq
  have same := congrArg UInt8.toNat eq
  simp only [UInt8.toNat_add, UInt8.toNat_one] at same
  have bound := b.toNat_lt
  omega

/-- A page that is behind a part of the range is one of the range: with another content of the page the buffer gets
another byte. -/
theorem UserCopies.inside {k : Nat} (copies : UserCopies s root made kv u len) (users : UserMap s root made r)
    (buffer : BufferApart s made r kv len) (accepted : u ≤ xusegEnd) (positive : 1 ≤ len) (nowrap : u + len < 2 ^ 64)
    (within : InRange u len k) (back : ∀ j, InRange u len j → j ≤ k → Backed made j) :
    ∃ j, InRange u len j ∧ made j ≠ none ∧ j % 2 ^ 33 = k % 2 ^ 33 := by
  obtain ⟨w, low, high, rfl⟩ := inRange_byte positive within
  have reach : Reached r u w := fun k' low' high' => users.backed_iff.mpr (back k' ⟨low', le_trans high' within.2⟩ high')
  obtain ⟨p, found⟩ := Option.ne_none_iff_exists'.mp (reach.entry low)
  obtain ⟨j, isMade, same⟩ := users.born _ p found
  refine ⟨j, ?_, by simp [isMade], same⟩
  by_contra out
  obtain ⟨m, def'⟩ : ∃ m : ByteMem, m = fun x =>
    if s.pageToKvaddr p ≤ x ∧ x < s.pageToKvaddr p + 16384 then s.mem x + 1 else s.mem x := ⟨_, rfl⟩
  have equal : ∀ x, ¬ Outside s made u len x → m x = s.mem x := by
    intro x apart
    rw [def']
    exact if_neg fun here => apart ⟨j, p, isMade, out, here.1, here.2⟩
  have differs := (copies.unread false m equal).2 _ (buffer.not_outside low high)
  have left := @copyFrom_byte { s with mem := m } root kv u len made r w (users.other equal) ⟨buffer.user, buffer.table⟩ accepted positive
    nowrap low high reach
  rw [copyFrom_byte users buffer accepted positive nowrap low high reach] at differs
  have address : s.userByte r w = s.pageToKvaddr p + w % 16384 := by rw [userByte, found, Option.getD_some]
  have inPage : s.pageToKvaddr p ≤ s.userByte r w ∧ s.userByte r w < s.pageToKvaddr p + 16384 := by
    have := Nat.mod_lt w (by decide : 0 < 16384)
    omega
  have flipped : m (s.userByte r w) = s.mem (s.userByte r w) + 1 := by
    rw [def']
    exact if_pos inPage
  exact byte_succ_ne _ (flipped.symm.trans (left.symm.trans differs))

/-- Only bytes of the range are written. -/
theorem Unaliased.frame (unaliased : Unaliased made u len) (users : UserMap s root made r) (buffer : BufferApart s made r kv len)
    (accepted : u ≤ xusegEnd) (positive : 1 ≤ len) (nowrap : u + len < 2 ^ 64) (toUser : Bool) {x : Nat}
    (outside : Outside s made u len x) : (s.copyUvm (s.pageToKvaddr root) u kv len toUser).2.mem x = s.mem x := by
  obtain ⟨-, -, m, result, copied⟩ := copyUvm_spec users buffer accepted positive nowrap toUser
  rw [result]
  refine copied.frame x fun v low high reach eq => ?_
  rw [eq] at outside
  cases toUser
  · exact buffer.not_outside low high outside
  · exact unaliased.not_outside users low high reach outside

/-- What is outside of the range is not read. -/
theorem Unaliased.unread (unaliased : Unaliased made u len) (users : UserMap s root made r)
    (buffer : BufferApart s made r kv len) (accepted : u ≤ xusegEnd) (positive : 1 ≤ len) (nowrap : u + len < 2 ^ 64)
    (toUser : Bool) {m : ByteMem} (same : ∀ x, ¬ Outside s made u len x → m x = s.mem x) :
    ({ s with mem := m }.copyUvm (s.pageToKvaddr root) u kv len toUser).1 =
        (s.copyUvm (s.pageToKvaddr root) u kv len toUser).1 ∧
      ∀ x, ¬ Outside s made u len x → ({ s with mem := m }.copyUvm (s.pageToKvaddr root) u kv len toUser).2.mem x =
        (s.copyUvm (s.pageToKvaddr root) u kv len toUser).2.mem x := by
  have users' := users.other same
  have buffer' : BufferApart { s with mem := m } made r kv len := ⟨buffer.user, buffer.table⟩
  obtain ⟨success, failure, m₁, result, copied⟩ := copyUvm_spec users buffer accepted positive nowrap toUser
  obtain ⟨success', failure', m₂, result', copied'⟩ := copyUvm_spec users' buffer' accepted positive nowrap toUser
  refine ⟨?_, ?_⟩
  · by_cases missing : ∃ w, u ≤ w ∧ w < u + len ∧ entry r (w / 16384) = none
    · exact (failure' missing).trans (failure missing).symm
    · have all : ∀ w, u ≤ w → w < u + len → entry r (w / 16384) ≠ none :=
        fun w low high none => missing ⟨w, low, high, none⟩
      exact (success' all).trans (success all).symm
  · intro x inside
    have left : ({ s with mem := m }.copyUvm (s.pageToKvaddr root) u kv len toUser).2.mem x = m₂ x :=
      congrArg (fun s : PageMem => s.mem x) result'
    have right : (s.copyUvm (s.pageToKvaddr root) u kv len toUser).2.mem x = m₁ x :=
      congrArg (fun s : PageMem => s.mem x) result
    rw [left, right]
    rcases copied.last (x := x) with ⟨old, away⟩ | ⟨v, low, high, reach, rfl, last⟩
    · rw [old, ← same x inside]
      exact copied'.frame x away
    · rw [copied.value v low high reach fun w above below reach' => (last w above below reach').symm]
      refine (copied'.value v low high reach fun w above below reach' => (last w above below reach').symm).trans ?_
      refine same _ ?_
      cases toUser
      · exact unaliased.not_outside users low high reach
      · exact buffer.not_outside low high

/-- Exactly the ranges that meet no alias are copied as the pages of the user say. -/
theorem userCopies_iff (users : UserMap s root made r) (buffer : BufferApart s made r kv len) (accepted : u ≤ xusegEnd)
    (positive : 1 ≤ len) (nowrap : u + len < 2 ^ 64) :
    UserCopies s root made kv u len ↔ Unaliased made u len := by
  have done := copies_done users buffer accepted positive nowrap
  constructor
  · intro copies
    refine ⟨fun k inside back => copies.inside users buffer accepted positive nowrap inside back, fun all k inside => ?_⟩
    by_contra bad
    have some : made k = none ∨ xusegEnd < 16384 * k := by
      by_contra neither
      rw [not_or] at neither
      exact bad ⟨neither.1, by omega⟩
    exact (copies.refused ⟨k, inside, some⟩).1 ((done true).mpr all)
  · intro unaliased
    refine ⟨fun all => copies_whole users buffer accepted positive nowrap fun k inside => (all k inside).1, ?_, ?_, ?_⟩
    · rintro ⟨k, inside, bad⟩
      have never : ¬ ∀ k, InRange u len k → Backed made k := by
        intro all
        obtain ⟨isMade, low⟩ := unaliased.whole all k inside
        exact bad.elim isMade fun above => by omega
      exact ⟨fun zero => never ((done true).mp zero), fun zero => never ((done false).mp zero)⟩
    · exact fun toUser x outside => unaliased.frame users buffer accepted positive nowrap toUser outside
    · exact fun toUser m same => unaliased.unread users buffer accepted positive nowrap toUser same

/-- Page 0 is no page of the user and holds no directory. -/
theorem UserKept.bufferZero {len : Nat} (kept : UserKept l₀ root s made r l) (positive : ∀ p ∈ l₀, 1 ≤ p)
    (mapped : ∀ k p, made k = some p → 1 ≤ p) (fits : len ≤ 16384) : BufferApart s made r (s.pageToKvaddr 0) len where
  user k p isMade := by
    have := mapped k p isMade
    left
    rw [pageToKvaddr_eq, pageToKvaddr_eq]
    omega
  table d owns := by
    have := positive d ((kept.owned d).mp (.inr owns))
    left
    rw [pageToKvaddr_eq, pageToKvaddr_eq]
    omega

theorem mapAt_positive {p : Nat} (positive : ∀ k p, made k = some p → 1 ≤ p) (page : 1 ≤ p) (k : Nat) :
    ∀ j q, mapAt made k (some p) j = some q → 1 ≤ q := by
  intro j q isMade
  rw [mapAt] at isMade
  split_ifs at isMade
  · exact Option.some.inj isMade ▸ page
  · exact positive j q isMade

/-- Pages 1 and 2 are mapped one behind the other. -/
def twoPages : Nat → Option Nat := mapAt (mapAt (fun _ => none) 1 (some 1)) 2 (some 2)

theorem twoPages_positive : ∀ k p, twoPages k = some p → 1 ≤ p :=
  mapAt_positive (mapAt_positive (fun _ _ none => by cases none) le_rfl 1) (by decide) 2

/-- They are on a machine with eight pages. -/
theorem userTwo : ∃ s₀ s, s₀.FreeList [3, 4, 5, 6, 7] ∧ s₀.PhysBound ∧
    UserRun s₀ [3, 4, 5, 6, 7] 3 s twoPages := by
  have pages : (bootLedger 8).free.sort = [1, 2, 3, 4, 5, 6, 7] := (bootLedger_sort 8).trans (by decide)
  have free := (initPageArray_books 1 8 ⟨id, id⟩ (fun _ => 0)).free
  rw [pages] at free
  have phys : (initPageArray 1 8 ⟨id, id⟩ (fun _ => 0)).PhysBound := by
    rw [PhysBound]
    decide
  obtain ⟨s₁, -, free₁, -, -, geometry₁, -⟩ := allocPage_spec free
  obtain ⟨s₂, -, free₂, -, -, geometry₂, -⟩ := allocPage_spec free₁
  obtain ⟨s₃, new, -, -, -, geometry₃, -⟩ := pgdirNew_spec free₂ 0xff
  have phys₂ := phys.frame (geometry₁.trans geometry₂)
  have run : UserRun s₂ [3, 4, 5, 6, 7] 3 s₃ fun _ => none := .start new
  obtain ⟨l₃, r₃, same, kept₃⟩ := TableKept.start free₂ phys₂ new
  obtain rfl : [4, 5, 6, 7] = l₃ := (List.cons.inj same).2
  have geometry := (geometry₁.trans geometry₂).trans geometry₃
  have inside : ∀ {s}, SameGeometry s₃ s → ∀ p, 1 ≤ p → p < 8 → p < s.nrPages ∧ s.pageToPfn p ≠ 0 := by
    intro s later p positive below
    rw [pageToPfn, (geometry.trans later).pages, (geometry.trans later).base]
    exact ⟨below, by omega⟩
  have one := inside (.refl s₃) 1 le_rfl (by decide)
  obtain ⟨s₄, r₄, l₄, done₄, kept₄, geometry₄, -, length₄⟩ := kept₃.user.map (k := 1) 1 0 le_rfl (by decide) one.1 one.2
    (by simp) (by decide) (le_trans (missing_le _ _) (by decide))
  have left : 2 ≤ l₄.length := by
    have few := missing_le r₃ (16384 * 1)
    have four : l₄.length + missing r₃ (16384 * 1) = 4 := length₄.symm
    omega
  have two := inside geometry₄ 2 (by decide) (by decide)
  have apart : ∀ j, mapAt (fun _ => none) 1 (some 1) j ≠ some 2 := by
    intro j
    simp only [mapAt]
    split_ifs <;> simp
  obtain ⟨s₅, r₅, l₅, done₅, -⟩ := kept₄.map (k := 2) 2 0 (by decide) (by decide) two.1 two.2 apart (by decide)
    (le_trans (missing_le _ _) left)
  exact ⟨s₂, s₅, free₂, phys₂, (run.map le_rfl (by decide) one.1 one.2 (by simp) (by decide) done₄).map (by decide) (by decide)
    two.1 two.2 apart (by decide) done₅⟩

/-- At the number of the first of them with one more bit, there is no page and still the copy runs. -/
theorem not_userCopies :
    ¬ ∀ (s : PageMem) (root kv u len : Nat) (made : Nat → Option Nat) (r : Dirs), UserMap s root made r →
      BufferApart s made r kv len → u ≤ xusegEnd → 1 ≤ len → u + len < 2 ^ 64 → UserCopies s root made kv u len := by
  intro claim
  obtain ⟨s₀, s, free, phys, run⟩ := userTwo
  obtain ⟨r, l, kept⟩ := run.userKept free phys
  have buffer : BufferApart s _ r (s.pageToKvaddr 0) 1 := kept.bufferZero (by decide) twoPages_positive (by decide)
  have copies := claim s 3 (s.pageToKvaddr 0) (2 ^ 47 + 0x4000) 1 _ r kept.users buffer (by decide) le_rfl (by decide)
  have number : ∀ k, InRange (2 ^ 47 + 0x4000) 1 k ↔ k = 2 ^ 33 + 1 := by
    intro k
    rw [InRange]
    omega
  have done := copies_done (u := 2 ^ 47 + 0x4000) kept.users buffer (by decide) le_rfl (by decide) true
  have absent : twoPages (2 ^ 33 + 1) = none := by decide
  refine (copies.refused ⟨2 ^ 33 + 1, (number _).mpr rfl, .inl absent⟩).1 (done.mpr fun k inside => ⟨1, by decide, ?_⟩)
  rw [(number k).mp inside]
  decide

/-- 512 bytes over the border of the two pages. -/
theorem userCopies_border : ∃ s₀ s, UserRun s₀ [3, 4, 5, 6, 7] 3 s twoPages ∧
    UserCopies s 3 twoPages (s.pageToKvaddr 0) 0x7f00 0x200 := by
  obtain ⟨s₀, s, free, phys, run⟩ := userTwo
  obtain ⟨r, l, kept⟩ := run.userKept free phys
  have buffer : BufferApart s _ r (s.pageToKvaddr 0) 0x200 := kept.bufferZero (by decide) twoPages_positive (by decide)
  have made : ∀ k, InRange 0x7f00 0x200 k → twoPages k ≠ none ∧ 16384 * k ≤ xusegEnd := by
    intro k inside
    have number : k = 1 ∨ k = 2 := by
      rw [InRange] at inside
      omega
    rcases number with rfl | rfl <;> decide
  refine ⟨s₀, s, run, (userCopies_iff kept.users buffer (by decide) (by decide) (by decide)).mpr ⟨fun k inside _ => ?_, ?_⟩⟩
  · exact ⟨k, inside, (made k inside).1, rfl⟩
  · exact fun _ => made

end PageMem

end Xv6
