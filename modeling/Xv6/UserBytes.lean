import Xv6.Processes
import Xv6.UserCopySpec

namespace Xv6

namespace PageMem

section Bytes

variable {s s' s'' : PageMem} {p q root v : Nat} {l : List Nat} {r : Dirs}

/-- The two states have the same bytes in the page. -/
def SameBytes (s s' : PageMem) (p : Nat) : Prop := ∀ x, s.InPage p x → s'.mem x = s.mem x

theorem SameBytes.trans (geometry : SameGeometry s s') (first : s.SameBytes s' p) (second : s'.SameBytes s'' p) : s.SameBytes s'' p := by
  intro x inside
  refine (second x ?_).trans (first x inside)
  rwa [InPage, geometry.kvaddr]

theorem Agree.bytes (agree : s.Agree s' p) : s.SameBytes s' p := fun x inside => agree.mem x inside.1 inside.2

/-- What user code and the kernel find at an address of a space, if there is a page. -/
def userRead (s : PageMem) (d v : Nat) : Option UInt8 :=
  let k := s.uvaddrToKvaddr (s.pageToKvaddr d) v
  if k = 0 then none else some (s.mem k)

/-- An address that `UVADDR_TO_KVADDR` finds is in the page that the table has. -/
theorem uvaddrToKvaddr_inside (tree : Tree s r) (rooted : r.dir [] = some root)
    (known : s.uvaddrToKvaddr (s.pageToKvaddr root) v ≠ 0) :
    ∃ w, r.leaf (path v) = some w ∧ s.uvaddrToKvaddr (s.pageToKvaddr root) v = s.pageToKvaddr w.1 + v % 16384 := by
  have pfn := archMmGetPfn_spec tree rooted v
  cases leaf : r.leaf (path v) with
  | none =>
    rw [leaf, Option.elim_none] at pfn
    rw [uvaddrToKvaddr, pfn, if_pos rfl] at known
    exact absurd rfl known
  | some w =>
    rw [leaf, Option.elim_some] at pfn
    rw [uvaddrToKvaddr, pfn] at known ⊢
    by_cases zero : s.pageToPfn w.1 = 0
    · rw [if_pos zero] at known
      exact absurd rfl known
    · rw [if_neg zero, pageOff_eq]
      exact ⟨w, rfl, rfl⟩

/-- The lookups of a space depend on its tree alone. -/
theorem SpaceKept.uvaddr_same {l' : List Nat} (kept : SpaceKept root s r l) (kept' : SpaceKept root s' r l')
    (geometry : SameGeometry s s') (v : Nat) :
    s'.uvaddrToKvaddr (s'.pageToKvaddr root) v = s.uvaddrToKvaddr (s.pageToKvaddr root) v := by
  have frame : s'.pageToPfn = s.pageToPfn := by
    funext p
    rw [pageToPfn, pageToPfn, geometry.base]
  rw [uvaddrToKvaddr, uvaddrToKvaddr, archMmGetPfn_spec kept'.tree kept'.rooted, archMmGetPfn_spec kept.tree kept.rooted, frame]

/-- What is read depends on the pages of the leaves, too. -/
theorem SpaceKept.userRead_same {l' : List Nat} (kept : SpaceKept root s r l) (kept' : SpaceKept root s' r l')
    (geometry : SameGeometry s s') (bytes : ∀ p, IsLeaf r p → s.SameBytes s' p) (v : Nat) : s'.userRead root v = s.userRead root v := by
  rw [userRead, userRead, kept.uvaddr_same kept' geometry]
  by_cases null : s.uvaddrToKvaddr (s.pageToKvaddr root) v = 0
  · rw [if_pos null, if_pos null]
  · obtain ⟨w, leaf, place⟩ := uvaddrToKvaddr_inside kept.tree kept.rooted null
    have small : v % 16384 < 16384 := Nat.mod_lt _ (by decide)
    rw [if_neg null, if_neg null, place]
    exact congrArg some (bytes w.1 ⟨_, w, leaf, rfl⟩ _ ⟨by omega, by omega⟩)

/-- `pgfree` overwrites the page that it gets and no other. -/
theorem Held.pgfree_bytes (held : Held s p) (free : FreeList s l) (small : s.nrPages < 2 ^ 64) (done : s.pgfree (some p) = .ok s')
    (other : q ≠ p) : s.SameBytes s' q := by
  obtain ⟨f, tl, set, member, -⟩ := held
  obtain ⟨xs, ys, split⟩ := List.append_of_mem member
  obtain ⟨s₁, l', run, -, -, shredded, -⟩ := freePagesFrom_spec free set (by simpa using split : f :: tl = xs ++ (p :: []) ++ ys) small
  have step : s.freePages (some p) 1 = .ok (some (ys.headD f), s₁) := run
  have whole : s.pgfree (some p) = .ok s₁ := by simp only [PageMem.pgfree, step, Res.ok_bind]
  obtain rfl : s₁ = s' := Except.ok.inj (whole.symm.trans done)
  intro x inside
  refine shredded.other x fun y freed within => other ?_
  rw [List.mem_singleton.mp (List.mem_of_mem_take freed)] at within
  exact inside.unique within

/-- `arch_map_page` leaves the bytes of a page that the table does not map. -/
theorem SpaceKept.map_bytes {perm : Nat} {retcode : Int} (kept : SpaceKept root s r l) (small : v < 2 ^ 64) (held : Held s p)
    (unmapped : ∀ π w, r.leaf π = some w → w.1 ≠ p) (own : perm &&& pteGlobal = 0)
    (done : s.archMapPage (s.pageToKvaddr root) v p perm = .ok (retcode, s')) (used : Held s q) (away : ¬ IsLeaf r q) :
    s.SameBytes s' q := by
  have outside : q ∉ l ∧ ¬ r.Owns q := ⟨used.not_free kept.free, fun owned => used.not_dir (kept.owned_dir owned) rfl⟩
  by_cases nonzero : pgaddrRounddown v = 0
  · have failed : -einval ≠ 0 := by decide
    simp only [archMapPage, pgtableInsert, nonzero, if_true, Res.ok_bind, ne_eq, failed, not_false_eq_true] at done
    obtain ⟨-, rfl⟩ := Prod.mk.inj (Except.ok.inj done)
    exact fun _ _ => rfl
  by_cases enough : missing r v ≤ l.length
  · obtain ⟨s₁, r₁, run, moves, kept₁, -⟩ := kept.insert small nonzero held unmapped own enough
    have first := (moves.agree q outside.1 outside.2).bytes
    cases old : r.leaf (path v) with
    | none =>
      rw [old, Option.map_none] at run
      simp only [archMapPage, run, Res.ok_bind, ne_eq, not_true, if_false] at done
      obtain ⟨-, rfl⟩ := Prod.mk.inj (Except.ok.inj done)
      exact first
    | some w =>
      rw [old, Option.map_some] at run
      have heldOld : Held s₁ w.1 := moves.held kept.tree kept.free (kept.held _ w old)
      have other : q ≠ w.1 := fun same => away ⟨path v, w, old, same.symm⟩
      obtain ⟨s₂, l₂, freed, -⟩ := heldOld.pgfree kept₁.free kept₁.nrPages_lt
      simp only [archMapPage, run, Res.ok_bind, ne_eq, not_true, if_false, freed] at done
      obtain ⟨-, rfl⟩ := Prod.mk.inj (Except.ok.inj done)
      exact first.trans moves.geometry (heldOld.pgfree_bytes kept₁.free kept₁.nrPages_lt freed other)
  · obtain ⟨s₁, r₁, l₁, run, -, -, -, agree⟩ := kept.map_refused (p := p) perm small nonzero (Nat.lt_of_not_le enough)
    obtain ⟨-, rfl⟩ := Prod.mk.inj (Except.ok.inj (run.symm.trans done))
    exact (agree q outside.1 outside.2).bytes

/-- The loop of `copy_uvm` towards the user writes to pages that the table maps. -/
theorem copyLoop_outside {u len nrPages : Nat} (nowrap : u + len < 2 ^ 64) (count : nrPages = (u + len - 1) / 16384 - u / 16384 + 1)
    (rooted : r.dir [] = some root) (leaves : ∀ p, IsLeaf r p → ¬ r.Owns p) {n i j w k : Nat} {s : PageMem} (tree : Tree s r)
    (whole : i + n = nrPages) (position : (if i = 0 then u else j) = w) (lower : u ≤ w)
    (more : 0 < n → w < u + len ∧ w / 16384 = u / 16384 + i) :
    ∃ m, (s.copyLoop (s.pageToKvaddr root) u len nrPages true n i j k).2 = { s with mem := m } ∧
      ∀ x, (∀ p, IsLeaf r p → ¬ s.InPage p x) → m x = s.mem x := by
  induction n generalizing i j w k s with
  | zero => exact ⟨s.mem, rfl, fun _ _ => rfl⟩
  | succ n ih =>
    obtain ⟨below, page⟩ := more (by omega)
    obtain ⟨next, defNext⟩ : ∃ next, next = if i = nrPages - 1 then (u + len) % 2 ^ 64 else pgend w := ⟨_, rfl⟩
    obtain ⟨order, inside, onePage, -, moreNext⟩ := chunk_bounds nowrap count whole lower below page defNext
    have size : (next + 2 ^ 64 - w) % 2 ^ 64 = next - w := by omega
    simp only [copyLoop, position, ← defNext, size, if_true]
    by_cases null : s.uvaddrToKvaddr (s.pageToKvaddr root) w = 0
    · rw [if_pos null]
      exact ⟨s.mem, rfl, fun _ _ => rfl⟩
    rw [if_neg null]
    obtain ⟨x, leaf, place⟩ := uvaddrToKvaddr_inside tree rooted null
    rw [place]
    obtain ⟨m₁, def₁⟩ : ∃ m₁, m₁ = s.mem.copyFrom s.mem (s.pageToKvaddr x.1 + w % 16384) k (next - w) := ⟨_, rfl⟩
    rw [← def₁]
    -- the chunk stays inside of the page
    have outside : ∀ y, ¬ s.InPage x.1 y → m₁ y = s.mem y := by
      intro y away
      rw [def₁]
      refine ByteMem.copyFrom_outside ?_
      rw [InPage] at away
      omega
    have tree₁ : Tree { s with mem := m₁ } r := by
      refine tree.frame ⟨rfl, rfl⟩ fun d owns => ⟨rfl, Links.Same.refl _ _, fun y low high => outside y fun within => ?_⟩
      exact leaves x.1 ⟨_, x, leaf, rfl⟩ (InPage.unique within ⟨low, high⟩ ▸ owns)
    obtain ⟨m, result, rest⟩ := ih (i := i + 1) (j := next) (w := next) (k := k + (next - w)) (s := { s with mem := m₁ }) tree₁
      (by omega) (by simp) (by omega) fun positive => by
        have := moreNext positive
        omega
    exact ⟨m, result, fun y away => (rest y away).trans (outside y (away x.1 ⟨_, x, leaf, rfl⟩))⟩

/-- `copy_to_uvm` writes to pages that the table maps. -/
theorem SpaceKept.copyToUvm_outside (kept : SpaceKept root s r l) {u len : Nat} (kv : Nat) (positive : 1 ≤ len) (nowrap : u + len < 2 ^ 64) :
    ∃ m, (s.copyToUvm (s.pageToKvaddr root) u kv len).2 = { s with mem := m } ∧
      ∀ x, (∀ p, IsLeaf r p → ¬ s.InPage p x) → m x = s.mem x := by
  by_cases accepted : u ≤ xusegEnd
  · obtain ⟨n, defN⟩ : ∃ n, n = nrPagesSpanned u len := ⟨_, rfl⟩
    have count : n = (u + len - 1) / 16384 - u / 16384 + 1 := defN.trans (nrPagesSpanned_eq (by omega) (by omega))
    have leaves : ∀ p, IsLeaf r p → ¬ r.Owns p := by
      rintro _ ⟨π, w, found, rfl⟩ owned
      exact (kept.held π w found).not_dir (kept.owned_dir owned) rfl
    simp only [copyToUvm, copyUvm, not_not.mpr accepted, if_false, ← defN]
    exact copyLoop_outside nowrap count kept.rooted leaves kept.tree (Nat.zero_add n) (if_pos rfl) le_rfl fun _ => by omega
  · simp only [copyToUvm, copyUvm, accepted, not_false_eq_true, if_true]
    exact ⟨s.mem, rfl, fun _ _ => rfl⟩

end Bytes

section Shared

variable {τ : Type*} {s s' : PageMem} {l : List Nat} {spaces : τ → Option (Nat × Dirs)} {roots' : τ → Option Nat} {taken taken' : Set Nat}

/-- Writing to pages that are no directories -/
theorem Shared.setMem (shared : s.Shared l spaces taken) {m : ByteMem} (dirs : ∀ q, IsDir s q → ∀ x, s.InPage q x → m x = s.mem x) :
    { s with mem := m }.Shared l spaces taken := by
  have still : ∀ q, Held s q → Held { s with mem := m } q := by
    rintro q ⟨f, tl, set, member, type⟩
    exact ⟨f, tl, ⟨set.ring, set.sorted, set.reserved, set.bound, set.head, set.count, set.tails⟩, member, type⟩
  have free : FreeList { s with mem := m } l :=
    ⟨shared.free.ring, shared.free.sorted, shared.free.count, shared.free.unreserved, shared.free.bound⟩
  refine shared.frame free ⟨rfl, rfl⟩ (fun q dir => ⟨rfl, Links.Same.refl _ _, fun x low high => dirs q dir x ⟨low, high⟩⟩)
    (fun q _ _ _ _ _ held => still q held) fun p inHand => ⟨still p (shared.held p inHand), shared.unmapped p inHand⟩

variable [DecidableEq τ]

/-- What is done for one space leaves the bytes of the pages of another one. -/
theorem Shared.bytes {t : Option τ} (shared : s.Shared l spaces taken) (next : SpacesStep s (rootsOf spaces) taken t s' roots' taken')
    {u : τ} {e p : Nat} {q : Dirs} (other : t ≠ some u) (theirs : spaces u = some (e, q)) (leaf : IsLeaf q p) : s.SameBytes s' p := by
  have used : Held s p := by
    obtain ⟨π, w, found, rfl⟩ := leaf
    exact (shared.kept u e q theirs).held π w found
  have outside := used.not_free shared.free
  cases next with
  | new vacant done =>
    obtain ⟨rest, -, -, -, agree⟩ := SpaceKept.start shared.free shared.phys done
    exact (agree p outside).bytes
  | alloc done =>
    obtain ⟨tl, ys, -, -, -, -, -, -, agree⟩ := allocPages_served shared.free done
    exact (agree p outside).bytes
  | give mine done =>
    refine (shared.held _ mine).pgfree_bytes shared.free shared.phys.nrPages_lt done ?_
    rintro rfl
    exact shared.unmapped p mine u e q theirs leaf
  | @map t d v x flags retcode s' table small mine done =>
    obtain ⟨r, found⟩ := rootsOf_some.mp table
    have apart : t ≠ u := fun same => other (congrArg some same)
    exact (shared.kept t d r found).map_bytes small (shared.held x mine)
      (fun π w there same => shared.unmapped x mine t d r found ⟨π, w, there, same⟩) (pagePerm_own flags) done used
      fun own => shared.leaves t u d r e q p apart found theirs own leaf
  | @unmap t d v x s' table done =>
    obtain ⟨r, found⟩ := rootsOf_some.mp table
    have kept := shared.kept t d r found
    obtain ⟨s₁, r', l', run, moves, -⟩ := kept.remove v
    obtain ⟨-, rfl⟩ := Prod.mk.inj (Except.ok.inj (run.symm.trans done))
    exact (moves.agree p outside fun owned => used.not_dir (kept.owned_dir owned) rfl).bytes

/-- What is done for one space changes nothing that another one reads. -/
theorem Shared.contents {t : Option τ} (shared : s.Shared l spaces taken) (next : SpacesStep s (rootsOf spaces) taken t s' roots' taken')
    {u : τ} {e : Nat} (other : t ≠ some u) (theirs : rootsOf spaces u = some e) :
    roots' u = some e ∧ ∀ v, s'.userRead e v = s.userRead e v := by
  obtain ⟨q, found⟩ := rootsOf_some.mp theirs
  obtain ⟨l', spaces', shared', rfl, geometry, same⟩ := shared.does next
  have found' : spaces' u = some (e, q) := (same u other).trans found
  refine ⟨rootsOf_some.mpr ⟨q, found'⟩, fun v => ?_⟩
  exact (shared.kept u e q found).userRead_same (shared'.kept u e q found') geometry (fun p leaf => shared.bytes next other found leaf) v

end Shared

end PageMem

/-- The kernel address of the byte that user code reaches through an entry. -/
def TlbEntry.kvaddr (e : TlbEntry) (v : Nat) : Nat := (entryLoPfn (e.entryLo (Cpu.oddPage v)) <<< pgshift) + kernbase + pageOff v

namespace Processes

variable {τ : Type*}

def write (S : Processes τ) (m : ByteMem) : Processes τ := { S with mem := { S.mem with mem := m } }

/-- User code stores a byte through an entry of the TLB. -/
def store (S : Processes τ) (i v : Nat) (b : UInt8) : Processes τ := S.write (Function.update S.mem.mem ((S.cpu.tlb i).kvaddr v) b)

/-- The page fault of the current task, up to its return. -/
def faulted [DecidableEq τ] (S : Processes τ) (kernPgd vpn2 : Nat) : Processes τ :=
  let asids := (S.asids.pgfault S.pgd kernPgd vpn2).2
  { S with asids := asids, cpu := { S.flushed with entryHi := asids.entryHi } }

/-- The refill handler, up to its return. -/
def refilled (S : Processes τ) (v random : Nat) : Processes τ :=
  { S with cpu := { S.mem.xtlbRefill S.asids.onlineHpt (S.cpu.tlbMiss v) v random with entryHi := S.asids.entryHi } }

/-- On no ASID the refill handler finds no table, which is a page fault. -/
def underAsid [DecidableEq τ] (S : Processes τ) (kernPgd vpn2 : Nat) : Processes τ :=
  if Asids.field S.asids.entryHi = asidInvalid then S.faulted kernPgd vpn2 else S

/-- An access that misses the TLB, again after a page fault -/
def accessed [DecidableEq τ] (S : Processes τ) (kernPgd v random : Nat) : Processes τ :=
  (S.underAsid kernPgd (Cpu.vpn2Of v)).refilled v random

/-- The task runs on an ASID of its own, and the TLB has nothing for the address. -/
structure Ready (S : Processes τ) (v : Nat) : Prop where
  user : S.InUser
  online : S.asids.onlineTasks S.cpu.asid = some S.asids.current
  miss : ∀ i, i < S.cpu.tlbsize → ¬ Cpu.Matches (S.cpu.tlb i) (Cpu.vpn2Of v) S.cpu.asid

variable [DecidableEq τ] {kernPgd : Nat} {S S' S'' : Processes τ} {l : List Nat} {spaces : τ → Option (Nat × PageMem.Dirs)}

/-- What happens on the machine, with the task whose memory it is for: a step of the machine, a store of user code, below
`2 ^ 47` and through a dirty entry, a copy of the kernel to the memory of a task, and writes of the kernel to its own
memory, which is neither a page directory nor mapped. -/
inductive Acts (kernPgd : Nat) (S : Processes τ) : Option τ → Processes τ → Prop
  | pages {who : Option τ} {s' : PageMem} {c' : Cpu} {roots' : τ → Option Nat} {taken' : Set Nat}
      (change : PageMem.SpacesStep S.mem S.roots S.taken who s' roots' taken')
      (next : Step kernPgd S { S with mem := s', cpu := c', roots := roots', taken := taken' }) :
      Acts kernPgd S who { S with mem := s', cpu := c', roots := roots', taken := taken' }
  | turn {c' : Cpu} {asids' : Asids τ} (next : Step kernPgd S { S with cpu := c', asids := asids' }) :
      Acts kernPgd S none { S with cpu := c', asids := asids' }
  | store {i v : Nat} {b : UInt8} (user : S.InUser) (bound : i < S.cpu.tlbsize) (small : v < 2 ^ 47)
      (found : Cpu.Matches (S.cpu.tlb i) (Cpu.vpn2Of v) S.cpu.asid) (valid : (S.cpu.tlb i).Valid (Cpu.oddPage v))
      (dirty : (S.cpu.tlb i).entryLo (Cpu.oddPage v) / 4 % 2 = 1) :
      Acts kernPgd S (some S.asids.current) (S.store i v b)
  | copy {t : τ} {d u kv len : Nat} (table : S.roots t = some d) (positive : 1 ≤ len) (nowrap : u + len < 2 ^ 64) :
      Acts kernPgd S (some t) { S with mem := (S.mem.copyToUvm (S.mem.pageToKvaddr d) u kv len).2 }
  | own {m : ByteMem} (dirs : ∀ q, S.mem.IsDir q → ∀ x, S.mem.InPage q x → m x = S.mem.mem x)
      (users : ∀ t d q, S.roots t = some d → S.mem.Mapped (S.mem.pageToKvaddr d) q → ∀ x, S.mem.InPage q x → m x = S.mem.mem x) :
      Acts kernPgd S none (S.write m)

/-- The steps of the machine are all among them. -/
theorem Step.acts (next : Step kernPgd S S') : ∃ who, Acts kernPgd S who S' := by
  have whole := next
  cases next with
  | pages next => exact ⟨none, .pages next whole⟩
  | @new t asid d s' vacant done => exact ⟨some t, .pages (.new vacant done) whole⟩
  | @map t d v p flags retcode s' table small mine harmless done => exact ⟨some t, .pages (.map table small mine done) whole⟩
  | @unmap t d v p s' c' table harmless done =>
    simp only [PageMem.archUnmapPage, PageMem.pgtableRemove] at done
    obtain ⟨⟨q, s₁⟩, clear, last⟩ := Res.bind_eq_ok.mp done
    obtain ⟨rfl, same⟩ := Prod.mk.inj (Except.ok.inj last)
    obtain ⟨rfl, -⟩ := Prod.mk.inj same
    exact ⟨some t, .pages (.unmap table clear) whole⟩
  | resume => exact ⟨none, .turn whole⟩
  | refill user small miss => exact ⟨none, .turn whole⟩
  | fault user running done => exact ⟨none, .turn whole⟩
  | switch user registered => exact ⟨none, .turn whole⟩

namespace Kept

omit [DecidableEq τ] in
/-- Writing to pages that are no directories -/
theorem write (kept : Kept kernPgd S l spaces) {m : ByteMem} (dirs : ∀ q, S.mem.IsDir q → ∀ x, S.mem.InPage q x → m x = S.mem.mem x) :
    Kept kernPgd (S.write m) l spaces := by
  have shared := kept.shared.setMem dirs
  constructor
  case shared => exact shared
  case table => exact kept.table
  case asids => exact kept.asids
  case owners => exact kept.owners
  case nonempty => exact kept.nonempty
  case size => exact kept.size
  case coherent =>
    intro a t d online table
    obtain ⟨r, mine⟩ := kept.root table
    refine (kept.coherent a t d online table).change fun v _ _ => ?_
    exact (kept.shared.kept t d r mine).tableLo_same (shared.kept t d r mine) ⟨rfl, rfl⟩ rfl
  case absent => exact kept.absent

omit [DecidableEq τ] in
/-- What a task reads depends on the pages it maps. -/
theorem write_reads (kept : Kept kernPgd S l spaces) {m : ByteMem} (dirs : ∀ q, S.mem.IsDir q → ∀ x, S.mem.InPage q x → m x = S.mem.mem x)
    {t : τ} {d : Nat} {r : PageMem.Dirs} (mine : spaces t = some (d, r))
    (users : ∀ p, PageMem.IsLeaf r p → ∀ x, S.mem.InPage p x → m x = S.mem.mem x) (v : Nat) :
    (S.write m).mem.userRead d v = S.mem.userRead d v :=
  (kept.shared.kept t d r mine).userRead_same ((kept.shared.setMem dirs).kept t d r mine) ⟨rfl, rfl⟩ users v

omit [DecidableEq τ] in
/-- Writes to the pages of one task -/
theorem write_own (kept : Kept kernPgd S l spaces) {u : τ} {e : Nat} {q : PageMem.Dirs} (mine : spaces u = some (e, q)) {m : ByteMem}
    (outside : ∀ x, (∀ p, PageMem.IsLeaf q p → ¬ S.mem.InPage p x) → m x = S.mem.mem x) :
    Kept kernPgd (S.write m) l spaces ∧
      ∀ t d, u ≠ t → S.roots t = some d → ∀ v, (S.write m).mem.userRead d v = S.mem.userRead d v := by
  have dirs : ∀ x, S.mem.IsDir x → ∀ y, S.mem.InPage x y → m y = S.mem.mem y := by
    refine fun x dir y inside => outside y ?_
    rintro _ ⟨π, w, found, rfl⟩ within
    exact ((kept.shared.kept u e q mine).held π w found).not_dir dir (within.unique inside)
  refine ⟨kept.write dirs, fun t d other table v => ?_⟩
  obtain ⟨r, theirs⟩ := kept.root table
  refine kept.write_reads dirs theirs (fun p leaf x inside => outside x fun p' leaf' within => ?_) v
  exact kept.shared.leaves u t e q d r p' other mine theirs leaf' (within.unique inside ▸ leaf)

omit [DecidableEq τ] in
/-- User code reaches a page of the current task, and the byte that the table has for the address. -/
theorem tlb_inside (kept : Kept kernPgd S l spaces) {i v : Nat} (user : S.InUser) (bound : i < S.cpu.tlbsize) (small : v < 2 ^ 47)
    (found : Cpu.Matches (S.cpu.tlb i) (Cpu.vpn2Of v) S.cpu.asid) (valid : (S.cpu.tlb i).Valid (Cpu.oddPage v)) :
    ∃ d r w, spaces S.asids.current = some (d, r) ∧ r.leaf (path v) = some w ∧
      (S.cpu.tlb i).kvaddr v = S.mem.pageToKvaddr w.1 + v % 16384 ∧
      (entryLoPfn ((S.cpu.tlb i).entryLo (Cpu.oddPage v)) ≠ 0 →
        S.mem.uvaddrToKvaddr (S.mem.pageToKvaddr d) v = (S.cpu.tlb i).kvaddr v) := by
  obtain ⟨d, r, w, mine, leaf, -, frame⟩ := kept.reached user bound small found valid
  have space := kept.shared.kept _ d r mine
  refine ⟨d, r, w, mine, leaf, ?_, fun nonzero => ?_⟩
  · rw [TlbEntry.kvaddr, frame, pageOff_eq]
    rfl
  · rw [PageMem.uvaddrToKvaddr, PageMem.archMmGetPfn_spec space.tree space.rooted, leaf, Option.elim_some, ← frame, if_neg nonzero]
    rfl

omit [DecidableEq τ] in
/-- A store is a write to a page of the current task. -/
theorem store_own (kept : Kept kernPgd S l spaces) {i v : Nat} (user : S.InUser) (bound : i < S.cpu.tlbsize) (small : v < 2 ^ 47)
    (found : Cpu.Matches (S.cpu.tlb i) (Cpu.vpn2Of v) S.cpu.asid) (valid : (S.cpu.tlb i).Valid (Cpu.oddPage v)) (b : UInt8) :
    Kept kernPgd (S.store i v b) l spaces ∧
      ∀ t d, S.asids.current ≠ t → S.roots t = some d → ∀ w, (S.store i v b).mem.userRead d w = S.mem.userRead d w := by
  obtain ⟨e, q, x, mine, leaf, place, -⟩ := kept.tlb_inside user bound small found valid
  have low : v % 16384 < 16384 := Nat.mod_lt _ (by decide)
  refine kept.write_own mine fun y away => Function.update_of_ne (fun here => ?_) _ _
  refine away x.1 ⟨_, x, leaf, rfl⟩ ?_
  rw [here, place]
  exact ⟨by omega, by omega⟩

/-- Every act keeps the invariant and what the tasks read that it is not for. -/
theorem acts {who : Option τ} (kept : Kept kernPgd S l spaces) (next : Acts kernPgd S who S') :
    (∃ l' spaces', Kept kernPgd S' l' spaces') ∧ ∀ t d, who ≠ some t → S.roots t = some d →
      S'.roots t = some d ∧ ∀ v, S'.mem.userRead d v = S.mem.userRead d v := by
  cases next with
  | pages change next =>
    refine ⟨kept.step next, fun t d other table => ?_⟩
    rw [← kept.table] at change table
    exact kept.shared.contents change other table
  | turn next => exact ⟨kept.step next, fun t d _ table => ⟨table, fun _ => rfl⟩⟩
  | @store i v b user bound small found valid dirty =>
    obtain ⟨kept', others⟩ := kept.store_own user bound small found valid b
    exact ⟨⟨l, spaces, kept'⟩, fun t d other table => ⟨table, others t d (fun same => other (congrArg some same)) table⟩⟩
  | @copy u e a kv len table positive nowrap =>
    obtain ⟨q, mine⟩ := kept.root table
    obtain ⟨m, result, outside⟩ := (kept.shared.kept u e q mine).copyToUvm_outside kv positive nowrap
    obtain ⟨kept', others⟩ := kept.write_own mine outside
    rw [result]
    exact ⟨⟨l, spaces, kept'⟩, fun t d other found => ⟨found, others t d (fun same => other (congrArg some same)) found⟩⟩
  | own dirs users =>
    refine ⟨⟨l, spaces, kept.write dirs⟩, fun t d _ table => ⟨table, fun v => ?_⟩⟩
    obtain ⟨r, mine⟩ := kept.root table
    refine kept.write_reads dirs mine (fun p leaf => users t d p table ?_) v
    obtain ⟨π, w, found, rfl⟩ := leaf
    exact (kept.shared.kept t d r mine).mapped_iff.mpr ⟨π, w, found, rfl⟩

omit [DecidableEq τ] in
/-- For the ASID that `handle_pgfault` gives to a task the TLB has nothing. -/
theorem flushed_absent (kept : Kept kernPgd S l spaces) (invalid : Asids.field S.asids.entryHi = asidInvalid) {a : Fin 256}
    (choice : (if S.asids.nextAsid = asidInvalid then asidMin else S.asids.nextAsid) = a) : S.flushed.Absent a := by
  by_cases exhausted : S.asids.nextAsid = asidInvalid
  · rw [flushed, if_pos ⟨invalid, exhausted⟩]
    exact (S.cpu.tlbFlushAll_spec kept.size).2 a
  · rw [flushed, if_neg fun both => exhausted both.2]
    refine kept.absent a ?_
    by_contra known
    obtain ⟨t, found⟩ := Option.ne_none_iff_exists'.mp known
    have below := (kept.asids.assigned.known _ t found).2.1
    rw [if_neg exhausted] at choice
    omega

/-- After `handle_pgfault` the task runs on an ASID of its own, for which the TLB has nothing. -/
theorem faulted_online {d : Nat} (kept : Kept kernPgd S l spaces) (invalid : Asids.field S.asids.entryHi = asidInvalid)
    (table : S.roots S.asids.current = some d) (vpn2 : Nat) :
    (S.faulted kernPgd vpn2).asids.current = S.asids.current ∧
      (S.faulted kernPgd vpn2).asids.onlineTasks (S.faulted kernPgd vpn2).cpu.asid = some S.asids.current ∧
      (S.faulted kernPgd vpn2).cpu.Absent (S.faulted kernPgd vpn2).cpu.asid := by
  obtain ⟨n, choice⟩ : ∃ n, (if S.asids.nextAsid = asidInvalid then asidMin else S.asids.nextAsid) = n := ⟨_, rfl⟩
  obtain ⟨-, directory, current, saved, field, -⟩ := Asids.pgfault_given S.pgd kernPgd invalid kept.asids.assigned.high vpn2 choice
  have kept' : Kept kernPgd (S.faulted kernPgd vpn2) l spaces := kept.fault (by rw [table]; exact Option.some_ne_none d) rfl
  have asid : ((S.faulted kernPgd vpn2).cpu.asid : Nat) = n := by
    rw [← field, ← saved]
    rfl
  refine ⟨current, ?_, (kept.flushed_absent invalid (choice.trans asid.symm)).registers rfl rfl⟩
  rcases kept'.runs_as rfl with online | ⟨-, null⟩
  · exact online.trans (congrArg some current)
  · rw [asid] at null
    have own : S.pgd S.asids.current = S.mem.pageToKvaddr d := by rw [pgd, table, Option.elim_some]
    exact absurd ((own.symm.trans directory.symm).trans null) (PageMem.kvaddr_pos _ _)

end Kept

/-- The runs of the machine with all that is written to memory. -/
inductive ActsRun (kernPgd : Nat) (s₀ : PageMem) : Processes τ → Prop
  | start {S : Processes τ} (run : Run kernPgd s₀ S) : ActsRun kernPgd s₀ S
  | act {S S' : Processes τ} {who : Option τ} (run : ActsRun kernPgd s₀ S) (next : Acts kernPgd S who S') : ActsRun kernPgd s₀ S'

/-- Any number of acts, none of which is for the task. -/
inductive Others (kernPgd : Nat) (t : τ) (S : Processes τ) : Processes τ → Prop
  | none : Others kernPgd t S S
  | act {S' S'' : Processes τ} {who : Option τ} (before : Others kernPgd t S S') (other : who ≠ some t)
      (next : Acts kernPgd S' who S'') : Others kernPgd t S S''

section Runs

variable {s₀ : PageMem} {l₀ : List Nat} {t : τ} {d i v : Nat}

theorem ActsRun.kept (free : s₀.FreeList l₀) (phys : s₀.PhysBound) (run : ActsRun kernPgd s₀ S) : ∃ l spaces, Kept kernPgd S l spaces := by
  induction run with
  | start run => exact run.kept free phys
  | act run next ih =>
    obtain ⟨l, spaces, kept⟩ := ih
    exact (kept.acts next).1

theorem Others.kept (kept : Kept kernPgd S l spaces) (others : Others kernPgd t S S') (table : S.roots t = some d) :
    (∃ l' spaces', Kept kernPgd S' l' spaces') ∧ S'.roots t = some d ∧ ∀ v, S'.mem.userRead d v = S.mem.userRead d v := by
  induction others with
  | none => exact ⟨⟨l, spaces, kept⟩, table, fun _ => rfl⟩
  | act before other next ih =>
    obtain ⟨⟨l', spaces', kept'⟩, table', reads⟩ := ih
    obtain ⟨still, contents⟩ := kept'.acts next
    obtain ⟨table'', reads'⟩ := contents t d other table'
    exact ⟨still, table'', fun v => (reads' v).trans (reads v)⟩

/-- Whatever happens that is not for a task, in any number of steps, the task has its table and finds every byte of its
memory as it was. -/
theorem ActsRun.memory_stays (free : s₀.FreeList l₀) (phys : s₀.PhysBound) (run : ActsRun kernPgd s₀ S)
    (others : Others kernPgd t S S') (table : S.roots t = some d) :
    S'.roots t = some d ∧ ∀ v, S'.mem.userRead d v = S.mem.userRead d v := by
  obtain ⟨l, spaces, kept⟩ := run.kept free phys
  exact (others.kept kept table).2

theorem ActsRun.memory_stays_true : ∃ (S S' : Processes Bool), S.cpu.Cached S.cpu.asid 0x4000 ∧ S'.mem.mem 0 ≠ S.mem.mem 0 ∧
    S'.roots true = some 1 ∧ ∀ v, S'.mem.userRead 1 v = S.mem.userRead 1 v := by
  obtain ⟨s₀, l₀, S, free, phys, run, user, cached, running, mine, theirs, -⟩ := one_page_used
  have copy : Acts 1 S (some false) { S with mem := (S.mem.copyToUvm (S.mem.pageToKvaddr 2) 0x4000 0 1).2 } :=
    .copy theirs (by decide) (by decide)
  generalize { S with mem := (S.mem.copyToUvm (S.mem.pageToKvaddr 2) 0x4000 0 1).2 } = S₁ at copy
  have pages : ∀ q x, S₁.mem.InPage q x → Function.update S₁.mem.mem 0 (S.mem.mem 0 + 1) x = S₁.mem.mem x := by
    intro q x inside
    refine Function.update_of_ne ?_ ..
    rw [PageMem.InPage, PageMem.pageToKvaddr_eq] at inside
    omega
  have own : Acts 1 S₁ none (S₁.write (Function.update S₁.mem.mem 0 (S.mem.mem 0 + 1))) :=
    .own (fun q _ => pages q) fun _ _ q _ _ => pages q
  have others : Others 1 true S _ := (Others.none.act (by decide) copy).act (by decide) own
  refine ⟨S, _, cached, ?_, ActsRun.memory_stays free phys (.start run) others mine⟩
  show Function.update S₁.mem.mem 0 (S.mem.mem 0 + 1) 0 ≠ _
  rw [Function.update_self]
  exact PageMem.byte_succ_ne _

/-- User code sees its memory through the TLB as the kernel sees it through the table: it loads the byte that is there, and
what it stores is found at this address and changes no other one. Frame 0 is no page for `UVADDR_TO_KVADDR`. -/
theorem ActsRun.loads_stores (free : s₀.FreeList l₀) (phys : s₀.PhysBound) (run : ActsRun kernPgd s₀ S) (user : S.InUser)
    (bound : i < S.cpu.tlbsize) (small : v < 2 ^ 47) (found : Cpu.Matches (S.cpu.tlb i) (Cpu.vpn2Of v) S.cpu.asid)
    (valid : (S.cpu.tlb i).Valid (Cpu.oddPage v)) (frame : entryLoPfn ((S.cpu.tlb i).entryLo (Cpu.oddPage v)) ≠ 0) (b : UInt8) :
    ∃ d, S.roots S.asids.current = some d ∧ S.mem.userRead d v = some (S.mem.mem ((S.cpu.tlb i).kvaddr v)) ∧
      ∀ w, w < 2 ^ 47 → (S.store i v b).mem.userRead d w = if w = v then some b else S.mem.userRead d w := by
  obtain ⟨l, spaces, kept⟩ := run.kept free phys
  obtain ⟨d, r, x, mine, leaf, place, address⟩ := kept.tlb_inside user bound small found valid
  have here := address frame
  have space := kept.shared.kept _ d r mine
  have space' := (kept.store_own user bound small found valid b).1.shared.kept _ d r mine
  have nonzero : (S.cpu.tlb i).kvaddr v ≠ 0 := by
    rw [place, PageMem.pageToKvaddr_eq]
    omega
  refine ⟨d, kept.table ▸ PageMem.rootsOf_some.mpr ⟨r, mine⟩, ?_, fun w below => ?_⟩
  · rw [PageMem.userRead, here, if_neg nonzero]
  have written : (S.store i v b).mem.mem = Function.update S.mem.mem ((S.cpu.tlb i).kvaddr v) b := rfl
  have same := space.uvaddr_same space' ⟨rfl, rfl⟩ w
  rw [PageMem.userRead, same, written]
  by_cases equal : w = v
  · rw [equal, here, if_neg nonzero, if_pos rfl, Function.update_self]
  rw [if_neg equal, PageMem.userRead]
  by_cases null : S.mem.uvaddrToKvaddr (S.mem.pageToKvaddr d) w = 0
  · rw [if_pos null, if_pos null]
  obtain ⟨y, there, position⟩ := PageMem.uvaddrToKvaddr_inside space.tree space.rooted null
  -- a page is mapped at one address, so that another byte of the space is another byte of the memory
  have other : S.mem.pageToKvaddr y.1 + w % 16384 ≠ S.mem.pageToKvaddr x.1 + v % 16384 := by
    intro clash
    have low : v % 16384 < 16384 := Nat.mod_lt _ (by decide)
    have low' : w % 16384 < 16384 := Nat.mod_lt _ (by decide)
    have page : y.1 = x.1 := by
      rw [PageMem.pageToKvaddr_eq, PageMem.pageToKvaddr_eq] at clash
      omega
    have pages := (path_inj below small).mp (space.apart _ _ y x there leaf page)
    rw [page] at clash
    omega
  rw [if_neg null, if_neg null, position, place, Function.update_of_ne other]

theorem ActsRun.loads_stores_one : ∃ (S : Processes Bool) (i d : Nat), S.cpu.Cached S.cpu.asid 0x4000 ∧
    (S.store i 0x4000 7).mem.userRead d 0x4000 = some 7 := by
  obtain ⟨s₀, l₀, S, free, phys, run, user, ⟨i, bound, found, valid⟩, running, mine, -, frame⟩ := one_page_used
  have reached : entryLoPfn ((S.cpu.tlb i).entryLo (Cpu.oddPage 0x4000)) ≠ 0 := by
    obtain ⟨l, spaces, kept⟩ := run.kept free phys
    obtain ⟨d, r, w, own, -, current, -⟩ := kept.reached user bound (by decide) found valid
    have table : S.roots true = some d := kept.table ▸ running ▸ PageMem.rootsOf_some.mpr ⟨r, own⟩
    rw [current, ← Option.some.inj (mine.symm.trans table)]
    exact frame
  obtain ⟨d, -, -, stored⟩ := ActsRun.loads_stores free phys (.start run) user bound (by decide) found valid reached 7
  refine ⟨S, i, d, ⟨i, bound, found, valid⟩, ?_⟩
  rw [stored 0x4000 (by decide), if_pos rfl]

/-- After a page fault of a task on no ASID the access is as good as one of a task on an ASID, also when the ASIDs are used up. -/
theorem Kept.underAsid (kept : Kept kernPgd S l spaces) (user : S.InUser) (table : S.roots S.asids.current = some d)
    (small : v < 2 ^ 47) (miss : ∀ i, i < S.cpu.tlbsize → ¬ Cpu.Matches (S.cpu.tlb i) (Cpu.vpn2Of v) S.cpu.asid)
    (under : S.underAsid kernPgd (Cpu.vpn2Of v) = S') :
    Kept kernPgd S' l spaces ∧ S'.Ready v ∧ (∀ t, Others kernPgd t S S') ∧ S'.mem = S.mem ∧ S'.roots = S.roots ∧
      S'.asids.current = S.asids.current ∧ S'.cpu.tlbsize = S.cpu.tlbsize := by
  rw [Processes.underAsid] at under
  by_cases invalid : Asids.field S.asids.entryHi = asidInvalid
  · rw [if_pos invalid] at under
    subst under
    have running : S.roots S.asids.current ≠ none := by
      rw [table]
      exact Option.some_ne_none d
    obtain ⟨current, online, absent⟩ := kept.faulted_online invalid table (Cpu.vpn2Of v)
    have size : S.flushed.tlbsize = S.cpu.tlbsize := by
      rw [flushed]
      split
      · exact (S.cpu.tlbFlushAll_spec kept.size).1
      · rfl
    have ready : (S.faulted kernPgd (Cpu.vpn2Of v)).Ready v :=
      ⟨rfl, online.trans (congrArg some current.symm), fun i inside => absent i v inside small⟩
    have others : ∀ t, Others kernPgd t S (S.faulted kernPgd (Cpu.vpn2Of v)) := fun t =>
      .act .none (Option.some_ne_none t).symm (.turn (.fault user running rfl))
    exact ⟨kept.fault running rfl, ready, others, rfl, rfl, current, size⟩
  · rw [if_neg invalid] at under
    subst under
    have online := kept.asids.registered.resolve_left (kept.asids.saved ▸ invalid)
    rw [← kept.asids.saved, ← user] at online
    exact ⟨kept, ⟨user, online, miss⟩, fun t => .none, rfl, rfl, rfl, rfl⟩

omit [DecidableEq τ] in
/-- The refill handler then finds the page, and user code reaches the byte that the table has. -/
theorem Kept.refilled {random : Nat} (kept : Kept kernPgd S l spaces) (ready : S.Ready v) (table : S.roots S.asids.current = some d)
    (small : v < 2 ^ 47) (valid : S.mem.tableLo d v / 2 % 2 = 1) (frame : entryLoPfn (S.mem.tableLo d v) ≠ 0)
    (bound : random < S.cpu.tlbsize) :
    ∃ i, i < (S.refilled v random).cpu.tlbsize ∧
      Cpu.Matches ((S.refilled v random).cpu.tlb i) (Cpu.vpn2Of v) (S.refilled v random).cpu.asid ∧
      ((S.refilled v random).cpu.tlb i).Valid (Cpu.oddPage v) ∧
      S.mem.userRead d v = some (S.mem.mem (((S.refilled v random).cpu.tlb i).kvaddr v)) := by
  obtain ⟨r, mine⟩ := kept.root table
  obtain ⟨i, inside, found, present⟩ := (kept.space ready.online mine).refill_cached rfl bound valid
  have kept' : Kept kernPgd (S.refilled v random) l spaces := (kept.refill ready.user ready.miss).registers kept.asids rfl rfl rfl
  have asid : (S.refilled v random).cpu.asid = S.cpu.asid := Fin.ext ready.user.symm
  rw [← asid] at found
  refine ⟨i, inside, found, present, ?_⟩
  obtain ⟨e, q, w, own, -, word, -⟩ := kept'.reached rfl inside small found present
  obtain ⟨e', q', w', own', -, place, address⟩ := kept'.tlb_inside rfl inside small found present
  obtain rfl : d = e := Option.some.inj (table.symm.trans (kept'.table ▸ PageMem.rootsOf_some.mpr ⟨q, own⟩))
  obtain ⟨rfl, rfl⟩ := Prod.mk.inj (Option.some.inj (own.symm.trans own'))
  have nonzero : ((S.refilled v random).cpu.tlb i).kvaddr v ≠ 0 := by
    rw [place, PageMem.pageToKvaddr_eq]
    omega
  have there : S.mem.uvaddrToKvaddr (S.mem.pageToKvaddr d) v = ((S.refilled v random).cpu.tlb i).kvaddr v := address (word ▸ frame)
  rw [PageMem.userRead, there, if_neg nonzero]

/-- Where a task has a page, an access that misses the TLB is served: afterwards the TLB has an entry for it, which leads to
the byte that the task has there. -/
theorem ActsRun.access_served (free : s₀.FreeList l₀) (phys : s₀.PhysBound) (run : ActsRun kernPgd s₀ S) (user : S.InUser)
    (table : S.roots S.asids.current = some d) (small : v < 2 ^ 47)
    (miss : ∀ i, i < S.cpu.tlbsize → ¬ Cpu.Matches (S.cpu.tlb i) (Cpu.vpn2Of v) S.cpu.asid)
    (valid : S.mem.tableLo d v / 2 % 2 = 1) (frame : entryLoPfn (S.mem.tableLo d v) ≠ 0) {random : Nat}
    (bound : random < S.cpu.tlbsize) :
    (∀ t, Others kernPgd t S (S.accessed kernPgd v random)) ∧ (S.accessed kernPgd v random).InUser ∧
      (S.accessed kernPgd v random).asids.current = S.asids.current ∧
      ∃ i, i < (S.accessed kernPgd v random).cpu.tlbsize ∧
        Cpu.Matches ((S.accessed kernPgd v random).cpu.tlb i) (Cpu.vpn2Of v) (S.accessed kernPgd v random).cpu.asid ∧
        ((S.accessed kernPgd v random).cpu.tlb i).Valid (Cpu.oddPage v) ∧
        S.mem.userRead d v = some (S.mem.mem (((S.accessed kernPgd v random).cpu.tlb i).kvaddr v)) := by
  obtain ⟨l, spaces, kept⟩ := run.kept free phys
  obtain ⟨S₁, under⟩ : ∃ S₁, S.underAsid kernPgd (Cpu.vpn2Of v) = S₁ := ⟨_, rfl⟩
  obtain ⟨kept₁, ready, others, mem, roots, current, size⟩ := kept.underAsid user table small miss under
  have table₁ : S₁.roots S₁.asids.current = some d := by rw [roots, current, table]
  rw [accessed, under]
  rw [← mem] at valid frame ⊢
  have turn : Acts kernPgd S₁ none { S₁ with cpu := S₁.mem.xtlbRefill S₁.asids.onlineHpt (S₁.cpu.tlbMiss v) v random } :=
    .turn (.refill ready.user small ready.miss)
  have steps := fun t => ((others t).act (Option.some_ne_none t).symm turn).act (Option.some_ne_none t).symm (.turn .resume)
  exact ⟨steps, rfl, current, kept₁.refilled ready table₁ small valid frame (size ▸ bound)⟩

theorem ActsRun.access_served_one : ∃ (S : Processes Bool) (i : Nat), Asids.field S.asids.entryHi = asidInvalid ∧
    (∀ t, Others 1 t S (S.accessed 1 0x4000 0)) ∧ ((S.accessed 1 0x4000 0).cpu.tlb i).Valid (Cpu.oddPage 0x4000) ∧
    S.mem.userRead 1 0x4000 = some (S.mem.mem (((S.accessed 1 0x4000 0).cpu.tlb i).kvaddr 0x4000)) := by
  obtain ⟨s₀, l₀, S, free, phys, run, user, -, invalid, first, mine, -, valid, frame, nonempty, absent⟩ := one_page
  have table : S.roots S.asids.current = some 1 := first ▸ mine
  have miss := fun i bound => absent S.cpu.asid i 0x4000 bound (by decide)
  obtain ⟨others, -, -, i, -, -, present, byte⟩ :=
    ActsRun.access_served free phys (.start run) user table (by decide) miss valid frame nonempty
  exact ⟨S, i, invalid, others, present, byte⟩

end Runs

end Processes

end Xv6
