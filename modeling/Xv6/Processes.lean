import Xv6.Spaces
import Xv6.AsidRuns

namespace Xv6

namespace Cpu

/-- No entry is for a user address under the ASID. -/
def Absent (c : Cpu) (a : Fin 256) : Prop := ∀ i v, i < c.tlbsize → v < 2 ^ 47 → ¬ Matches (c.tlb i) (vpn2Of v) a

variable {c c' : Cpu} {a b : Fin 256} {lo : Nat → Nat} {i : Nat} {new : TlbEntry}

theorem Absent.registers (absent : c.Absent a) (size : c'.tlbsize = c.tlbsize) (same : c'.tlb = c.tlb) : c'.Absent a := by
  intro j v bound small
  rw [same]
  exact absent j v (size ▸ bound) small

/-- An entry gives way to one that is for no more of these addresses. -/
theorem Absent.overwrite (absent : c.Absent a) (size : c'.tlbsize = c.tlbsize) (tlb : c'.tlb = Function.update c.tlb i new)
    (fewer : ∀ v, v < 2 ^ 47 → Matches new (vpn2Of v) a → Matches (c.tlb i) (vpn2Of v) a) : c'.Absent a := by
  intro j v bound small found
  rw [tlb] at found
  rw [size] at bound
  by_cases here : j = i
  · rw [here, Function.update_self] at found
    exact absent i v (here ▸ bound) small (fewer v small found)
  · rw [Function.update_of_ne here] at found
    exact absent j v bound small found

/-- An entry gives way to one of another space. -/
theorem Coherent.overwrite (coherent : Coherent c a lo) (size : c'.tlbsize = c.tlbsize)
    (tlb : c'.tlb = Function.update c.tlb i new) (foreign : ∀ v, v < 2 ^ 47 → ¬ Matches new (vpn2Of v) a) :
    Coherent c' a lo := by
  have old : ∀ j v, v < 2 ^ 47 → Matches (c'.tlb j) (vpn2Of v) a → c'.tlb j = c.tlb j := by
    intro j v small found
    rw [tlb] at found ⊢
    by_cases here : j = i
    · rw [here, Function.update_self] at found
      exact absurd found (foreign v small)
    · exact Function.update_of_ne here ..
  constructor
  case nonempty => exact size ▸ coherent.nonempty
  case size => exact size ▸ coherent.size
  case own =>
    intro j v bound small found
    have same := old j v small found
    rw [same] at found ⊢
    exact coherent.own j v (size ▸ bound) small found
  case single =>
    intro j k v bound bound' small left right
    rw [old j v small left] at left
    rw [old k v small right] at right
    exact coherent.single j k v (size ▸ bound) (size ▸ bound') small left right
  case current =>
    intro j v bound small found valid
    have same := old j v small found
    rw [same] at found valid ⊢
    exact coherent.current j v (size ▸ bound) small found valid

/-- The first entries are dummies. -/
theorem flush_prefix (c : Cpu) {n : Nat} (few : n ≤ 64) {c' : Cpu}
    (flushed : (List.range n).foldl
      (fun c i => { c with index := i, entryHi := entryhiDummy i, entryLo0 := 0, entryLo1 := 0 }.tlbwi) c = c') :
    c'.tlbsize = c.tlbsize ∧ ∀ j, j < n → 2 ^ 32 ≤ (c'.tlb j).vpn2 := by
  induction n generalizing c' with
  | zero =>
    subst flushed
    exact ⟨rfl, fun j bound => absurd bound (Nat.not_lt_zero j)⟩
  | succ n ih =>
    rw [List.range_succ, List.foldl_append] at flushed
    obtain ⟨size, dummies⟩ := ih (by omega) rfl
    obtain ⟨c₁, before⟩ : ∃ c₁, (List.range n).foldl
      (fun c i => { c with index := i, entryHi := entryhiDummy i, entryLo0 := 0, entryLo1 := 0 }.tlbwi) c = c₁ := ⟨_, rfl⟩
    rw [before] at flushed size dummies
    subst flushed
    have place : n % probeFailure = n := Nat.mod_eq_of_lt (by rw [probeFailure]; omega)
    refine ⟨size, fun j bound => ?_⟩
    show 2 ^ 32 ≤ (Function.update c₁.tlb (n % probeFailure) _ j).vpn2
    rw [place]
    by_cases here : j = n
    · rw [here, Function.update_self]
      exact entryhiDummy_vpn2 (by omega)
    · rw [Function.update_of_ne here]
      exact dummies j (by omega)

/-- After `tlb_flush_all` there is nothing for any user address. -/
theorem tlbFlushAll_spec (c : Cpu) (size : c.tlbsize ≤ 64) : c.tlbFlushAll.tlbsize = c.tlbsize ∧ ∀ a, c.tlbFlushAll.Absent a := by
  obtain ⟨same, dummies⟩ := c.flush_prefix size rfl
  refine ⟨same, fun a i v bound small found => ?_⟩
  have high : 2 ^ 32 ≤ (c.tlbFlushAll.tlb i).vpn2 := dummies i (same ▸ bound)
  have low := vpn2_lt small
  rw [found.1] at high
  omega

end Cpu

namespace Asids

variable {τ : Type*} [DecidableEq τ] {pgd pgd' : τ → Nat} {kernPgd : Nat} {s : Asids τ}

omit [DecidableEq τ] in
/-- Only the directories of the tasks with an ASID count. -/
theorem AsidKept.congr (kept : AsidKept pgd kernPgd s) (same : ∀ a t, s.onlineTasks a = some t → pgd' t = pgd t) :
    AsidKept pgd' kernPgd s := by
  refine ⟨⟨kept.assigned.low, kept.assigned.high, kept.assigned.kernel, fun a t found => ?_, kept.assigned.unknown⟩,
    kept.saved, kept.registered⟩
  obtain ⟨low, below, own⟩ := kept.assigned.known a t found
  exact ⟨low, below, own.trans (same a t found).symm⟩

omit [DecidableEq τ] in
/-- Nobody has an ASID when the first one is the next. -/
theorem Assigned.nobody (assigned : Assigned pgd kernPgd s) (first : s.nextAsid = asidMin) (a : Nat) : s.onlineTasks a = none := by
  by_contra some
  obtain ⟨t, found⟩ := Option.ne_none_iff_exists'.mp some
  obtain ⟨low, below, -⟩ := assigned.known a t found
  omega

/-- What a fault does to `online_tasks`: nothing, or the current task gets an ASID that nobody had. -/
theorem pgfault_online (kept : AsidKept pgd kernPgd s) (vpn2 : Nat) :
    ((s.pgfault pgd kernPgd vpn2).2.onlineTasks = s.onlineTasks ∧ field s.entryHi ≠ asidInvalid) ∨
      ∃ n, n < asidInvalid ∧ field s.entryHi = asidInvalid ∧ (s.nextAsid ≠ asidInvalid → s.onlineTasks n = none) ∧
        (s.pgfault pgd kernPgd vpn2).2.onlineTasks =
          Function.update (if s.nextAsid = asidInvalid then fun _ => none else s.onlineTasks) n (some s.current) := by
  by_cases invalid : field s.entryHi = asidInvalid
  · right
    by_cases exhausted : s.nextAsid = asidInvalid
    · obtain ⟨flushed, next, same⟩ := asidFlush_spec pgd kernPgd (s := s.trapped vpn2) fun a t found => by
        obtain ⟨low, high, -⟩ := kept.assigned.known a t found
        rw [exhausted] at high
        exact ⟨low, high⟩
      obtain ⟨e, result, -⟩ := pgfault_invalid pgd invalid vpn2 (if_pos exhausted) same.current
      have nobody : ((s.trapped vpn2).asidFlush kernPgd).onlineTasks = fun _ => none := funext (flushed.nobody next)
      refine ⟨asidMin, by decide, invalid, fun left => absurd exhausted left, ?_⟩
      rw [result, if_pos exhausted]
      show Function.update ((s.trapped vpn2).asidFlush kernPgd).onlineTasks _ (some ((s.trapped vpn2).asidFlush kernPgd).current) = _
      rw [nobody, next, same.current]
      rfl
    · have ready : (if s.nextAsid = asidInvalid then (s.trapped vpn2).asidFlush kernPgd else s.trapped vpn2) = s.trapped vpn2 :=
        if_neg exhausted
      obtain ⟨e, result, -⟩ := pgfault_invalid pgd invalid vpn2 ready rfl
      refine ⟨s.nextAsid, Nat.lt_of_le_of_ne kept.assigned.high exhausted, invalid, fun _ => ?_, ?_⟩
      · by_contra some
        obtain ⟨t, found⟩ := Option.ne_none_iff_exists'.mp some
        exact Nat.lt_irrefl _ (kept.assigned.known _ t found).2.1
      · rw [result, if_neg exhausted]
        rfl
  · left
    rw [pgfault_valid invalid]
    exact ⟨rfl, invalid⟩

/-- The first task starts on no ASID. -/
theorem boot_start (kernPgd : Nat) (onlineHpt : Nat → Nat) (nextAsid : Nat) (taskAsid context : τ → Nat) (first : τ) {s : Asids τ}
    (start : boot kernPgd onlineHpt nextAsid taskAsid context first = s) :
    s.nextAsid = asidMin ∧ s.current = first ∧ field s.entryHi = asidInvalid := by
  subst start
  rw [boot]
  obtain ⟨-, next, same⟩ := asidFlush_spec (fun _ => 0) kernPgd
    (s := { onlineHpt, nextAsid, onlineTasks := fun _ => none, taskAsid, trapframe := fun _ => asidInvalid, context
            current := first, entryHi := asidInvalid }) fun a t found => by cases found
  refine ⟨next, same.current, ?_⟩
  rw [same.entryHi]
  show field asidInvalid = asidInvalid
  decide

end Asids

/-- Where user code missed, the refill handler writes one entry, which is of its own ASID, or none. -/
theorem PageMem.SpaceIn.refill_entry {onlineHpt : Nat → Nat} {root v : Nat} {a : Fin 256} {s : PageMem} {c : Cpu} {r : PageMem.Dirs}
    {l : List Nat} (space : PageMem.SpaceIn onlineHpt root a s c r l) (random : Nat) (asid : c.asid = a) {c' : Cpu}
    (done : s.xtlbRefill onlineHpt (c.tlbMiss v) v random = c') :
    c'.tlbsize = c.tlbsize ∧ (c'.tlb = c.tlb ∨ ∃ new, c'.tlb = Function.update c.tlb random new ∧
      ∀ b, b ≠ a → ∀ w, ¬ Cpu.Matches new (Cpu.vpn2Of w) b) := by
  have missAsid : (c.tlbMiss v).asid = a := (Cpu.asid_of rfl).trans asid
  obtain ⟨k1, k0, words, run⟩ := PageMem.xtlbRefill_spec space.memory.tree space.memory.rooted (c := c.tlbMiss v)
    (by rw [missAsid]; exact space.registered) v random
  rw [run] at done
  by_cases both : k1 = 0 ∧ k0 = 0
  · rw [if_pos both] at done
    subst done
    exact ⟨rfl, .inl rfl⟩
  rw [if_neg both] at done
  obtain ⟨c₁, latch⟩ : ∃ c₁ : Cpu, { c.tlbMiss v with entryLo0 := entryLo k1, entryLo1 := entryLo k0 } = c₁ := ⟨_, rfl⟩
  rw [latch] at done
  have tlb : c₁.tlb = c.tlb := by
    rw [← latch]
    rfl
  have own : c₁.asid = a := by
    rw [← missAsid]
    apply Cpu.asid_congr
    rw [← latch]
  -- the word of the even page is not global, so that the entry is not
  have even : entryLo k1 % 2 = 0 := by
    have page : Cpu.vpn2Of (v / 32768 * 32768) = Cpu.vpn2Of v ∧ Cpu.oddPage (v / 32768 * 32768) = false := by
      rw [Cpu.vpn2Of_eq, Cpu.vpn2Of_eq, Cpu.oddPage_eq, decide_eq_false_iff_not]
      omega
    have value := space.memory.tableLo_own (v / 32768 * 32768)
    rwa [PageMem.tableLo, words _ page.1, page.2, if_neg Bool.false_ne_true] at value
  subst done
  refine ⟨?_, .inr ⟨c₁.latched, ?_, ?_⟩⟩
  · rw [Cpu.tlbwr, Cpu.writeEntry, ← latch]
    rfl
  · rw [Cpu.tlbwr, Cpu.writeEntry, tlb]
  · rintro b other w ⟨-, global | theirs⟩
    · rw [Cpu.latched, ← latch] at global
      simp [Nat.testBit_zero, even] at global
    · exact other (theirs.symm.trans (c₁.latched_asid.trans own))

/-- The machine with its tasks: the pages, the TLB, the ASIDs, and the page tables of the tasks. The pages of `taken` are
allocated, but nobody maps them. -/
structure Processes (τ : Type*) where
  mem : PageMem
  cpu : Cpu
  asids : Asids τ
  roots : τ → Option Nat
  taken : Set Nat

namespace Processes

variable {τ : Type*}

/-- The address of the page table of a task, or NULL. -/
def pgd (S : Processes τ) (t : τ) : Nat := (S.roots t).elim 0 S.mem.pageToKvaddr

/-- ENTRYHI has the ASID of the current task, as whenever user code runs. -/
def InUser (S : Processes τ) : Prop := S.cpu.asid.val = Asids.field S.asids.entryHi

/-- `tlb_flush_all` comes before the flush of the ASIDs. -/
def flushed (S : Processes τ) : Cpu :=
  if Asids.field S.asids.entryHi = asidInvalid ∧ S.asids.nextAsid = asidInvalid then S.cpu.tlbFlushAll else S.cpu

/-- A mapping of the task may change: nothing stale stays behind under any of its ASIDs. -/
def Harmless (S : Processes τ) (t : τ) (d : Nat) (op : SpaceOp) : Prop :=
  ∀ a : Fin 256, S.asids.onlineTasks a = some t → PageMem.Harmless d a S.mem S.cpu op

variable [DecidableEq τ]

/-- What happens on the machine. User code of the current task misses the TLB, faults and is scheduled away; the kernel
makes page tables, takes pages and gives them back, maps and unmaps them for whatever task, and returns to the user. User
code touches addresses below `2 ^ 47`, for the page table takes each other one for that `2 ^ 47` below it; a task that goes
on is registered, and changes of mappings are harmless. -/
inductive Step (kernPgd : Nat) (S : Processes τ) : Processes τ → Prop
  | pages {s' : PageMem} {roots' : τ → Option Nat} {taken' : Set Nat}
      (next : PageMem.SpacesStep S.mem S.roots S.taken none s' roots' taken') :
      Step kernPgd S { S with mem := s', roots := roots', taken := taken' }
  | new {t : τ} {asid d : Nat} {s' : PageMem} (none : S.roots t = none) (done : S.mem.pgdirNew asid = .ok (some d, s')) :
      Step kernPgd S { S with mem := s', roots := Function.update S.roots t (some d) }
  | map {t : τ} {d v p flags : Nat} {retcode : Int} {s' : PageMem} (table : S.roots t = some d) (small : v < 2 ^ 64) (mine : p ∈ S.taken)
      (harmless : S.Harmless t d (.map v p (pagePerm flags)))
      (done : S.mem.archMapPage (S.mem.pageToKvaddr d) v p (pagePerm flags) = .ok (retcode, s')) :
      Step kernPgd S { S with mem := s', taken := if retcode = 0 then S.taken \ {p} else S.taken }
  | unmap {t : τ} {d v : Nat} {p : Option Nat} {s' : PageMem} {c' : Cpu} (table : S.roots t = some d)
      (harmless : S.Harmless t d (.unmap v))
      (done : S.mem.archUnmapPage S.cpu (S.mem.pageToKvaddr d) v = .ok (p, s', c')) :
      Step kernPgd S { S with mem := s', cpu := c', taken := S.taken ∪ {q | p = some q} }
  | resume : Step kernPgd S { S with cpu := { S.cpu with entryHi := S.asids.entryHi } }
  | refill {v random : Nat} (user : S.InUser) (small : v < 2 ^ 47)
      (miss : ∀ i, i < S.cpu.tlbsize → ¬ Cpu.Matches (S.cpu.tlb i) (Cpu.vpn2Of v) S.cpu.asid) :
      Step kernPgd S { S with cpu := S.mem.xtlbRefill S.asids.onlineHpt (S.cpu.tlbMiss v) v random }
  | fault {vpn2 : Nat} {asids' : Asids τ} (user : S.InUser) (running : S.roots S.asids.current ≠ none)
      (done : (S.asids.pgfault S.pgd kernPgd vpn2).2 = asids') :
      Step kernPgd S { S with asids := asids', cpu := { S.flushed with entryHi := asids'.entryHi } }
  | switch {t : τ} (user : S.InUser) (registered : Asids.Registered S.asids t) :
      Step kernPgd S { S with asids := S.asids.switchTo t, cpu := { S.cpu with entryHi := (S.asids.switchTo t).entryHi } }

/-- The runs of the machine from the start of the tasks on. -/
inductive Run (kernPgd : Nat) (s₀ : PageMem) : Processes τ → Prop
  | boot {c : Cpu} {onlineHpt : Nat → Nat} {nextAsid : Nat} {taskAsid context : τ → Nat} {first : τ} (nonempty : 0 < c.tlbsize)
      (size : c.tlbsize ≤ 64) :
      Run kernPgd s₀ ⟨s₀, c.tlbFlushAll, Asids.boot kernPgd onlineHpt nextAsid taskAsid context first, fun _ => none, ∅⟩
  | step {S S' : Processes τ} (run : Run kernPgd s₀ S) (next : Step kernPgd S S') : Run kernPgd s₀ S'

/-- The page tables are apart, each ASID of a task has the directory of its task, and what the TLB holds under it is what
the table has; under the other ASIDs it holds nothing. -/
structure Kept (kernPgd : Nat) (S : Processes τ) (l : List Nat) (spaces : τ → Option (Nat × PageMem.Dirs)) : Prop where
  shared : S.mem.Shared l spaces S.taken
  table : PageMem.rootsOf spaces = S.roots
  asids : Asids.AsidKept S.pgd kernPgd S.asids
  owners : ∀ a t, S.asids.onlineTasks a = some t → S.roots t ≠ none
  nonempty : 0 < S.cpu.tlbsize
  size : S.cpu.tlbsize ≤ 64
  coherent : ∀ (a : Fin 256) t d, S.asids.onlineTasks a = some t → S.roots t = some d → S.cpu.Coherent a (S.mem.tableLo d)
  absent : ∀ a : Fin 256, S.asids.onlineTasks a = none → S.cpu.Absent a

namespace Kept

variable {kernPgd : Nat} {S S' : Processes τ} {l l' : List Nat} {spaces spaces' : τ → Option (Nat × PageMem.Dirs)}

omit [DecidableEq τ] in
theorem root (kept : Kept kernPgd S l spaces) {t : τ} {d : Nat} (found : S.roots t = some d) : ∃ r, spaces t = some (d, r) :=
  PageMem.rootsOf_some.mp (kept.table ▸ found)

omit [DecidableEq τ] in
/-- The memory and the TLB of one task. -/
theorem space (kept : Kept kernPgd S l spaces) {a : Fin 256} {t : τ} {d : Nat} {r : PageMem.Dirs}
    (online : S.asids.onlineTasks a = some t) (mine : spaces t = some (d, r)) :
    PageMem.SpaceIn S.asids.onlineHpt d a S.mem S.cpu r l := by
  have table : S.roots t = some d := kept.table ▸ PageMem.rootsOf_some.mpr ⟨r, mine⟩
  have registered := (kept.asids.assigned.known a t online).2.2
  rw [pgd, table] at registered
  exact ⟨kept.shared.kept t d r mine, kept.coherent a t d online table, registered⟩

/-- A change of the pages that keeps the tables apart. The tables of the other tasks stay, and for that of `t` it is shown
that the TLB still fits. -/
theorem memory {s' : PageMem} {c' : Cpu} {roots' : τ → Option Nat} {taken' : Set Nat} (kept : Kept kernPgd S l spaces) {who : Option τ}
    (next : PageMem.SpacesStep S.mem S.roots S.taken who s' roots' taken')
    (still : ∀ t, S.roots t ≠ none → roots' t = S.roots t) (tlbsize : c'.tlbsize = S.cpu.tlbsize)
    (fewer : ∀ a, S.cpu.Absent a → c'.Absent a) (others : ∀ a lo, S.cpu.Coherent a lo → c'.Coherent a lo)
    (own : ∀ (a : Fin 256) t d r, who = some t → S.asids.onlineTasks a = some t → spaces t = some (d, r) → c'.Coherent a (s'.tableLo d)) :
    ∃ l' spaces', Kept kernPgd { S with mem := s', cpu := c', roots := roots', taken := taken' } l' spaces' := by
  obtain ⟨l', spaces', shared', rfl, geometry, same⟩ := kept.shared.does (kept.table ▸ next)
  have roots : ∀ a t, S.asids.onlineTasks a = some t → PageMem.rootsOf spaces' t = S.roots t := fun a t online =>
    still t (kept.owners a t online)
  refine ⟨l', spaces', ?_⟩
  constructor
  case shared => exact shared'
  case table => rfl
  case asids =>
    refine kept.asids.congr fun a t online => ?_
    show (PageMem.rootsOf spaces' t).elim 0 s'.pageToKvaddr = (S.roots t).elim 0 S.mem.pageToKvaddr
    rw [roots a t online, show s'.pageToKvaddr = S.mem.pageToKvaddr from funext fun d => geometry.kvaddr d]
  case owners =>
    intro a t online
    show PageMem.rootsOf spaces' t ≠ none
    rw [roots a t online]
    exact kept.owners a t online
  case nonempty => exact tlbsize ▸ kept.nonempty
  case size => exact tlbsize ▸ kept.size
  case coherent =>
    intro a t d online table
    have before : S.roots t = some d := (roots a t online).symm.trans table
    obtain ⟨r, mine⟩ := kept.root before
    by_cases here : who = some t
    · exact own a t d r here online mine
    · have mine' : spaces' t = some (d, r) := (same t here).trans mine
      refine (others a _ (kept.coherent a t d online before)).change fun v _ _ => ?_
      exact (kept.shared.kept t d r mine).tableLo_same (shared'.kept t d r mine') geometry rfl
  case absent => exact fun a nobody => fewer a (kept.absent a nobody)

omit [DecidableEq τ] in
/-- Registers of the processor do not matter, nor what else a task has in its frames. -/
theorem registers {c' : Cpu} {asids' : Asids τ} (kept : Kept kernPgd S l spaces) (asids : Asids.AsidKept S.pgd kernPgd asids')
    (online : asids'.onlineTasks = S.asids.onlineTasks) (size : c'.tlbsize = S.cpu.tlbsize) (same : c'.tlb = S.cpu.tlb) :
    Kept kernPgd { S with cpu := c', asids := asids' } l spaces := by
  constructor
  case shared => exact kept.shared
  case table => exact kept.table
  case asids => exact asids
  case owners => exact fun a t found => kept.owners a t (online ▸ found)
  case nonempty => exact size ▸ kept.nonempty
  case size => exact size ▸ kept.size
  case coherent => exact fun a t d found table => (kept.coherent a t d (online ▸ found) table).registers size same
  case absent => exact fun a nobody => (kept.absent a (online ▸ nobody)).registers size same

/-- `arch_map_page` -/
theorem map {t : τ} {d v p flags : Nat} {retcode : Int} {s' : PageMem} (kept : Kept kernPgd S l spaces) (table : S.roots t = some d)
    (small : v < 2 ^ 64) (mine : p ∈ S.taken) (harmless : S.Harmless t d (.map v p (pagePerm flags)))
    (done : S.mem.archMapPage (S.mem.pageToKvaddr d) v p (pagePerm flags) = .ok (retcode, s')) :
    ∃ l' spaces', Kept kernPgd { S with mem := s', taken := if retcode = 0 then S.taken \ {p} else S.taken } l' spaces' := by
  refine kept.memory (.map table small mine done) (fun _ _ => rfl) rfl (fun _ absent => absent) (fun _ _ coherent => coherent) ?_
  rintro a u e r here online found
  obtain rfl := Option.some.inj here
  obtain rfl : d = e := Option.some.inj (table.symm.trans (kept.table ▸ PageMem.rootsOf_some.mpr ⟨r, found⟩))
  have space := kept.space online found
  have unmapped : ¬ S.mem.Mapped (S.mem.pageToKvaddr d) p := fun mapped =>
    kept.shared.unmapped p mine t d r found (space.memory.mapped_iff.mp mapped)
  obtain ⟨code, s₁, r', l', run, space'⟩ := space.map ⟨kept.shared.held p mine, unmapped, pagePerm_own flags⟩ (harmless a online)
  obtain ⟨-, rfl⟩ := Prod.mk.inj (Except.ok.inj (run.symm.trans done))
  exact space'.coherent

/-- `arch_unmap_page` -/
theorem unmap {t : τ} {d v : Nat} {p : Option Nat} {s' : PageMem} {c' : Cpu} (kept : Kept kernPgd S l spaces) (table : S.roots t = some d)
    (harmless : S.Harmless t d (.unmap v)) (done : S.mem.archUnmapPage S.cpu (S.mem.pageToKvaddr d) v = .ok (p, s', c')) :
    ∃ l' spaces', Kept kernPgd { S with mem := s', cpu := c', taken := S.taken ∪ {q | p = some q} } l' spaces' := by
  obtain ⟨r, found⟩ := kept.root table
  obtain ⟨s₁, r₁, l₁, cleared, -⟩ := (kept.shared.kept t d r found).unmap_table v
  have whole : S.mem.archUnmapPage S.cpu (S.mem.pageToKvaddr d) v =
      .ok ((r.leaf (path v)).map Prod.fst, s₁, S.cpu.tlbRemove v) := by
    simp only [PageMem.archUnmapPage, PageMem.pgtableRemove, cleared, Res.ok_bind]
  obtain ⟨rfl, rest⟩ := Prod.mk.inj (Except.ok.inj (whole.symm.trans done))
  obtain ⟨rfl, rfl⟩ := Prod.mk.inj rest
  obtain ⟨i, new, bound, tlb, size, gone, -⟩ := S.cpu.tlbRemove_spec v kept.nonempty kept.size
  refine kept.memory (.unmap table cleared) (fun _ _ => rfl) size (fun a absent => ?_) (fun a lo coherent => ?_) ?_
  · exact absent.overwrite size tlb fun w small found => gone.matching _ a (Cpu.vpn2_lt small) found
  · exact (coherent.clear gone size tlb).1
  · rintro a u e q here online theirs
    obtain rfl := Option.some.inj here
    obtain rfl : d = e := Option.some.inj (table.symm.trans (kept.table ▸ PageMem.rootsOf_some.mpr ⟨q, theirs⟩))
    obtain ⟨p', s₂, r', l', run, space'⟩ := (kept.space online theirs).unmap (harmless a online)
    have same := Except.ok.inj (run.symm.trans whole)
    obtain ⟨rfl, -⟩ := Prod.mk.inj (Prod.mk.inj same).2
    exact space'.coherent

omit [DecidableEq τ] in
/-- A task has one ASID or none when its user code runs. -/
theorem runs_as (kept : Kept kernPgd S l spaces) (user : S.InUser) :
    S.asids.onlineTasks S.cpu.asid = some S.asids.current ∨ S.asids.onlineTasks S.cpu.asid = none ∧ S.asids.onlineHpt S.cpu.asid = 0 := by
  have registered := kept.asids.registered
  rw [Asids.Registered, ← kept.asids.saved, ← user] at registered
  rcases registered with invalid | online
  · right
    have nobody : S.asids.onlineTasks S.cpu.asid = none := by
      by_contra some
      obtain ⟨t, found⟩ := Option.ne_none_iff_exists'.mp some
      have below := (kept.asids.assigned.known _ t found).2.1
      have high := kept.asids.assigned.high
      omega
    refine ⟨nobody, kept.asids.assigned.unknown _ ?_ nobody⟩
    rw [invalid]
    decide
  · exact .inl online

omit [DecidableEq τ] in
/-- The refill handler -/
theorem refill {v random : Nat} (kept : Kept kernPgd S l spaces) (user : S.InUser)
    (miss : ∀ i, i < S.cpu.tlbsize → ¬ Cpu.Matches (S.cpu.tlb i) (Cpu.vpn2Of v) S.cpu.asid) :
    Kept kernPgd { S with cpu := S.mem.xtlbRefill S.asids.onlineHpt (S.cpu.tlbMiss v) v random } l spaces := by
  rcases kept.runs_as user with online | ⟨-, null⟩
  · obtain ⟨d, table⟩ := Option.ne_none_iff_exists'.mp (kept.owners _ _ online)
    obtain ⟨r, mine⟩ := kept.root table
    have space := kept.space online mine
    have own := space.refill random rfl miss
    generalize done : S.mem.xtlbRefill S.asids.onlineHpt (S.cpu.tlbMiss v) v random = c' at own
    obtain ⟨size, same | ⟨new, written, foreign⟩⟩ := space.refill_entry random rfl done
    · exact kept.registers kept.asids rfl size same
    constructor
    case shared => exact kept.shared
    case table => exact kept.table
    case asids => exact kept.asids
    case owners => exact kept.owners
    case nonempty => exact size ▸ kept.nonempty
    case size => exact size ▸ kept.size
    case coherent =>
      intro b u e found known
      by_cases here : b = S.cpu.asid
      · obtain rfl : S.asids.current = u := Option.some.inj (online.symm.trans (here ▸ found))
        obtain rfl : d = e := Option.some.inj (table.symm.trans known)
        exact here ▸ own
      · exact (kept.coherent b u e found known).overwrite size written fun w _ => foreign b here w
    case absent =>
      intro b nobody
      have other : b ≠ S.cpu.asid := by
        rintro rfl
        exact Option.some_ne_none _ (online.symm.trans nobody)
      exact (kept.absent b nobody).overwrite size written fun w _ found => absurd found (foreign b other w)
  · have idle : S.mem.xtlbRefill S.asids.onlineHpt (S.cpu.tlbMiss v) v random = S.cpu.tlbMiss v := by
      have asid : (S.cpu.tlbMiss v).asid = S.cpu.asid := Cpu.asid_of rfl
      simp only [PageMem.xtlbRefill, asid, null, if_true]
    rw [idle]
    exact kept.registers kept.asids rfl rfl rfl

/-- `handle_pgfault`. The TLB has nothing for an ASID that is new. -/
theorem fault {vpn2 : Nat} (kept : Kept kernPgd S l spaces) (running : S.roots S.asids.current ≠ none) {asids' : Asids τ}
    (done : (S.asids.pgfault S.pgd kernPgd vpn2).2 = asids') :
    Kept kernPgd { S with asids := asids', cpu := { S.flushed with entryHi := asids'.entryHi } } l spaces := by
  have asids := kept.asids.pgfault vpn2
  have online := Asids.pgfault_online kept.asids vpn2
  rw [done] at asids online
  rcases online with ⟨same, valid⟩ | ⟨n, low, invalid, new, online⟩
  · have stays : S.flushed = S.cpu := if_neg fun both => valid both.1
    rw [stays]
    exact kept.registers asids same rfl rfl
  obtain ⟨before, name⟩ : ∃ before, (if S.asids.nextAsid = asidInvalid then fun _ => none else S.asids.onlineTasks) = before := ⟨_, rfl⟩
  rw [name] at online
  have ready : S.flushed.tlbsize = S.cpu.tlbsize ∧ before n = none ∧ (∀ a : Fin 256, before a = none → S.flushed.Absent a) ∧
      (∀ a t, before a = some t → S.roots t ≠ none) ∧
      ∀ (a : Fin 256) t d, before a = some t → S.roots t = some d → S.flushed.Coherent a (S.mem.tableLo d) := by
    by_cases exhausted : S.asids.nextAsid = asidInvalid
    · rw [if_pos exhausted] at name
      subst name
      obtain ⟨size, absent⟩ := S.cpu.tlbFlushAll_spec kept.size
      rw [flushed, if_pos ⟨invalid, exhausted⟩]
      exact ⟨size, rfl, fun a _ => absent a, fun _ _ found => (nomatch found), fun _ _ _ found => (nomatch found)⟩
    · rw [if_neg exhausted] at name
      subst name
      rw [flushed, if_neg fun both => exhausted both.2]
      exact ⟨rfl, new exhausted, kept.absent, kept.owners, kept.coherent⟩
  obtain ⟨tlbsize, unused, absent, owners, coherent⟩ := ready
  constructor
  case shared => exact kept.shared
  case table => exact kept.table
  case asids => exact asids
  case owners =>
    intro a t found
    rw [online] at found
    by_cases here : a = n
    · rw [here, Function.update_self] at found
      exact Option.some.inj found ▸ running
    · rw [Function.update_of_ne here] at found
      exact owners a t found
  case nonempty => exact tlbsize ▸ kept.nonempty
  case size => exact tlbsize ▸ kept.size
  case coherent =>
    intro a t d found table
    rw [online] at found
    by_cases here : a = n
    · exact .start (tlbsize ▸ kept.nonempty) (tlbsize ▸ kept.size) ((absent a (here ▸ unused)).registers rfl rfl)
    · rw [Function.update_of_ne here] at found
      exact (coherent a t d found table).registers rfl rfl
  case absent =>
    intro a nobody
    rw [online] at nobody
    by_cases here : a = n
    · rw [here, Function.update_self] at nobody
      cases nobody
    · rw [Function.update_of_ne here] at nobody
      exact (absent a nobody).registers rfl rfl

omit [DecidableEq τ] in
/-- An entry that serves user code is for a page that the table of the current task has at the address. -/
theorem reached {i v : Nat} (kept : Kept kernPgd S l spaces) (user : S.InUser) (bound : i < S.cpu.tlbsize) (small : v < 2 ^ 47)
    (found : Cpu.Matches (S.cpu.tlb i) (Cpu.vpn2Of v) S.cpu.asid) (valid : (S.cpu.tlb i).Valid (Cpu.oddPage v)) :
    ∃ d r w, spaces S.asids.current = some (d, r) ∧ r.leaf (path v) = some w ∧
      (S.cpu.tlb i).entryLo (Cpu.oddPage v) = S.mem.tableLo d v ∧
      entryLoPfn ((S.cpu.tlb i).entryLo (Cpu.oddPage v)) = S.mem.pageToPfn w.1 := by
  rcases kept.runs_as user with online | ⟨nobody, -⟩
  · obtain ⟨d, table⟩ := Option.ne_none_iff_exists'.mp (kept.owners _ _ online)
    obtain ⟨r, mine⟩ := kept.root table
    have space := kept.space online mine
    have current := space.coherent.current i v bound small found valid
    obtain ⟨w, leaf⟩ := space.cached_leaf small ⟨i, bound, found, valid⟩
    refine ⟨d, r, w, mine, leaf, current, ?_⟩
    rw [current, space.memory.tableLo_eq, leaf, Option.elim_some,
      PageMem.entryLo_leafWord _ space.memory.phys (space.memory.tree.pages _ w leaf)]
  · exact absurd found (kept.absent _ nobody i v bound small)

/-- Every step keeps it. -/
theorem step (kept : Kept kernPgd S l spaces) (next : Step kernPgd S S') : ∃ l' spaces', Kept kernPgd S' l' spaces' := by
  cases next with
  | pages next =>
    refine kept.memory next ?_ rfl (fun _ absent => absent) (fun _ _ coherent => coherent) fun _ _ _ _ none => (nomatch none)
    cases next <;> exact fun _ _ => rfl
  | @new t asid d s' vacant done =>
    refine kept.memory (.new vacant done) (fun u known => ?_) rfl (fun _ absent => absent) (fun _ _ coherent => coherent) ?_
    · have other : u ≠ t := by
        rintro rfl
        exact known vacant
      exact Function.update_of_ne other ..
    · rintro a u e r here - found
      obtain rfl := Option.some.inj here
      have known : S.roots t = some e := kept.table ▸ PageMem.rootsOf_some.mpr ⟨r, found⟩
      exact absurd (known.symm.trans vacant) (Option.some_ne_none e)
  | map table small mine harmless done => exact kept.map table small mine harmless done
  | unmap table harmless done => exact kept.unmap table harmless done
  | resume => exact ⟨l, spaces, kept.registers kept.asids rfl rfl rfl⟩
  | refill user small miss => exact ⟨l, spaces, kept.refill user miss⟩
  | fault user running done => exact ⟨l, spaces, kept.fault running done⟩
  | switch user registered => exact ⟨l, spaces, kept.registers (kept.asids.switchTo registered) rfl rfl rfl⟩

end Kept

section Runs

variable {kernPgd : Nat} {s₀ : PageMem} {l₀ : List Nat} {S S' : Processes τ} {i v : Nat}

theorem Run.kept (free : s₀.FreeList l₀) (phys : s₀.PhysBound) (run : Run kernPgd s₀ S) : ∃ l spaces, Kept kernPgd S l spaces := by
  induction run with
  | @boot c onlineHpt nextAsid taskAsid context first nonempty size =>
    obtain ⟨same, absent⟩ := c.tlbFlushAll_spec size
    have bare : PageMem.SpacesRun s₀ s₀ (fun _ : τ => none) ∅ := .start
    obtain ⟨l, spaces, shared, table⟩ := bare.shared free phys
    have booted : AsidRun (fun _ => 0) kernPgd Asids.Registered (Asids.boot kernPgd onlineHpt nextAsid taskAsid context first) := .boot ..
    generalize start : Asids.boot kernPgd onlineHpt nextAsid taskAsid context first = asids at booted ⊢
    obtain ⟨begun, -⟩ := Asids.boot_start _ _ _ _ _ _ start
    have nobody := booted.kept.assigned.nobody begun
    refine ⟨l, spaces, shared, table, booted.kept, ?_, same ▸ nonempty, same ▸ size, ?_, fun a _ => absent a⟩
    · exact fun a t found => absurd (found.symm.trans (nobody a)) (Option.some_ne_none t)
    · exact fun a t d found => absurd (found.symm.trans (nobody a)) (Option.some_ne_none t)
  | step run next ih =>
    obtain ⟨l, spaces, kept⟩ := ih
    exact kept.step next

/-- What user code reaches through the TLB is a page that its own table has at this address: no free page, no page
directory, no page that is in other hands, and none of another task. -/
theorem Run.own_memory (free : s₀.FreeList l₀) (phys : s₀.PhysBound) (run : Run kernPgd s₀ S) (user : S.InUser)
    (bound : i < S.cpu.tlbsize) (small : v < 2 ^ 47) (found : Cpu.Matches (S.cpu.tlb i) (Cpu.vpn2Of v) S.cpu.asid)
    (valid : (S.cpu.tlb i).Valid (Cpu.oddPage v)) :
    ∃ d p, S.roots S.asids.current = some d ∧ (S.cpu.tlb i).entryLo (Cpu.oddPage v) = S.mem.tableLo d v ∧
      entryLoPfn ((S.cpu.tlb i).entryLo (Cpu.oddPage v)) = S.mem.pageToPfn p ∧
      p ∉ S.taken ∧ ¬ S.mem.IsDir p ∧ (∀ l, S.mem.FreeList l → p ∉ l) ∧
      ∀ u e, u ≠ S.asids.current → S.roots u = some e → ¬ S.mem.Mapped (S.mem.pageToKvaddr e) p := by
  obtain ⟨l, spaces, kept⟩ := run.kept free phys
  obtain ⟨d, r, w, mine, leaf, current, frame⟩ := kept.reached user bound small found valid
  have table : S.roots S.asids.current = some d := kept.table ▸ PageMem.rootsOf_some.mpr ⟨r, mine⟩
  have mapped : S.mem.Mapped (S.mem.pageToKvaddr d) w.1 := (kept.shared.kept _ d r mine).mapped_iff.mpr ⟨path v, w, leaf, rfl⟩
  have isolated := kept.shared.isolated
  rw [kept.table] at isolated
  obtain ⟨inHand, dir, notFree⟩ := isolated.used _ d w.1 table mapped
  exact ⟨d, w.1, table, current, frame, inHand, dir, notFree, fun u e other theirs =>
    isolated.apart _ u d e w.1 (Ne.symm other) table theirs mapped⟩

/-- A machine of 64 pages on which the first of two tasks, which runs on no ASID yet, has a page at `0x4000`. -/
theorem one_page : ∃ (s₀ : PageMem) (l₀ : List Nat) (S : Processes Bool), s₀.FreeList l₀ ∧ s₀.PhysBound ∧ Run 1 s₀ S ∧ S.InUser ∧
    S.asids.nextAsid = asidMin ∧ Asids.field S.asids.entryHi = asidInvalid ∧ S.asids.current = true ∧ S.roots true = some 1 ∧
    S.roots false = some 2 ∧ S.mem.tableLo 1 0x4000 / 2 % 2 = 1 ∧ entryLoPfn (S.mem.tableLo 1 0x4000) ≠ 0 ∧ 0 < S.cpu.tlbsize ∧ ∀ a, S.cpu.Absent a := by
  obtain ⟨s₀, s₁, s₂, s₃, s₄, -, -, f, -, tl, -, free, phys, new₁, new₂, ⟨alloc, set, done, -, valid, frame⟩, -⟩ := PageMem.two_tables
  let c : Cpu := ⟨64, fun _ => ⟨0, 0, false, 0, 0⟩, 0, 1, 0, 0, id, 0⟩
  obtain ⟨size, absent⟩ := c.tlbFlushAll_spec (by decide)
  have booted : Run 1 s₀ ⟨_, c.tlbFlushAll, Asids.boot 1 (fun _ => 0) 0 (fun _ => 0) (fun _ => 0) true, fun _ => none, ∅⟩ :=
    .boot (by decide) (by decide)
  generalize start : Asids.boot 1 (fun _ => 0) 0 (fun _ => 0) (fun _ => 0) true = asids at booted
  obtain ⟨begun, current, invalid⟩ := Asids.boot_start _ _ _ _ _ _ start
  have run₃ := ((booted.step (.new (t := true) rfl new₁)).step (.new (t := false) rfl new₂)).step (.pages (.alloc alloc))
  obtain ⟨l, spaces, kept⟩ := run₃.kept free phys
  have nobody := kept.asids.assigned.nobody begun
  have inHand : f ∈ (∅ : Set Nat) ∪ {p | ∃ tl, PageMem.AllocSet s₃ f tl ∧ p ∈ f :: tl} := .inr ⟨tl, set, List.mem_cons_self⟩
  have run₄ := run₃.step (.map (t := true) rfl (by decide) inHand (fun a online => absurd (online.symm.trans (nobody a)) (Option.some_ne_none _)) done)
  refine ⟨_, _, _, free, phys, run₄.step .resume, rfl, begun, invalid, current, rfl, rfl, valid, frame, ?_, fun a => (absent a).registers rfl rfl⟩
  exact size ▸ (by decide : 0 < 64)

/-- The task faults, gets the first ASID and loads the page into the TLB. -/
theorem one_page_used : ∃ (s₀ : PageMem) (l₀ : List Nat) (S : Processes Bool), s₀.FreeList l₀ ∧ s₀.PhysBound ∧ Run 1 s₀ S ∧
    S.InUser ∧ S.cpu.Cached S.cpu.asid 0x4000 ∧ S.asids.current = true ∧ S.roots true = some 1 ∧ S.roots false = some 2 ∧
    entryLoPfn (S.mem.tableLo 1 0x4000) ≠ 0 := by
  obtain ⟨s₀, l₀, S, free, phys, run, user, begun, invalid, first, mine, theirs, valid, frame, nonempty, absent⟩ := one_page
  have table : S.roots S.asids.current = some 1 := first ▸ mine
  have left : S.asids.nextAsid ≠ asidInvalid := by
    rw [begun]
    decide
  have stays : S.flushed = S.cpu := if_neg fun both => left both.2
  obtain ⟨-, directory, current, saved, field, -⟩ := Asids.pgfault_given S.pgd 1 invalid (by rw [begun]; decide) 0
    (if_neg left |>.trans begun)
  generalize faulted : (S.asids.pgfault S.pgd 1 0).2 = asids' at directory current saved field
  have run₁ := run.step (.fault user (by rw [table]; exact nofun) faulted)
  rw [stays] at run₁
  obtain ⟨l, spaces, kept⟩ := run₁.kept free phys
  have own : S.pgd S.asids.current = S.mem.pageToKvaddr 1 := by rw [pgd, table, Option.elim_some]
  have asid : (({ S.cpu with entryHi := asids'.entryHi } : Cpu).asid : Nat) = asidMin := by
    rw [← field, ← saved]
    rfl
  rcases kept.runs_as rfl with online | ⟨-, null⟩
  · rw [current] at online
    obtain ⟨r, own⟩ := kept.root table
    have space := kept.space online own
    have cached := space.refill_cached (v := 0x4000) rfl nonempty valid
    have miss := fun i bound => (absent ({ S.cpu with entryHi := asids'.entryHi } : Cpu).asid).registers rfl rfl i 0x4000 bound (by decide)
    exact ⟨s₀, l₀, _, free, phys, (run₁.step (.refill rfl (by decide) miss)).step .resume, rfl, cached, current.trans first, mine,
      theirs, frame⟩
  · have taken : asids'.onlineHpt asidMin = 0 := asid ▸ null
    rw [directory, own] at taken
    exact absurd taken (PageMem.kvaddr_pos _ _)

theorem Run.own_memory_used : ∃ (S : Processes Bool) (i d p : Nat), S.roots S.asids.current = some d ∧
    entryLoPfn ((S.cpu.tlb i).entryLo (Cpu.oddPage 0x4000)) = S.mem.pageToPfn p ∧ p ∉ S.taken := by
  obtain ⟨s₀, l₀, S, free, phys, run, user, ⟨i, bound, found, valid⟩, -⟩ := one_page_used
  obtain ⟨d, p, table, -, frame, inHand, -⟩ := Run.own_memory free phys run user bound (by decide) found valid
  exact ⟨S, i, d, p, table, frame, inHand⟩

end Runs

end Processes

end Xv6
