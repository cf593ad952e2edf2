import Xv6.Strtoul
import Xv6.UserCopyRuns
import Xv6.VmReadBack

namespace Xv6

namespace PageMem

/-- `strlen`, on fuel. -/
def strlenAt (s : PageMem) : Nat → Nat → Res Nat
  | 0, _ => .error .diverge
  | fuel + 1, a => if s.mem a = 0 then .ok 0 else do .ok ((← s.strlenAt fuel (a + 1)) + 1)

def setMem (s : PageMem) (m : ByteMem) : PageMem := { s with mem := m }

/-- The loop of `set_task_argv`; `slot` is where its variable `strtop` is in memory. -/
def argvLoop (pgd slot fuel : Nat) : List Nat → Nat → Nat → PageMem → Res (Nat × PageMem)
  | [], _, strtop, s => .ok (strtop, s)
  | a :: argv, argvtop, strtop, s => do
    let len ← s.strlenAt fuel a
    let strspace := pow2Roundup (len + 1) 3
    let (ret, s) := s.copyToUvm pgd strtop a strspace
    if ret ≠ 0 then .ok (0, s)
    else
      let (ret, s) := (s.setMem (s.mem.store slot 8 strtop)).copyToUvm pgd argvtop slot 8
      if ret ≠ 0 then .ok (0, s)
      else argvLoop pgd slot fuel argv ((argvtop + 8) % 2 ^ 64) ((strtop + strspace) % 2 ^ 64) s

/-- `set_task_argv`; `argc` is the length of `argv`. The product is an int. -/
def setTaskArgv (s : PageMem) (pgd ustacktop slot fuel : Nat) (argv : List Nat) : Res (Nat × PageMem) :=
  if intMax < argv.length * 8 then .error .overflow
  else argvLoop pgd slot fuel argv ustacktop ((ustacktop + argv.length * 8) % 2 ^ 64) s

/-- What the user has at an address. -/
def userMem (s : PageMem) (made : Nat → Option Nat) (v : Nat) : Option UInt8 :=
  (made (v / 16384)).map fun p => s.mem (s.pageToKvaddr p + v % 16384)

/-- The address is in no page of the user. -/
def KernelByte (s : PageMem) (made : Nat → Option Nat) (x : Nat) : Prop :=
  ∀ k p, made k = some p → x < s.pageToKvaddr p ∨ s.pageToKvaddr p + 16384 ≤ x

/-- The strings and the variable of `set_task_argv` are in the kernel. -/
structure KernelArgs (s : PageMem) (made : Nat → Option Nat) (r : Dirs) (slot fuel : Nat) (argv : List (Nat × List UInt8)) :
    Prop where
  string : ∀ e ∈ argv, CString (fun i => s.mem (e.1 + i)) e.2 ∧ e.2.length < fuel
  kernel : ∀ e ∈ argv, ∀ i ≤ e.2.length, s.KernelByte made (e.1 + i) ∧ (e.1 + i < slot ∨ slot + 8 ≤ e.1 + i)
  place : ∀ i < 8, s.KernelByte made (slot + i)
  table : ∀ d, r.Owns d → slot + 8 ≤ s.pageToKvaddr d ∨ s.pageToKvaddr d + 16384 ≤ slot

/-- The room for a string with its NUL. -/
def strRoom (text : List UInt8) : Nat := (text.length + 1 + 7) / 8 * 8

/-- The room for all strings. -/
def strsRoom (texts : List (List UInt8)) : Nat := (texts.map strRoom).sum

/-- The user has the pointer at the address. -/
def WordAt (μ : Nat → Option UInt8) (v x : Nat) : Prop := ∀ j < 8, μ (v + j) = some (UInt8.ofNat (x / 256 ^ j))

/-- The user has the string with its NUL at the address. -/
def StringAt (μ : Nat → Option UInt8) (v : Nat) (text : List UInt8) : Prop :=
  (∀ j < text.length, μ (v + j) = some (text.getD j 0)) ∧ μ (v + text.length) = some 0

/-- The pointers from `argvtop` on, and the strings from `strtop` on. -/
def Laid (μ : Nat → Option UInt8) : Nat → Nat → List (List UInt8) → Prop
  | _, _, [] => True
  | argvtop, strtop, text :: texts =>
    WordAt μ argvtop strtop ∧ StringAt μ strtop text ∧ Laid μ (argvtop + 8) (strtop + strRoom text) texts

/-- The bytes that are written for the strings. -/
def InArgs (argvtop strtop : Nat) (texts : List (List UInt8)) (v : Nat) : Prop :=
  argvtop ≤ v ∧ v < argvtop + 8 * texts.length ∨ strtop ≤ v ∧ v < strtop + strsRoom texts

/-- Where the string `i` goes. -/
def strAt (top : Nat) (texts : List (List UInt8)) (i : Nat) : Nat := top + 8 * texts.length + strsRoom (texts.take i)

/-- The end of the area for the pointers and the strings. -/
def argsEnd (top : Nat) (texts : List (List UInt8)) : Nat := top + 8 * texts.length + strsRoom texts

/-- The arguments of the task are laid out when there is memory for them, and else the result is 0. -/
structure LaysOut (s : PageMem) (made : Nat → Option Nat) (top : Nat) (texts : List (List UInt8)) (out : Res (Nat × PageMem)) : Prop where
  mapped : (∀ v, top ≤ v → v < argsEnd top texts → made (v / 16384) ≠ none) →
    ∃ s', out = .ok (argsEnd top texts, s') ∧
      (∀ i < texts.length, strAt top texts i % 8 = 0 ∧ WordAt (s'.userMem made) (top + 8 * i) (strAt top texts i) ∧
        StringAt (s'.userMem made) (strAt top texts i) (texts.getD i [])) ∧
      ∀ v, (v < top ∨ argsEnd top texts ≤ v) → s'.userMem made v = s.userMem made v
  apart : ∀ i < texts.length, top + 8 * texts.length ≤ strAt top texts i ∧
    strAt top texts i + ((texts.getD i []).length + 1) ≤ argsEnd top texts ∧
    ∀ j < i, strAt top texts j + ((texts.getD j []).length + 1) ≤ strAt top texts i
  missing : (∃ v, top ≤ v ∧ v < argsEnd top texts ∧ made (v / 16384) = none) → ∃ s', out = .ok (0, s')

section

variable {s : PageMem} {root slot fuel u kv len : Nat} {made : Nat → Option Nat} {r : Dirs}

theorem strlenAt_eq {a : Nat} {text : List UInt8} (string : CString (fun i => s.mem (a + i)) text) (enough : text.length < fuel) :
    s.strlenAt fuel a = .ok text.length := by
  obtain ⟨chars, noNul, nul⟩ := string
  induction text generalizing a fuel with
  | nil =>
    obtain ⟨fuel, rfl⟩ := Nat.exists_eq_succ_of_ne_zero (by omega : fuel ≠ 0)
    exact if_pos nul
  | cons c text ih =>
    obtain ⟨fuel, rfl⟩ := Nat.exists_eq_succ_of_ne_zero (by omega : fuel ≠ 0)
    rw [List.mem_cons, not_or] at noNul
    have first : s.mem a = c := chars 0 (by simp)
    have chars' : ∀ i, i < text.length → s.mem (a + 1 + i) = text.getD i 0 := by
      intro i inside
      have here := chars (i + 1) (by rw [List.length_cons]; omega)
      rw [List.getD_cons_succ] at here
      rw [← here, Nat.add_right_comm, Nat.add_assoc]
    have nul' : s.mem (a + 1 + text.length) = 0 := by
      rw [List.length_cons] at nul
      rw [← nul, Nat.add_right_comm, Nat.add_assoc]
    rw [List.length_cons] at enough
    have rest : s.strlenAt fuel (a + 1) = .ok text.length := ih (by omega) chars' noNul.2 nul'
    rw [strlenAt, if_neg (by rw [first]; exact Ne.symm noNul.1), rest]
    rfl

theorem strRoom_spec (text : List UInt8) : text.length + 1 ≤ strRoom text ∧ strRoom text % 8 = 0 ∧ 8 ≤ strRoom text := by
  rw [strRoom]
  omega

theorem strspace_eq {text : List UInt8} (small : strRoom text < 2 ^ 63) : pow2Roundup (text.length + 1) 3 = strRoom text := by
  obtain ⟨fits, -⟩ := strRoom_spec text
  have low : lowbits 3 = 7 := rfl
  rw [pow2Roundup, low, Nat.mod_eq_of_lt (by omega), pow2Rounddown_eq (by omega) (by decide), strRoom]
  rfl

/-- The pages of the user are in the memory with other bytes, too, when the table is. -/
theorem UserMap.setMem (users : UserMap s root made r) {m : ByteMem}
    (table : ∀ d x, r.Owns d → s.pageToKvaddr d ≤ x → x < s.pageToKvaddr d + 16384 → m x = s.mem x) :
    UserMap (s.setMem m) root made r where
  tree := users.tree.frame ⟨rfl, rfl⟩ fun d owns => ⟨rfl, Links.Same.refl _ _, fun x low high => table d x owns low high⟩
  rooted := users.rooted
  page := users.page
  born := users.born
  apart := users.apart
  user := users.user

/-- A copy to the user, from wherever. -/
structure CopyStep (s s' : PageMem) (made : Nat → Option Nat) (u kv len : Nat) : Prop where
  kernel : ∀ x, s.KernelByte made x → s'.mem x = s.mem x
  inside : (∀ k, InRange u len k → made k ≠ none) → ∀ i < len, s.KernelByte made (kv + i) →
    s'.userMem made (u + i) = some (s.mem (kv + i))
  outside : (∀ k, InRange u len k → made k ≠ none) → ∀ v, v < u ∨ u + len ≤ v → s'.userMem made v = s.userMem made v

/-- A byte that is copied to the user goes to its page, -/
theorem copyDst_page {v p : Nat} (kv : Nat) (found : entry r (v / 16384) = some p) :
    copyDst true (s.userByte r) u kv v = s.pageToKvaddr p + v % 16384 := by
  rw [copyDst, if_pos rfl, userByte, found, Option.getD_some]

/-- which is one of the user, -/
theorem UserMap.written (users : UserMap s root made r) (kv : Nat) {v : Nat} (low : u ≤ v) (reach : Reached r u v) :
    ∃ k p, made k = some p ∧ entry r (v / 16384) = some p ∧
      copyDst true (s.userByte r) u kv v = s.pageToKvaddr p + v % 16384 := by
  obtain ⟨p, found⟩ := Option.ne_none_iff_exists'.mp (reach.entry low)
  obtain ⟨k, isMade, -⟩ := users.born _ p found
  exact ⟨k, p, isMade, found, copyDst_page kv found⟩

/-- and when all pages of the range are the user's own, its bytes have different places. -/
theorem UserMap.place_inj (users : UserMap s root made r) (kv : Nat) (all : ∀ k, InRange u len k → made k ≠ none) {v w p : Nat}
    (isMade : made (v / 16384) = some p) (low : u ≤ w) (high : w < u + len)
    (same : s.pageToKvaddr p + v % 16384 = copyDst true (s.userByte r) u kv w) : v = w := by
  have small : ∀ v, v % 16384 < 16384 := fun v => Nat.mod_lt v (by decide)
  obtain ⟨q, isMade'⟩ := Option.ne_none_iff_exists'.mp (all _ (byte_inRange low high))
  rw [copyDst_page kv (users.page _ q isMade')] at same
  have pages : p = q := byte_page (small w) same (by omega) (by have bound := small v; omega)
  have numbers := users.apart _ _ p isMade (pages ▸ isMade')
  rw [pages] at same
  omega

theorem copyToUvm_step (users : UserMap s root made r) (kv : Nat) (positive : 1 ≤ len) (bound : u + len ≤ 2 ^ 47) :
    ((s.copyToUvm (s.pageToKvaddr root) u kv len).1 = 0 ↔ ∀ k, InRange u len k → Backed made k) ∧
    ∃ m, (s.copyToUvm (s.pageToKvaddr root) u kv len).2 = s.setMem m ∧ UserMap (s.setMem m) root made r ∧
      CopyStep s (s.setMem m) made u kv len := by
  have accepted : u ≤ xusegEnd := by
    have limit : 2 ^ 47 ≤ xusegEnd := by decide
    omega
  have nowrap : u + len < 2 ^ 64 := by omega
  obtain ⟨success, failure, m, result, copied⟩ := @copyUvm_free s root kv u len made r users accepted positive nowrap true nofun
  have small : ∀ v, v % 16384 < 16384 := fun v => Nat.mod_lt v (by decide)
  simp only [copyToUvm]
  refine ⟨⟨fun done k within => ?_, fun all => success fun w low high => users.backed_iff.mpr (all _ (byte_inRange low high))⟩,
    m, result, users.setMem fun d x owns low high => ?_, ?_, ?_, ?_⟩
  · by_contra missing
    obtain ⟨w, low, high, page⟩ := inRange_byte positive within
    rw [← users.backed_iff, ne_eq, not_not, ← page] at missing
    have failed := failure ⟨w, low, high, missing⟩
    rw [done] at failed
    exact absurd failed (by decide)
  · refine copied.frame x fun v above below reach here => ?_
    obtain ⟨k, p, isMade, -, address⟩ := users.written kv above reach
    rw [address] at here
    have page : d = p := byte_page (small v) here low high
    exact (users.user k p isMade).2 (page ▸ owns)
  · intro x kernel
    refine copied.frame x fun v above below reach here => ?_
    obtain ⟨k, p, isMade, -, address⟩ := users.written kv above reach
    have away := kernel k p isMade
    have bound := small v
    omega
  · intro all i bound kernel
    obtain ⟨p, isMade⟩ := Option.ne_none_iff_exists'.mp (all _ (byte_inRange (Nat.le_add_right u i) (Nat.add_lt_add_left bound u)))
    have reach : Reached r u (u + i) := fun k low high => users.backed_iff.mpr
      ⟨k, all k ⟨low, le_trans high (Nat.div_le_div_right (by omega))⟩, rfl⟩
    have source : copySrc true (s.userByte r) u kv (u + i) = kv + i := by
      rw [copySrc, if_pos rfl, bufferByte, Nat.add_sub_cancel_left]
    have value := copied.value (u + i) (Nat.le_add_right u i) (Nat.add_lt_add_left bound u) reach
      (fun w above below reach' same => by
        obtain ⟨k, q, isMade', -, address⟩ := users.written kv above reach'
        have away := kernel k q isMade'
        have inside := small w
        rw [source, address] at same
        omega)
      (fun w above below reach' same => by
        have equal := users.place_inj kv all isMade (by omega) below (by rw [same, copyDst_page kv (users.page _ p isMade)])
        omega)
    rw [source, copyDst_page kv (users.page _ p isMade)] at value
    rw [userMem, isMade]
    exact congrArg some value
  · intro all v away
    rw [userMem, userMem]
    cases isMade : made (v / 16384) with
    | none => rfl
    | some p =>
      refine congrArg some (copied.frame _ fun w above below reach same => ?_)
      have equal := users.place_inj kv all isMade above below same
      omega

/-- A property of the pages of a range is one of its bytes. -/
theorem forall_inRange {P : Nat → Prop} (positive : 1 ≤ len) :
    (∀ k, InRange u len k → P k) ↔ ∀ v, u ≤ v → v < u + len → P (v / 16384) := by
  constructor
  · exact fun all v low high => all _ (byte_inRange low high)
  · intro all k inside
    obtain ⟨v, low, high, rfl⟩ := inRange_byte positive inside
    exact all v low high

theorem backed_of_made {k : Nat} (isMade : made k ≠ none) : Backed made k := ⟨k, isMade, rfl⟩

theorem inArgs_cons {argvtop strtop v : Nat} {text : List UInt8} {texts : List (List UInt8)} :
    InArgs argvtop strtop (text :: texts) v ↔ (argvtop ≤ v ∧ v < argvtop + 8) ∨ (strtop ≤ v ∧ v < strtop + strRoom text) ∨
      InArgs (argvtop + 8) (strtop + strRoom text) texts v := by
  rw [InArgs, InArgs, strsRoom, List.map_cons, List.sum_cons, List.length_cons, ← strsRoom]
  omega

/-- The variable is stored in the kernel. -/
theorem userMem_store (place : ∀ i < 8, s.KernelByte made (slot + i)) (x v : Nat) :
    (s.setMem (s.mem.store slot 8 x)).userMem made v = s.userMem made v := by
  rw [userMem, userMem]
  cases isMade : made (v / 16384) with
  | none => rfl
  | some p =>
    have small : v % 16384 < 16384 := Nat.mod_lt v (by decide)
    have away : s.pageToKvaddr p + v % 16384 < slot ∨ slot + 8 ≤ s.pageToKvaddr p + v % 16384 := by
      by_contra within
      obtain ⟨i, eq⟩ : ∃ i, s.pageToKvaddr p + v % 16384 = slot + i := ⟨s.pageToKvaddr p + v % 16384 - slot, by omega⟩
      have away := place i (by omega) _ p isMade
      omega
    exact congrArg some (ByteMem.store_outside away)

theorem store_byte (m : ByteMem) {i : Nat} (x : Nat) (inside : i < 8) : m.store slot 8 x (slot + i) = UInt8.ofNat (x / 256 ^ i) := by
  rw [ByteMem.store, if_pos ⟨Nat.le_add_right _ _, Nat.add_lt_add_left inside _⟩, Nat.add_sub_cancel_left]

/-- The other strings are still there. -/
theorem KernelArgs.next {e : Nat × List UInt8} {argv : List (Nat × List UInt8)} (args : KernelArgs s made r slot fuel (e :: argv))
    {m : ByteMem} (same : ∀ x, s.KernelByte made x → (x < slot ∨ slot + 8 ≤ x) → m x = s.mem x) :
    KernelArgs (s.setMem m) made r slot fuel argv where
  string d member := by
    obtain ⟨⟨chars, noNul, nul⟩, short⟩ := args.string d (List.mem_cons_of_mem _ member)
    have kernel := args.kernel d (List.mem_cons_of_mem _ member)
    refine ⟨⟨fun i inside => ?_, noNul, ?_⟩, short⟩
    · obtain ⟨outside, away⟩ := kernel i (Nat.le_of_lt inside)
      exact (same _ outside away).trans (chars i inside)
    · obtain ⟨outside, away⟩ := kernel _ le_rfl
      exact (same _ outside away).trans nul
  kernel d member := args.kernel d (List.mem_cons_of_mem _ member)
  place := args.place
  table := args.table

/-- What the loop of `set_task_argv` leaves for the strings that are left. -/
structure ArgvRest (s s' : PageMem) (made : Nat → Option Nat) (ret argvtop strtop : Nat) (texts : List (List UInt8)) : Prop where
  backed : (∀ v, InArgs argvtop strtop texts v → Backed made (v / 16384)) → ret = strtop + strsRoom texts
  missing : (∃ v, InArgs argvtop strtop texts v ∧ ¬ Backed made (v / 16384)) → ret = 0
  laid : (∀ v, InArgs argvtop strtop texts v → made (v / 16384) ≠ none) →
    Laid (s'.userMem made) argvtop strtop texts ∧ ∀ v, ¬ InArgs argvtop strtop texts v → s'.userMem made v = s.userMem made v

/-- A copy failed: one of its pages is not there. -/
theorem ArgvRest.failed {s' : PageMem} {argvtop strtop : Nat} {texts : List (List UInt8)} {v : Nat}
    (inside : InArgs argvtop strtop texts v) (missing : ¬ Backed made (v / 16384)) :
    ArgvRest s s' made 0 argvtop strtop texts where
  backed all := absurd (all v inside) missing
  missing _ := rfl
  laid all := absurd (backed_of_made (all v inside)) missing

/-- Both copies of a round were done, and then the rest of the rounds. -/
theorem ArgvRest.cons {m₁ m₂ m' : ByteMem} {a ret argvtop strtop : Nat} {text : List UInt8} {texts : List (List UInt8)}
    (string : CString (fun i => s.mem (a + i)) text) (kernel : ∀ i ≤ text.length, s.KernelByte made (a + i))
    (place : ∀ i < 8, s.KernelByte made (slot + i)) (order : argvtop + 8 * (texts.length + 1) ≤ strtop)
    (step₁ : CopyStep s (s.setMem m₁) made strtop a (strRoom text))
    (backed₁ : ∀ v, strtop ≤ v → v < strtop + strRoom text → Backed made (v / 16384))
    (step₂ : CopyStep (s.setMem (m₁.store slot 8 strtop)) (s.setMem m₂) made argvtop slot 8)
    (backed₂ : ∀ v, argvtop ≤ v → v < argvtop + 8 → Backed made (v / 16384))
    (rest : ArgvRest (s.setMem m₂) (s.setMem m') made ret (argvtop + 8) (strtop + strRoom text) texts) :
    ArgvRest s (s.setMem m') made ret argvtop strtop (text :: texts) where
  backed all := by
    have value := rest.backed fun v inside => all v (inArgs_cons.mpr (.inr (.inr inside)))
    rw [value, strsRoom, strsRoom, List.map_cons, List.sum_cons]
    omega
  missing := by
    rintro ⟨v, inside, absent⟩
    rcases inArgs_cons.mp inside with ⟨low, high⟩ | ⟨low, high⟩ | later
    · exact absurd (backed₂ v low high) absent
    · exact absurd (backed₁ v low high) absent
    · exact rest.missing ⟨v, later, absent⟩
  laid all := by
    obtain ⟨fits, -, eight⟩ := strRoom_spec text
    obtain ⟨laid, frame⟩ := rest.laid fun v inside => all v (inArgs_cons.mpr (.inr (.inr inside)))
    have made₁ : ∀ k, InRange strtop (strRoom text) k → made k ≠ none :=
      (forall_inRange (by omega)).mpr fun v low high => all v (inArgs_cons.mpr (.inr (.inl ⟨low, high⟩)))
    have made₂ : ∀ k, InRange argvtop 8 k → made k ≠ none :=
      (forall_inRange (by decide)).mpr fun v low high => all v (inArgs_cons.mpr (.inl ⟨low, high⟩))
    have stored : ∀ v, (s.setMem (m₁.store slot 8 strtop)).userMem made v = (s.setMem m₁).userMem made v :=
      @userMem_store (s.setMem m₁) slot made place strtop
    -- a later round writes neither the pointer nor the string of this one
    have word : WordAt ((s.setMem m').userMem made) argvtop strtop := by
      intro j inside
      rw [frame _ (by rw [InArgs]; omega), step₂.inside made₂ j inside (place j inside)]
      exact congrArg some (store_byte m₁ strtop inside)
    have byte : ∀ j ≤ text.length, (s.setMem m').userMem made (strtop + j) = some (s.mem (a + j)) := by
      intro j inside
      rw [frame _ (by rw [InArgs]; omega), step₂.outside made₂ _ (.inr (by omega)), stored,
        step₁.inside made₁ j (by omega) (kernel j inside)]
    obtain ⟨chars, -, nul⟩ := string
    have text' : StringAt ((s.setMem m').userMem made) strtop text := by
      refine ⟨fun j inside => ?_, ?_⟩
      · rw [byte j (Nat.le_of_lt inside)]
        exact congrArg some (chars j inside)
      · rw [byte _ le_rfl]
        exact congrArg some nul
    refine ⟨⟨word, text', laid⟩, fun v away => ?_⟩
    rw [inArgs_cons, not_or, not_or] at away
    rw [frame v away.2.2, step₂.outside made₂ v (by omega), stored, step₁.outside made₁ v (by omega)]

theorem argvLoop_spec {argv : List (Nat × List UInt8)} {argvtop strtop : Nat} (users : UserMap s root made r)
    (args : KernelArgs s made r slot fuel argv) (order : argvtop + 8 * argv.length ≤ strtop)
    (bound : strtop + strsRoom (argv.map Prod.snd) ≤ 2 ^ 47) :
    ∃ ret m, argvLoop (s.pageToKvaddr root) slot fuel (argv.map Prod.fst) argvtop strtop s = .ok (ret, s.setMem m) ∧
      ArgvRest s (s.setMem m) made ret argvtop strtop (argv.map Prod.snd) := by
  induction argv generalizing s argvtop strtop with
  | nil =>
    refine ⟨strtop, s.mem, rfl, fun _ => rfl, ?_, fun _ => ⟨trivial, fun _ _ => rfl⟩⟩
    rintro ⟨v, inside, -⟩
    simp [InArgs, strsRoom] at inside
    omega
  | cons e argv ih =>
    obtain ⟨a, text⟩ := e
    obtain ⟨string, enough⟩ := args.string (a, text) (List.mem_cons_self ..)
    have kernel := args.kernel (a, text) (List.mem_cons_self ..)
    obtain ⟨fits, -, eight⟩ := strRoom_spec text
    rw [List.length_cons] at order
    have room : strsRoom (((a, text) :: argv).map Prod.snd) = strRoom text + strsRoom (argv.map Prod.snd) := by
      rw [List.map_cons, strsRoom, List.map_cons, List.sum_cons, ← strsRoom]
    rw [room] at bound
    obtain ⟨done₁, m₁, result₁, users₁, step₁⟩ := @copyToUvm_step s root strtop (strRoom text) made r users a (by omega) (by omega)
    rw [forall_inRange (by omega)] at done₁
    have users₂ : UserMap (s.setMem (m₁.store slot 8 strtop)) root made r :=
      users₁.setMem fun d x owns low high => ByteMem.store_outside (by
        have away : slot + 8 ≤ s.pageToKvaddr d ∨ s.pageToKvaddr d + 16384 ≤ slot := args.table d owns
        have low' : s.pageToKvaddr d ≤ x := low
        have high' : x < s.pageToKvaddr d + 16384 := high
        omega)
    obtain ⟨done₂, m₂, result₂, users₃, step₂⟩ := @copyToUvm_step _ root argvtop 8 made r users₂ slot (by decide) (by omega)
    rw [forall_inRange (by decide)] at done₂
    have length := strlenAt_eq string enough
    simp only [List.map_cons, argvLoop, length, bind, Except.bind, strspace_eq (by omega : strRoom text < 2 ^ 63)]
    by_cases first : ∀ v, strtop ≤ v → v < strtop + strRoom text → Backed made (v / 16384)
    · rw [if_neg (not_not.mpr (done₁.mpr first)), result₁]
      by_cases second : ∀ v, argvtop ≤ v → v < argvtop + 8 → Backed made (v / 16384)
      · have args' : KernelArgs (s.setMem m₂) made r slot fuel argv := args.next fun x outside away => by
          have kept : m₂ x = m₁.store slot 8 strtop x := step₂.kernel x outside
          rw [kept, ByteMem.store_outside away]
          exact step₁.kernel x outside
        obtain ⟨ret, m', result, rest⟩ := @ih (s.setMem m₂) (argvtop + 8) (strtop + strRoom text) users₃ args' (by omega) (by omega)
        refine ⟨ret, m', ?_, .cons string (fun i inside => (kernel i inside).1) args.place (by rw [List.length_map]; exact order)
          step₁ first step₂ second rest⟩
        have next : (argvtop + 8) % 2 ^ 64 = argvtop + 8 := Nat.mod_eq_of_lt (by omega)
        have next' : (strtop + strRoom text) % 2 ^ 64 = strtop + strRoom text := Nat.mod_eq_of_lt (by omega)
        have done := done₂.mpr second
        have failed : ¬ ((s.setMem (m₁.store slot 8 strtop)).copyToUvm (s.pageToKvaddr root) argvtop slot 8).1 ≠ 0 :=
          not_not.mpr done
        rw [next, next']
        refine (if_neg failed).trans (Eq.trans ?_ result)
        exact congrArg (argvLoop (s.pageToKvaddr root) slot fuel (argv.map Prod.fst) (argvtop + 8) (strtop + strRoom text)) result₂
      · have failed := mt done₂.mp second
        push Not at second
        obtain ⟨v, low, high, absent⟩ := second
        exact ⟨0, m₂, (if_pos failed).trans (congrArg (fun t => Except.ok (0, t)) result₂),
          .failed (inArgs_cons.mpr (.inl ⟨low, high⟩)) absent⟩
    · have failed := mt done₁.mp first
      push Not at first
      obtain ⟨v, low, high, absent⟩ := first
      rw [if_pos failed]
      exact ⟨0, m₁, by rw [result₁], .failed (inArgs_cons.mpr (.inr (.inl ⟨low, high⟩))) absent⟩

theorem strsRoom_cons (text : List UInt8) (texts : List (List UInt8)) : strsRoom (text :: texts) = strRoom text + strsRoom texts := by
  rw [strsRoom, List.map_cons, List.sum_cons, ← strsRoom]

theorem strsRoom_aligned (texts : List (List UInt8)) : strsRoom texts % 8 = 0 := by
  induction texts with
  | nil => rfl
  | cons text texts ih =>
    obtain ⟨-, whole, -⟩ := strRoom_spec text
    rw [strsRoom_cons]
    omega

/-- The room for a string lies between that of the strings before it and that of those behind it. -/
theorem strsRoom_take (texts : List (List UInt8)) {i j : Nat} (inside : i < texts.length) (later : i < j) :
    strsRoom (texts.take i) + strRoom (texts.getD i []) ≤ strsRoom (texts.take j) := by
  induction texts generalizing i j with
  | nil => exact absurd inside (Nat.not_lt_zero i)
  | cons text texts ih =>
    obtain ⟨j, rfl⟩ := Nat.exists_eq_succ_of_ne_zero (by omega : j ≠ 0)
    rw [List.take_succ_cons, strsRoom_cons]
    cases i with
    | zero =>
      rw [List.take_zero, List.getD_cons_zero]
      exact le_trans (le_of_eq (Nat.zero_add _)) (Nat.le_add_right _ _)
    | succ i =>
      have rest := @ih i j (Nat.lt_of_succ_lt_succ inside) (Nat.lt_of_succ_lt_succ later)
      rw [List.take_succ_cons, strsRoom_cons, List.getD_cons_succ]
      omega

theorem Laid.get {μ : Nat → Option UInt8} {argvtop strtop : Nat} {texts : List (List UInt8)} (laid : Laid μ argvtop strtop texts) {i : Nat}
    (inside : i < texts.length) :
    WordAt μ (argvtop + 8 * i) (strtop + strsRoom (texts.take i)) ∧ StringAt μ (strtop + strsRoom (texts.take i)) (texts.getD i []) := by
  induction texts generalizing argvtop strtop i with
  | nil => exact absurd inside (Nat.not_lt_zero i)
  | cons text texts ih =>
    obtain ⟨word, string, rest⟩ := laid
    cases i with
    | zero => exact ⟨word, string⟩
    | succ i =>
      have later := ih rest (Nat.lt_of_succ_lt_succ inside)
      rw [List.take_succ_cons, strsRoom_cons, List.getD_cons_succ, ← Nat.add_assoc, Nat.mul_succ, Nat.add_comm (8 * i), ← Nat.add_assoc]
      exact later

theorem strAt_apart (top : Nat) (texts : List (List UInt8)) {i : Nat} (inside : i < texts.length) :
    top + 8 * texts.length ≤ strAt top texts i ∧ strAt top texts i + ((texts.getD i []).length + 1) ≤ argsEnd top texts ∧
      ∀ j < i, strAt top texts j + ((texts.getD j []).length + 1) ≤ strAt top texts i := by
  refine ⟨Nat.le_add_right _ _, ?_, fun j before => ?_⟩
  · obtain ⟨fits, -⟩ := strRoom_spec (texts.getD i [])
    have room := strsRoom_take texts inside inside
    rw [List.take_length] at room
    rw [strAt, argsEnd]
    omega
  · obtain ⟨fits, -⟩ := strRoom_spec (texts.getD j [])
    have room := strsRoom_take texts (Nat.lt_trans before inside) before
    rw [strAt, strAt]
    omega

theorem inArgs_iff {top v : Nat} {texts : List (List UInt8)} :
    InArgs top (top + 8 * texts.length) texts v ↔ top ≤ v ∧ v < argsEnd top texts := by
  rw [InArgs, argsEnd]
  omega

/-- When the arguments are laid out the size of the pointers is an int. -/
theorem LaysOut.fits {argv : List Nat} {texts : List (List UInt8)} {pgd top : Nat}
    (lays : LaysOut s made top texts (s.setTaskArgv pgd top slot fuel argv)) : argv.length * 8 ≤ intMax := by
  by_contra large
  have stops : s.setTaskArgv pgd top slot fuel argv = .error .overflow := by
    rw [setTaskArgv, if_pos (by omega)]
  rw [stops] at lays
  by_cases all : ∀ v, top ≤ v → v < argsEnd top texts → made (v / 16384) ≠ none
  · obtain ⟨s', eq, -⟩ := lays.mapped all
    cases eq
  · push Not at all
    obtain ⟨s', eq⟩ := lays.missing all
    cases eq

/-- `set_task_argv` lays the arguments out when the int that holds the size of the pointers
does, and when no page that is missing has an alias. -/
theorem setTaskArgv_laysOut {argv : List (Nat × List UInt8)} {top : Nat} (users : UserMap s root made r)
    (args : KernelArgs s made r slot fuel argv) (aligned : top % 8 = 0) (below : argsEnd top (argv.map Prod.snd) ≤ 2 ^ 47) :
    LaysOut s made top (argv.map Prod.snd) (s.setTaskArgv (s.pageToKvaddr root) top slot fuel (argv.map Prod.fst)) ↔
      argv.length * 8 ≤ intMax ∧
        ((∀ v, top ≤ v → v < argsEnd top (argv.map Prod.snd) → Backed made (v / 16384)) →
          ∀ v, top ≤ v → v < argsEnd top (argv.map Prod.snd) → made (v / 16384) ≠ none) := by
  obtain ⟨texts, defTexts⟩ : ∃ texts, texts = argv.map Prod.snd := ⟨_, rfl⟩
  have count : texts.length = argv.length := by rw [defTexts, List.length_map]
  rw [← defTexts] at below ⊢
  have loop := @argvLoop_spec s root slot fuel made r argv top (top + 8 * texts.length) users args (by omega)
    (by rw [← defTexts]; exact below)
  rw [← defTexts] at loop
  obtain ⟨ret, m, result, rest⟩ := loop
  have place : (top + (argv.map Prod.fst).length * 8) % 2 ^ 64 = top + 8 * texts.length := by
    rw [argsEnd] at below
    rw [List.length_map, count, Nat.mod_eq_of_lt (by omega), Nat.mul_comm]
  have run : argv.length * 8 ≤ intMax →
      s.setTaskArgv (s.pageToKvaddr root) top slot fuel (argv.map Prod.fst) = .ok (ret, s.setMem m) := by
    intro small
    rw [setTaskArgv, if_neg (by rw [List.length_map]; omega), place, result]
  constructor
  · intro lays
    have small : argv.length * 8 ≤ intMax := by
      have fits := lays.fits
      rwa [List.length_map] at fits
    refine ⟨small, fun backed => ?_⟩
    by_contra some
    push Not at some
    obtain ⟨s', eq⟩ := lays.missing some
    obtain ⟨v, -, high, -⟩ := some
    rw [run small] at eq
    have value : ret = argsEnd top texts := rest.backed fun w inside => backed w (inArgs_iff.mp inside).1 (inArgs_iff.mp inside).2
    have zero : ret = 0 := congrArg Prod.fst (Except.ok.inj eq)
    omega
  · rintro ⟨small, honest⟩
    refine ⟨fun all => ⟨s.setMem m, ?_, fun i inside => ?_, fun v away => ?_⟩, fun i inside => strAt_apart top texts inside, ?_⟩
    · have value : ret = argsEnd top texts := rest.backed fun w inside =>
        backed_of_made (all w (inArgs_iff.mp inside).1 (inArgs_iff.mp inside).2)
      rw [run small, value]
    · obtain ⟨laid, -⟩ := rest.laid fun w inside => all w (inArgs_iff.mp inside).1 (inArgs_iff.mp inside).2
      have whole := strsRoom_aligned (texts.take i)
      refine ⟨?_, laid.get inside⟩
      rw [strAt]
      omega
    · obtain ⟨-, frame⟩ := rest.laid fun w inside => all w (inArgs_iff.mp inside).1 (inArgs_iff.mp inside).2
      exact frame v fun inside => by
        have between := inArgs_iff.mp inside
        omega
    · rintro ⟨v, low, high, absent⟩
      have unbacked : ∃ w, InArgs top (top + 8 * texts.length) texts w ∧ ¬ Backed made (w / 16384) := by
        by_contra all
        push Not at all
        exact honest (fun w low high => all w (inArgs_iff.mpr ⟨low, high⟩)) v low high absent
      exact ⟨s.setMem m, by rw [run small, rest.missing unbacked]⟩

end

/-- Some bytes at the bottom of the memory, which no page has. -/
def withLow (s : PageMem) (low : Nat → UInt8) : PageMem := s.setMem fun x => if x < 4096 then low x else s.mem x

theorem kernelByte_low (s : PageMem) (made : Nat → Option Nat) {x : Nat} (low : x < 4096) : s.KernelByte made x := by
  intro k p _
  left
  rw [pageToKvaddr_eq]
  omega

/-- The bottom of the memory is in no directory. -/
theorem UserMap.withLow {s : PageMem} {root : Nat} {made : Nat → Option Nat} {r : Dirs} (users : UserMap s root made r)
    (low : Nat → UInt8) : UserMap (s.withLow low) root made r :=
  users.setMem fun d x _ above _ => if_neg (by rw [pageToKvaddr_eq] at above; omega)

/-- The first pages of user space are mapped. -/
theorem exists_users {n : Nat} (some : 1 ≤ n) (few : n ≤ 2 ^ 20) : ∃ (s : PageMem) (root : Nat) (r : Dirs),
    UserMap s root (userPages r) r ∧ ∀ v, 16384 ≤ v → v < 16384 + 16384 * n → userPages r (v / 16384) ≠ none := by
  have pages : 2 ^ 32 ≤ 2 ^ 33 - pageArrayPages (2 ^ 33) := by decide
  obtain ⟨k, root, l, B, new, table, kept, room⟩ :=
    Mm.mmNew_served largeHeap_kept largeHeap_phys smallCpu ⟨id, id⟩ (by rw [List.length_range']; omega)
  rw [List.length_range'] at room
  have int : 2 ^ 20 ≤ intMax := by decide
  obtain ⟨k', -, -, -, -, done, -⟩ := kept.createUvm_last (m := 1) (n := n) .nil (.single root) 0 le_rfl some (by omega) (by omega)
    (by simp) (by omega)
  have whole : pgaddrRounddown (16384 * 1) ≠ 0 := by decide
  obtain ⟨r', l', B', areas', kept', created⟩ := kept.createUvm_done (by omega) whole (by omega) done
  have count : nrPagesSpanned (16384 * 1) (16384 * n) = n := by
    rw [nrPagesSpanned_eq (by omega) (by omega)]
    omega
  refine ⟨k'.heap.pm, root, r', kept'.space.userMap fun π w _ => ?_, fun v low high => ?_⟩
  · rw [pageToPfn, created.geometry.base, (Mm.mmNew_geometry largeHeap_kept largeHeap_phys new table).base]
    exact Nat.succ_ne_zero _
  · have mapped := created.mapped (v / 16384 - 1) (by rw [count, Nat.mod_eq_of_lt (by omega)]; omega)
    rw [userPages_eq (by omega), entry, Ne, Option.map_eq_none_iff]
    have number : 16384 * 1 / 16384 + (v / 16384 - 1) = v / 16384 := by omega
    rw [number] at mapped
    exact mapped

/-- The arguments "AB" and "C": the pointer to the first one is at the end of a page, and the rest in the next page. -/
theorem setTaskArgv_laysOut_border : ∃ (s : PageMem) (root : Nat) (r : Dirs) (s' : PageMem),
    s.setTaskArgv (s.pageToKvaddr root) 0x7ff8 32 3 [0, 8] = .ok (0x8018, s') ∧
      (WordAt (s'.userMem (userPages r)) 0x7ff8 0x8008 ∧ StringAt (s'.userMem (userPages r)) 0x8008 [65, 66]) ∧
      WordAt (s'.userMem (userPages r)) 0x8000 0x8010 ∧ StringAt (s'.userMem (userPages r)) 0x8010 [67] := by
  obtain ⟨s, root, r, users, mapped⟩ := exists_users (n := 2) (by decide) (by decide)
  obtain ⟨low, def'⟩ : ∃ low : Nat → UInt8, low = fun x => if x = 0 then 65 else if x = 1 then 66 else if x = 8 then 67 else 0 :=
    ⟨_, rfl⟩
  have args : KernelArgs (s.withLow low) (userPages r) r 32 3 [(0, [65, 66]), (8, [67])] := by
    refine ⟨fun e member => ?_, fun e member i inside => ?_, fun i inside => kernelByte_low _ _ (by omega), fun d _ => ?_⟩
    · rcases List.mem_pair.mp member with rfl | rfl
      · refine ⟨⟨fun i inside => ?_, by decide, by rw [def']; rfl⟩, by decide⟩
        have two : i = 0 ∨ i = 1 := by simp at inside; omega
        rcases two with rfl | rfl <;> rw [def'] <;> rfl
      · refine ⟨⟨fun i inside => ?_, by decide, by rw [def']; rfl⟩, by decide⟩
        obtain rfl : i = 0 := by simpa using inside
        rw [def']
        rfl
    · have near : e.1 + i ≤ 9 := by
        rcases List.mem_pair.mp member with rfl | rfl <;> simp at inside ⊢ <;> omega
      exact ⟨kernelByte_low _ _ (by omega), .inl (by omega)⟩
    · left
      rw [pageToKvaddr_eq]
      omega
  have stop : argsEnd 0x7ff8 [[65, 66], [67]] = 0x8018 := rfl
  have area : ∀ v, 0x7ff8 ≤ v → v < argsEnd 0x7ff8 [[65, 66], [67]] → userPages r (v / 16384) ≠ none :=
    fun v above below => mapped v (by omega) (by omega)
  have lays := (@setTaskArgv_laysOut _ root 32 3 _ r [(0, [65, 66]), (8, [67])] 0x7ff8 (users.withLow low) args (by decide)
    (by decide)).mpr ⟨by decide, fun _ => area⟩
  obtain ⟨s', result, each, -⟩ := lays.mapped area
  obtain ⟨-, word, string⟩ := each 0 (by decide)
  obtain ⟨-, word', string'⟩ := each 1 (by decide)
  exact ⟨_, root, r, s', result, ⟨word, string⟩, word', string'⟩

/-- The pointers to 2^28 empty strings need more bytes than an int can count, with all pages there. -/
theorem not_setTaskArgv_laysOut : ¬ ∀ (s : PageMem) (root slot fuel top : Nat) (made : Nat → Option Nat) (r : Dirs)
    (argv : List (Nat × List UInt8)), UserMap s root made r → KernelArgs s made r slot fuel argv → top % 8 = 0 →
    argsEnd top (argv.map Prod.snd) ≤ 2 ^ 47 →
    (∀ v, top ≤ v → v < argsEnd top (argv.map Prod.snd) → made (v / 16384) ≠ none) →
    LaysOut s made top (argv.map Prod.snd) (s.setTaskArgv (s.pageToKvaddr root) top slot fuel (argv.map Prod.fst)) := by
  intro claim
  obtain ⟨s, root, r, users, mapped⟩ := exists_users (n := 2 ^ 18) (by decide) (by decide)
  obtain ⟨argc, large⟩ : ∃ argc, argc = 2 ^ 28 := ⟨_, rfl⟩
  obtain ⟨argv, defArgv⟩ : ∃ argv : List (Nat × List UInt8), argv = List.replicate argc (16, []) := ⟨_, rfl⟩
  have only : ∀ e ∈ argv, e = (16, []) := fun e member => List.eq_of_mem_replicate (defArgv ▸ member)
  have length : argv.length = argc := by rw [defArgv, List.length_replicate]
  have args : KernelArgs (s.withLow fun _ => 0) (userPages r) r 32 1 argv := by
    refine ⟨fun e member => ?_, fun e member i inside => ?_, fun i inside => kernelByte_low _ _ (by omega), fun d _ => ?_⟩
    · obtain rfl := only e member
      exact ⟨⟨fun i inside => absurd inside (Nat.not_lt_zero i), List.not_mem_nil, rfl⟩, by decide⟩
    · obtain rfl := only e member
      have near : i ≤ 0 := inside
      exact ⟨kernelByte_low _ _ (by omega), .inl (by omega)⟩
    · left
      rw [pageToKvaddr_eq]
      omega
  have room : strsRoom (argv.map Prod.snd) = 8 * argc := by
    have each : (argv.map Prod.snd).map strRoom = List.replicate argc 8 := by
      rw [defArgv, List.map_replicate, List.map_replicate]
      rfl
    rw [strsRoom, each, List.sum_replicate_nat, Nat.mul_comm]
  have stop : argsEnd 0x4000 (argv.map Prod.snd) = 0x4000 + 16384 * 2 ^ 18 := by
    rw [argsEnd, room, List.length_map, length]
    omega
  have lays := claim (s.withLow fun _ => 0) root 32 1 0x4000 (userPages r) r argv (users.withLow _) args (by decide)
    (by omega) fun v low high => mapped v low (by omega)
  have small := lays.fits
  rw [List.length_map, length, large] at small
  exact absurd small (by decide)

end PageMem

end Xv6
