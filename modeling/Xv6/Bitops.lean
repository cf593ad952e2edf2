import Xv6.Lib.LinkedUpdate

namespace Xv6

inductive BitKind
  | set | clear | change
  deriving DecidableEq

/-- A call of `atomic_set_bit`, `atomic_clear_bit` or `atomic_change_bit`. -/
structure BitCall where
  kind : BitKind
  pos : BitVec 32
  addr : BitVec 64
  deriving DecidableEq

namespace BitCall

/-- `m`, the address of the word -/
def word (b : BitCall) : BitVec 64 := b.addr + 4 * (b.pos >>> 5).setWidth 64

/-- `bit`, an unsigned short -/
def bit (b : BitCall) : Nat := ((b.pos &&& 31).setWidth 16).toNat

/-- `1 << bit`, an int in a register -/
def mask (b : BitCall) : BitVec 64 := (1#32 <<< b.bit).signExtend 64

/-- The instruction between `ll` and `sc`. -/
def modify (b : BitCall) (tmp : BitVec 64) : BitVec 64 :=
  match b.kind with
  | .set => tmp ||| b.mask
  | .clear => tmp &&& (~~~(1#32 <<< b.bit)).signExtend 64
  | .change => tmp ^^^ b.mask

/-- What the call is for. -/
def update (b : BitCall) (old : Bool) : Bool :=
  match b.kind with
  | .set => true
  | .clear => false
  | .change => !old

end BitCall

/-- `atomic_get_bit` -/
def atomicGetBit (m : BitVec 64 → BitVec 32) (pos : BitVec 32) (addr : BitVec 64) : Bool :=
  m (addr + 4 * (pos >>> 5).setWidth 64) &&& 1#32 <<< ((pos &&& 31).setWidth 16).toNat ≠ 0#32

/-- The loops of `ll` and `sc`: the first extends the sign of a word, the second stores the low half of the register. -/
def bitops : LinkedUpdate BitCall (BitVec 64) (BitVec 32) (BitVec 64) where
  addr := BitCall.word
  extend := BitVec.signExtend 64
  modify := BitCall.modify
  narrow := BitVec.setWidth 32

namespace BitCall

variable {b : BitCall} {m : BitVec 64 → BitVec 32} {i : Nat}

theorem bit_lt (b : BitCall) : b.bit < 32 := by
  have bound := Nat.and_le_right (n := b.pos.toNat) (m := 31)
  simp only [bit, BitVec.toNat_setWidth, BitVec.toNat_and]
  have small : (b.pos.toNat &&& (31#32).toNat) % 2 ^ 16 ≤ 31 := Nat.le_trans (Nat.mod_le _ _) bound
  exact Nat.lt_of_le_of_lt small (by decide)

/-- The bit of the call is updated, the other bits of the word stay. -/
theorem modify_bit (b : BitCall) (x : BitVec 32) (low : i < 32) :
    ((b.modify (x.signExtend 64)).setWidth 32).getLsbD i = if i = b.bit then b.update (x.getLsbD i) else x.getLsbD i := by
  have one : (1#32 <<< b.bit).getLsbD i = decide (i = b.bit) := by
    rw [BitVec.getLsbD_shiftLeft, BitVec.getLsbD_one]
    have := b.bit_lt
    by_cases same : i = b.bit
    · simp [same, this]
    · by_cases above : i < b.bit
      · simp [above, same]
      · have : i - b.bit ≠ 0 := by omega
        simp [this, same]
  have wide : i < 64 := by omega
  rw [modify, update]
  cases b.kind <;>
  · simp only [mask, BitVec.getLsbD_setWidth, BitVec.getLsbD_or, BitVec.getLsbD_and, BitVec.getLsbD_xor,
      BitVec.getLsbD_signExtend, BitVec.getLsbD_not, low, wide, one, decide_true, Bool.true_and, if_true]
    by_cases same : i = b.bit <;> simp [same]

theorem apply_bit (b : BitCall) {a : BitVec 64} (low : i < 32) :
    (bitops.apply b m a).getLsbD i = if a = b.word ∧ i = b.bit then b.update ((m a).getLsbD i) else (m a).getLsbD i := by
  by_cases same : a = b.word
  · subst same
    simp only [LinkedUpdate.apply, bitops, Function.update_self, true_and]
    exact b.modify_bit _ low
  · rw [if_neg fun both => same both.1]
    exact congrArg (fun x : BitVec 32 => x.getLsbD i) (Function.update_of_ne same _ _)

/-- The call that an event makes effective at bit `i` of the word at `a`. -/
def touches {κ : Type*} (a : BitVec 64) (i : Nat) : LinkedUpdate.Event κ BitCall (BitVec 64) (BitVec 32) → Option BitCall
  | .effect _ b => if a = b.word ∧ i = b.bit then some b else none
  | _ => none

/-- A bit, by the calls that are about it. -/
def bitAfter {κ : Type*} (h : List (LinkedUpdate.Event κ BitCall (BitVec 64) (BitVec 32))) (a : BitVec 64) (i : Nat) (old : Bool) : Bool :=
  (h.filterMap (touches a i)).foldl (fun old b => b.update old) old

section Bits

variable {κ : Type*} {h : List (LinkedUpdate.Event κ BitCall (BitVec 64) (BitVec 32))} {a : BitVec 64}

/-- One event changes the bit if it is about it, and a plain store elsewhere does not. -/
theorem replayEvent_bit {e : LinkedUpdate.Event κ BitCall (BitVec 64) (BitVec 32)} (plain : ∀ v, e ≠ .wrote a v) (low : i < 32) :
    (bitops.replayEvent m e a).getLsbD i = bitAfter [e] a i ((m a).getLsbD i) := by
  cases e with
  | effect c b =>
    rw [LinkedUpdate.replayEvent, b.apply_bit low, bitAfter, List.filterMap_cons, touches]
    split <;> rfl
  | wrote a' v =>
    have away : a ≠ a' := fun same => plain v (by rw [same])
    exact congrArg (fun x : BitVec 32 => x.getLsbD i) (Function.update_of_ne away _ _)
  | _ => rfl

theorem replay_bit (plain : ∀ v, .wrote a v ∉ h) (low : i < 32) :
    (bitops.replay m h a).getLsbD i = bitAfter h a i ((m a).getLsbD i) := by
  induction h generalizing m with
  | nil => rfl
  | cons e h ih =>
    have first := replayEvent_bit (m := m) (fun v same => plain v (same ▸ List.mem_cons_self)) low
    have rest := ih (m := bitops.replayEvent m e) fun v member => plain v (List.mem_cons_of_mem e member)
    rw [LinkedUpdate.replay, List.foldl_cons, ← LinkedUpdate.replay, rest, first, bitAfter, bitAfter, bitAfter, ← List.foldl_append,
      ← List.filterMap_append, List.singleton_append]

theorem atomicGetBit_eq (m : BitVec 64 → BitVec 32) (b : BitCall) : atomicGetBit m b.pos b.addr = (m b.word).getLsbD b.bit := by
  have only : ∀ x : BitVec 32, ∀ i < 32, (x &&& 1#32 <<< i ≠ 0#32) ↔ x.getLsbD i = true := by
    intro x i low
    constructor
    · intro nonzero
      by_contra clear
      refine nonzero (BitVec.eq_of_getLsbD_eq fun j bound => ?_)
      simp only [BitVec.getLsbD_and, BitVec.getLsbD_shiftLeft, BitVec.getLsbD_one, BitVec.getLsbD_zero]
      by_cases same : j = i
      · subst same
        simp [Bool.not_eq_true _ ▸ clear]
      · by_cases above : j < i
        · simp [above]
        · have apart : j - i ≠ 0 := by omega
          simp [apart]
    · intro lit none
      have bit := congrArg (fun y : BitVec 32 => y.getLsbD i) none
      rw [BitVec.getLsbD_and, lit] at bit
      simp [low] at bit
  rw [atomicGetBit, Bool.eq_iff_iff, decide_eq_true_iff]
  exact only (m b.word) b.bit b.bit_lt

end Bits

section Concurrent

variable {κ : Type*} [DecidableEq κ] {m₀ : BitVec 64 → BitVec 32} {h h₁ h₂ : List (LinkedUpdate.Event κ BitCall (BitVec 64) (BitVec 32))}
variable {s : LinkedUpdate.State κ BitCall (BitVec 64) (BitVec 32) (BitVec 64)} {a : BitVec 64} {c : κ}

/-- Two calls at once: the second is linked too when the first stores, and has to try again where they share the word. -/
theorem contended_run (m₀ : BitVec 64 → BitVec 32) (x y : BitCall) : ∃ s : LinkedUpdate.State Bool BitCall _ _ _, bitops.Run m₀
    ([.called true x, .called false y] ++ .effect true x :: [.effect false y, .returned true x, .returned false y]) s := by
  have idle : bitops.Run m₀ [] ⟨m₀, fun _ => none, fun _ : Bool => .idle⟩ := .start
  have called := (idle.call (c := true) x rfl).call (c := false) y rfl
  have linked := (called.ll (c := true) rfl).ll (c := false) rfl
  have ready := (linked.modify (c := true) rfl).modify (c := false) rfl
  have first := ready.sc (c := true) rfl rfl
  have again := (first.fail (c := false) rfl).again (c := false) rfl
  have second := ((again.ll (c := false) rfl).modify (c := false) rfl).sc (c := false) rfl rfl
  exact ⟨_, (second.return (c := true) rfl).return (c := false) rfl⟩

/-- In every run each call takes effect once before it returns, and every bit of a word that is only changed by such calls
is what the calls about this bit make of it in the order of their effects. -/
theorem atomic_calls (run : bitops.Run m₀ h s) (plain : ∀ v, .wrote a v ∉ h) :
    (∀ c, LinkedUpdate.Rounds h c (s.point c)) ∧
      ∀ i < 32, (s.mem a).getLsbD i = bitAfter h a i ((m₀ a).getLsbD i) :=
  ⟨run.rounds, fun _ low => by rw [run.replay, replay_bit plain low]⟩

theorem atomic_calls_two : ∃ s : LinkedUpdate.State Bool BitCall (BitVec 64) (BitVec 32) (BitVec 64),
    (s.mem 0x1000).getLsbD 3 = true ∧ (s.mem 0x1000).getLsbD 4 = false := by
  obtain ⟨s, run⟩ := contended_run (fun _ => 0x10) ⟨.set, 3, 0x1000⟩ ⟨.clear, 36, 0xffc⟩
  obtain ⟨-, bits⟩ := atomic_calls (a := 0x1000) run (by simp)
  exact ⟨s, bits 3 (by decide), bits 4 (by decide)⟩

/-- A bit that was set or cleared stays so until a call about the same bit says otherwise, whatever happens to its
neighbours. -/
theorem atomic_bit_stays (run : bitops.Run m₀ (h₁ ++ .effect c b :: h₂) s) (plain : ∀ v, .wrote b.word v ∉ h₁ ++ .effect c b :: h₂)
    (kind : b.kind ≠ .change) (last : ∀ d e, .effect d e ∈ h₂ → e.word = b.word → e.bit = b.bit → e.kind = b.kind) :
    atomicGetBit s.mem b.pos b.addr = decide (b.kind = .set) := by
  have fixed : ∀ old, b.update old = decide (b.kind = .set) := by
    intro old
    rw [update]
    cases which : b.kind with
    | change => exact absurd which kind
    | _ => rfl
  have later : ∀ calls : List BitCall, (∀ e ∈ calls, e.kind = b.kind) →
      calls.foldl (fun old e => e.update old) (decide (b.kind = .set)) = decide (b.kind = .set) := by
    intro calls same
    induction calls with
    | nil => rfl
    | cons e calls ih =>
      have first : e.update (decide (b.kind = .set)) = decide (b.kind = .set) := by
        rw [update, same e List.mem_cons_self]
        exact fixed _
      rw [List.foldl_cons, first]
      exact ih fun e' member => same e' (List.mem_cons_of_mem e member)
  have mine : touches b.word b.bit (.effect c b : LinkedUpdate.Event κ BitCall (BitVec 64) (BitVec 32)) = some b := if_pos ⟨rfl, rfl⟩
  rw [atomicGetBit_eq, run.replay, replay_bit plain b.bit_lt, bitAfter, List.filterMap_append, List.filterMap_cons_some mine,
    List.foldl_append, List.foldl_cons, fixed]
  refine later _ fun e member => ?_
  obtain ⟨event, inside, made⟩ := List.mem_filterMap.mp member
  cases event with
  | effect d e' =>
    rw [touches] at made
    split at made
    · rename_i both
      obtain rfl := Option.some.inj made
      exact last d e' inside both.1.symm both.2.symm
    · cases made
  | _ => cases made

theorem atomic_bit_stays_two : ∃ s : LinkedUpdate.State Bool BitCall (BitVec 64) (BitVec 32) (BitVec 64),
    atomicGetBit s.mem 3 0x1000 = true := by
  obtain ⟨s, run⟩ := contended_run (fun _ => 0) ⟨.set, 3, 0x1000⟩ ⟨.clear, 36, 0xffc⟩
  have last : ∀ (d : Bool) (e : BitCall), LinkedUpdate.Event.effect d e ∈ ([.effect false ⟨.clear, 36, 0xffc⟩,
      .returned true ⟨.set, 3, 0x1000⟩, .returned false ⟨.clear, 36, 0xffc⟩] : List (LinkedUpdate.Event Bool BitCall (BitVec 64) (BitVec 32))) →
      e.bit ≠ 3 := by
    intro d e member
    simp only [List.mem_cons, List.not_mem_nil, LinkedUpdate.Event.effect.injEq, reduceCtorEq, or_false] at member
    rw [member.2]
    decide
  have stays := atomic_bit_stays run (by simp) (by decide) fun d e member _ bit => absurd bit (last d e member)
  exact ⟨s, stays⟩

end Concurrent

end BitCall

end Xv6
