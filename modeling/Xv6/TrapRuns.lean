import Xv6.SwitchContext

namespace Xv6.Asm

/-- The registers of a program. The two of the kernel are nobody's, and the register 0 is none. -/
@[ext] structure Regs where
  gpr : Fin 32 → BitVec 64
  lo : BitVec 64
  hi : BitVec 64
  pc : BitVec 64

def visible (gpr : Fin 32 → BitVec 64) (r : Fin 32) : BitVec 64 := if r = zero ∨ r = k0 ∨ r = k1 then 0 else gpr r

/-- The registers in the processor, with the address where the program goes on. -/
def Core.regs (s : Core) (pc : BitVec 64) : Regs := ⟨visible s.gpr, s.lo, s.hi, pc⟩

/-- The registers in a trap frame. -/
def frameRegs (tf : Trapframe) : Regs := ⟨visible tf.gpr, tf.lo, tf.hi, tf.cp0Epc⟩

/-- The bits of Status that make up a mode: coprocessor 0, KSU, ERL, EXL and IE. -/
def modeMask : BitVec 32 := 0x1000001f

/-- Where the kernel has the stacks and the contexts of its tasks, and how its compiled code calls `switch_context`:
from `depth` below the trap frame, returning to `back`; the first time to `forkret`. -/
structure Kernel (τ : Type*) where
  kernelsp : BitVec 64
  ebase : BitVec 32
  scratch : BitVec 64
  forkret : BitVec 64
  back : BitVec 64
  depth : BitVec 64
  context : τ → BitVec 64
  top : τ → BitVec 64
  own : τ → Set (BitVec 64)
  mode : τ → BitVec 32
  array : Aligned kernelsp
  contextAligned : ∀ t, Aligned (context t)
  topAligned : ∀ t, Aligned (top t)
  contextOwn : ∀ t a, InFrame (context t) a → a ∈ own t
  frameOwn : ∀ t a, InFrame (top t - tfSize) a → a ∈ own t
  frameApart : ∀ t a, InFrame (top t - tfSize) a → ¬ InFrame (context t) a
  disjoint : ∀ t t' a, t ≠ t' → a ∈ own t → a ∉ own t'
  slotFree : ∀ t, kernelsp + (ebase.signExtend 64 &&& 0x3ff#64) <<< 3 ∉ own t
  returns : back ≠ forkret
  modes : ∀ t, mode t &&& 6 = 0

namespace Kernel

variable {τ : Type*} (K : Kernel τ)

/-- The entry of the processor in `kernelsp`. -/
def slot : BitVec 64 := K.kernelsp + (K.ebase.signExtend 64 &&& 0x3ff#64) <<< 3

/-- A trap frame may lie at `b`: on the stack of the task, away from its context. -/
structure Place (t : τ) (b : BitVec 64) : Prop where
  aligned : Aligned b
  own : ∀ a, InFrame b a → a ∈ K.own t
  apart : ∀ a, InFrame b a → ¬ InFrame (K.context t) a

theorem place_top (t : τ) : K.Place t (K.top t - tfSize) :=
  ⟨(aligned_sub (by decide)).mpr (K.topAligned t), K.frameOwn t, K.frameApart t⟩

/-- The kernel code that runs for `t` leaves alone what others have, and where it is to save its stack pointer. -/
def Leaves (t : τ) (m m' : BitVec 64 → BitVec 64) : Prop :=
  (∀ t' a, t' ≠ t → a ∈ K.own t' → m' a = m a) ∧ m' K.slot = m K.slot

/-- Where the kernel code goes on with the frame of a task that `switch_context` resumed. -/
def resumed (s : Core) : BitVec 64 := if s.gpr ra = K.forkret then s.gpr a0 else s.gpr sp + K.depth

inductive Phase
  | running (pc : BitVec 64)
  | handling (frame : BitVec 64)

/-- The trap frame of `t` at `b` has its registers and its mode. -/
structure Framed (m : BitVec 64 → BitVec 64) (t : τ) (b : BitVec 64) (r : Regs) : Prop where
  place : K.Place t b
  regs : frameRegs (frameAt m b) = r
  mode : (frameAt m b).cp0Status.setWidth 32 &&& modeMask = K.mode t ||| 2

/-- A task that does not run: its context leads to its trap frame. -/
structure Suspended (m : BitVec 64 → BitVec 64) (t : τ) (r : Regs) : Prop where
  framed : ∃ b, K.Framed m t b r ∧
    ((frameAt m (K.context t)).gpr ra = K.forkret ∧ (frameAt m (K.context t)).gpr a0 = b ∨
      (frameAt m (K.context t)).gpr ra = K.back ∧ (frameAt m (K.context t)).gpr sp = b - K.depth)
  kernel : (frameAt m (K.context t)).cp0Status.setWidth 32 &&& 0x1f#32 = 0

variable {K} {w : BitVec 64 → BitVec 64} {t t' : τ} {s : Core} {m m' : BitVec 64 → BitVec 64} {b : BitVec 64} {r : Regs}
variable {regs : τ → Regs} {phase : Phase}

/-- A frame stays when its doublewords do. -/
theorem Framed.congr (framed : K.Framed m t b r) (same : ∀ a, InFrame b a → m' a = m a) : K.Framed m' t b r := by
  have frame := frameAt_congr same
  exact ⟨framed.place, frame ▸ framed.regs, frame ▸ framed.mode⟩

/-- A suspended task is not concerned by what happens outside of its own. -/
theorem Suspended.congr (suspended : K.Suspended m t r) (same : ∀ a ∈ K.own t, m' a = m a) : K.Suspended m' t r := by
  obtain ⟨⟨b, framed, way⟩, kernel⟩ := suspended
  have context : frameAt m' (K.context t) = frameAt m (K.context t) :=
    frameAt_congr fun a within => same a (K.contextOwn t a within)
  refine ⟨⟨b, framed.congr fun a within => same a (framed.place.own a within), ?_⟩, ?_⟩
  · rw [context]
    exact way
  · rw [context]
    exact kernel

theorem leave_level {x : BitVec 32} (free : x &&& 6 = 0) : (x ||| 2) &&& ~~~2 = x := by
  apply BitVec.eq_of_getLsbD_eq
  intro i low
  have bit := congrArg (fun v : BitVec 32 => v.getLsbD i) free
  have part : ∀ j : Fin 32, (2#32).getLsbD j = true → (6#32).getLsbD j = true := by decide
  have within := part ⟨i, low⟩
  simp only [BitVec.getLsbD_and] at bit within
  simp only [BitVec.getLsbD_and, BitVec.getLsbD_or, BitVec.getLsbD_not, low, decide_true, Bool.true_and]
  cases two : (2#32).getLsbD i <;> simp_all

/-- Bits from elsewhere do not show under a mask. -/
theorem merge_and (x y : BitVec 32) : (x &&& ~~~0xff00#32 ||| y &&& 0xff00#32) &&& modeMask = x &&& modeMask := by
  rw [BitVec.and_or_distrib_right, BitVec.and_assoc, BitVec.and_assoc, show ~~~0xff00#32 &&& modeMask = modeMask by decide,
    show 0xff00#32 &&& modeMask = 0#32 by decide, BitVec.and_zero, BitVec.or_zero]

theorem exception_level (x : BitVec 32) : (x ||| 2) &&& modeMask = x &&& modeMask ||| 2 := by
  rw [BitVec.and_or_distrib_right, show 2 &&& modeMask = 2 by decide]

theorem exception_level_mode (x : BitVec 32) : (x ||| 2) &&& 0x18#32 = x &&& 0x18#32 := by
  rw [BitVec.and_or_distrib_right, show 2 &&& 0x18#32 = 0#32 by decide, BitVec.or_zero]

/-- What is common to all phases. -/
structure Sound (K : Kernel τ) (t : τ) (s : Core) (regs : τ → Regs) : Prop where
  zeroed : s.gpr zero = 0
  ebase : s.ebase = K.ebase
  stack : s.mem K.slot = K.top t
  others : ∀ t', t' ≠ t → K.Suspended s.mem t' (regs t')

/-- What holds in each phase: the processor has the registers of the current task, or its trap frame has them. -/
def Holds (K : Kernel τ) : Phase → τ → Core → (τ → Regs) → Prop
  | .running pc, t, s, regs => K.Sound t s regs ∧ s.status &&& modeMask = K.mode t ∧ s.regs pc = regs t
  | .handling b, t, s, regs => K.Sound t s regs ∧ s.status &&& 0x1f#32 = 0 ∧ K.Framed s.mem t b (regs t)

/-- Code that leaves the others alone keeps what is common. -/
theorem Sound.leaves {s' : Core} {regs' : τ → Regs} (sound : K.Sound t s regs) (zeroed : s'.gpr zero = 0) (ebase : s'.ebase = s.ebase)
    (leaves : K.Leaves t s.mem s'.mem) (same : ∀ t', t' ≠ t → regs' t' = regs t') : K.Sound t s' regs' where
  zeroed := zeroed
  ebase := ebase.trans sound.ebase
  stack := leaves.2.trans sound.stack
  others t' other := by
    rw [same t' other]
    exact (sound.others t' other).congr fun a mine => leaves.1 t' a other mine

/-- The stack that `SAVE_ALL` picks. -/
theorem entry_stack {s₁ : Core} {pc badvaddr entryhi : BitVec 64} {cause : BitVec 32} (sound : K.Sound t s regs)
    (hardware : s₁ = { s with
      status := s.status ||| 2, cause := cause, epc := pc, badvaddr := badvaddr, entryhi := entryhi }) :
    s₁.entryStack K.kernelsp = if s.status &&& 0x18#32 = 0 then s.gpr sp else K.top t := by
  have ebase : s₁.ebase = K.ebase := by rw [hardware]; exact sound.ebase
  rw [← sound.stack, Core.entryStack, Core.savedSpSlot, ebase, hardware]
  simp only [exception_level_mode]
  rfl

/-- A trap frame may lie there. -/
theorem place_entry {s₁ : Core} {pc badvaddr entryhi : BitVec 64} {cause : BitVec 32} (sound : K.Sound t s regs)
    (stack : s.status &&& 0x18#32 = 0 → K.Place t (s.gpr sp - tfSize))
    (hardware : s₁ = { s with
      status := s.status ||| 2, cause := cause, epc := pc, badvaddr := badvaddr, entryhi := entryhi }) :
    K.Place t (s₁.entryStack K.kernelsp - tfSize) := by
  rw [entry_stack sound hardware]
  split
  · exact stack ‹_›
  · exact K.place_top t

/-- `SAVE_ALL` stores the frame there, and the handler gets it in kernel mode. -/
theorem trap_saved {s₁ s₂ s₃ : Core} {pc badvaddr entryhi : BitVec 64} {cause : BitVec 32} (sound : K.Sound t s regs)
    (stack : s.status &&& 0x18#32 = 0 → K.Place t (s.gpr sp - tfSize))
    (hardware : s₁ = { s with
      status := s.status ||| 2, cause := cause, epc := pc, badvaddr := badvaddr, entryhi := entryhi })
    (save : s₁.run w (saveAll K.kernelsp) = some s₂) (enter : s₂.run w enterHandler = some s₃) :
    s₁.SavedIn s₂ (s₁.entryStack K.kernelsp - tfSize) ∧ s₃.gpr a0 = s₁.entryStack K.kernelsp - tfSize ∧
      s₃.gpr zero = s₂.gpr zero ∧ s₃.status = s₂.status &&& ~~~0x1f#32 ∧ s₃.mem = s₂.mem ∧ s₃.ebase = s₂.ebase := by
  have aligned : Aligned (s₁.entryStack K.kernelsp) := (aligned_sub (by decide)).mp (place_entry sound stack hardware).aligned
  obtain ⟨s₂', save', saved⟩ := Core.saveAll_spec (w := w) aligned K.array
  obtain rfl : s₂' = s₂ := Option.some.inj (save'.symm.trans save)
  obtain ⟨s₃', enter', frame, -, rest⟩ := Core.enterHandler_spec (w := w) (s := s₂')
  obtain rfl : s₃' = s₃ := Option.some.inj (enter'.symm.trans enter)
  exact ⟨saved, frame.trans saved.base, rest⟩

theorem trap_frame {s₁ s₂ s₃ : Core} {pc badvaddr entryhi : BitVec 64} {cause : BitVec 32} (sound : K.Sound t s regs)
    (stack : s.status &&& 0x18#32 = 0 → K.Place t (s.gpr sp - tfSize))
    (hardware : s₁ = { s with
      status := s.status ||| 2, cause := cause, epc := pc, badvaddr := badvaddr, entryhi := entryhi })
    (save : s₁.run w (saveAll K.kernelsp) = some s₂) (enter : s₂.run w enterHandler = some s₃) :
    s₃.gpr a0 = (if s.status &&& 0x18#32 = 0 then s.gpr sp else K.top t) - tfSize := by
  rw [(trap_saved sound stack hardware save enter).2.1, entry_stack sound hardware]

/-- A trap makes a frame of the registers, wherever the mode puts it. -/
theorem trap_holds {s₁ s₂ s₃ : Core} {pc badvaddr entryhi : BitVec 64} {cause : BitVec 32}
    (holds : K.Holds (.running pc) t s regs) (stack : s.status &&& 0x18#32 = 0 → K.Place t (s.gpr sp - tfSize))
    (hardware : s₁ = { s with
      status := s.status ||| 2, cause := cause, epc := pc, badvaddr := badvaddr, entryhi := entryhi })
    (save : s₁.run w (saveAll K.kernelsp) = some s₂) (enter : s₂.run w enterHandler = some s₃) :
    K.Holds (.handling (s₃.gpr a0)) t s₃ regs := by
  obtain ⟨sound, mode, view⟩ := holds
  have place := place_entry sound stack hardware
  obtain ⟨saved, atFrame, zeroed, status, mem, ebase'⟩ := trap_saved sound stack hardware save enter
  rw [atFrame]
  refine ⟨?_, ?_, ?_⟩
  · refine sound.leaves ?_ ?_ ⟨fun t' a other theirs => ?_, ?_⟩ fun _ _ => rfl
    · rw [zeroed, saved.zero, hardware]
      exact sound.zeroed
    · rw [ebase', saved.ebase, hardware]
    · rw [mem, saved.outside a, hardware]
      exact fun mine => K.disjoint t' t a other theirs (place.own a mine)
    · rw [mem, saved.outside, hardware]
      exact fun mine => K.slotFree t (place.own _ mine)
  · rw [status, BitVec.and_assoc, show ~~~0x1f#32 &&& 0x1f#32 = 0#32 by decide, BitVec.and_zero]
    rfl
  · rw [mem]
    refine ⟨place, ?_, ?_⟩
    · rw [saved.frame, ← view, hardware]
      refine Regs.ext (funext fun r => ?_) rfl rfl rfl
      show visible (Core.saved _ _).gpr r = visible s.gpr r
      by_cases hidden : r = zero ∨ r = k0 ∨ r = k1
      · rw [visible, visible, if_pos hidden, if_pos hidden]
      · rw [visible, visible, if_neg hidden, if_neg hidden]
        exact if_neg fun kernel => hidden (.inr kernel)
    · rw [saved.frame]
      show (s₁.status.signExtend 64).setWidth 32 &&& modeMask = _
      rw [Core.setWidth_signExtend, hardware, exception_level, mode]

/-- A trap is taken: nothing goes wrong before the handler is called. -/
theorem trap_taken {pc badvaddr entryhi : BitVec 64} {cause : BitVec 32} (holds : K.Holds (.running pc) t s regs)
    (stack : s.status &&& 0x18#32 = 0 → K.Place t (s.gpr sp - tfSize)) :
    ∃ s₂ s₃, Core.run w (saveAll K.kernelsp) { s with
        status := s.status ||| 2, cause := cause, epc := pc, badvaddr := badvaddr, entryhi := entryhi } = some s₂ ∧
      s₂.run w enterHandler = some s₃ := by
  obtain ⟨s₁, hardware⟩ : ∃ s₁ : Core, s₁ = { s with
      status := s.status ||| 2, cause := cause, epc := pc, badvaddr := badvaddr, entryhi := entryhi } := ⟨_, rfl⟩
  rw [← hardware]
  have aligned := (aligned_sub (by decide)).mp (place_entry holds.1 stack hardware).aligned
  obtain ⟨s₂, save, -⟩ := Core.saveAll_spec (w := w) aligned K.array
  obtain ⟨s₃, enter, -⟩ := Core.enterHandler_spec (w := w) (s := s₂)
  exact ⟨s₂, s₃, save, enter⟩

/-- `switch_context` comes to its end. -/
theorem switch_done {g : Fin 32 → BitVec 64} (holds : K.Holds (.handling b) t s regs) (old : g a0 = K.context t)
    (new : g a1 = K.context t') :
    ∃ s₁, Core.run w (switchContext K.kernelsp K.scratch) { s with gpr := g } = some s₁ ∧
      ({ s with gpr := g } : Core).Switched s₁ K.kernelsp := by
  have apart : ¬ InFrame (g a0) (({ s with gpr := g } : Core).savedSpSlot K.kernelsp) := by
    rw [Core.savedSpSlot, holds.1.ebase, old]
    exact fun mine => K.slotFree t (K.contextOwn t _ mine)
  have oldAligned : Aligned (g a0) := old.symm ▸ K.contextAligned t
  have newAligned : Aligned (g a1) := new.symm ▸ K.contextAligned t'
  exact Core.switchContext_spec oldAligned newAligned K.array apart

/-- `switch_context` suspends the old task in its context, and goes on with the trap frame of the new one. -/
theorem switch_holds {s₁ : Core} {g : Fin 32 → BitVec 64} (holds : K.Holds (.handling b) t s regs) (zeroed : g zero = 0)
    (old : g a0 = K.context t) (new : g a1 = K.context t') (top : g a2 = K.top t') (frame : g sp = b - K.depth)
    (link : g ra = K.back) (run : Core.run w (switchContext K.kernelsp K.scratch) { s with gpr := g } = some s₁) :
    K.Holds (.handling (K.resumed s₁)) t' s₁ regs := by
  obtain ⟨s', run', switched⟩ := switch_done (w := w) holds old new
  obtain rfl : s' = s₁ := Option.some.inj (run'.symm.trans run)
  obtain ⟨sound, kernel, framed⟩ := holds
  have slot : ({ s with gpr := g } : Core).savedSpSlot K.kernelsp = K.slot := by
    rw [Core.savedSpSlot, Kernel.slot, ← sound.ebase]
  have saved : frameAt s'.mem (K.context t) = Core.context { s with gpr := g } := old ▸ switched.saved
  have outside : ∀ a, ¬ InFrame (K.context t) a → a ≠ K.slot → s'.mem a = s.mem a := by
    rw [← old, ← slot]
    exact switched.outside
  have suspended : ∀ u, K.Suspended s'.mem u (regs u) := by
    intro u
    by_cases same : u = t
    · subst same
      refine ⟨⟨b, framed.congr fun a within => outside a (framed.place.apart a within) ?_, .inr ?_⟩, ?_⟩
      · rintro rfl
        exact K.slotFree u (framed.place.own _ within)
      · rw [saved]
        exact ⟨link, frame⟩
      · rw [saved]
        show (s.status.signExtend 64).setWidth 32 &&& 0x1f#32 = 0
        rw [Core.setWidth_signExtend, kernel]
    · refine (sound.others u same).congr fun a mine => outside a (fun theirs => ?_) ?_
      · exact K.disjoint u t a same mine (K.contextOwn t a theirs)
      · rintro rfl
        exact K.slotFree u mine
  obtain ⟨⟨b', framed', way⟩, kernel'⟩ := suspended t'
  have registers : ∀ r, r ≠ zero → s'.gpr r = (frameAt s'.mem (K.context t')).gpr r := new ▸ switched.gpr
  have resumed : K.resumed s' = b' := by
    rw [Kernel.resumed, registers ra (by decide), registers a0 (by decide), registers sp (by decide)]
    rcases way with ⟨fork, atFrame⟩ | ⟨back, below⟩
    · rw [if_pos fork, atFrame]
    · rw [if_neg (back ▸ K.returns), below, BitVec.sub_add_cancel]
  rw [resumed]
  refine ⟨⟨switched.zero.trans zeroed, switched.ebase.trans sound.ebase, ?_, fun u _ => suspended u⟩, ?_, framed'⟩
  · rw [← slot, switched.stack]
    exact top
  · rw [switched.status, show ({ s with gpr := g } : Core).gpr a1 = K.context t' from new, kernel']

/-- `RESTORE_ALL_AND_RET` has the frame in the registers before the last instruction, in the mode of the task. -/
theorem return_restored {g : Fin 32 → BitVec 64} (holds : K.Holds (.handling b) t s regs) (zeroed : g zero = 0) (frame : g sp = b) :
    ∃ s₁, Core.run w restoreAll { s with gpr := g } = some s₁ ∧
      ({ s with gpr := g } : Core).RestoredFrom w s₁ (frameAt s.mem b) ∧ s₁.status &&& modeMask = K.mode t ||| 2 := by
  have framed := holds.2.2
  have aligned : Aligned (g sp) := frame ▸ framed.place.aligned
  obtain ⟨s₁, restore, restored⟩ := Core.restoreAll_spec (w := w) (s := { s with gpr := g }) aligned zeroed
  rw [show ({ s with gpr := g } : Core).gpr sp = b from frame] at restored
  refine ⟨s₁, restore, restored, ?_⟩
  rw [restored.status, merge_and, framed.mode]

/-- The return from a trap comes to its end. -/
theorem return_done {g : Fin 32 → BitVec 64} (holds : K.Holds (.handling b) t s regs) (zeroed : g zero = 0) (frame : g sp = b) :
    ∃ s₁ pc s₂, Core.run w restoreAll { s with gpr := g } = some s₁ ∧ s₁.eret = some (pc, s₂) := by
  obtain ⟨s₁, restore, -, status⟩ := return_restored (w := w) holds zeroed frame
  have level : s₁.status &&& 4 = 0 := by
    have bits : s₁.status &&& 4 = s₁.status &&& modeMask &&& 4 := by
      rw [BitVec.and_assoc, show modeMask &&& 4 = 4#32 by decide]
      rfl
    have free : K.mode t &&& 4 = 0 := by
      have both := congrArg (· &&& 4#32) (K.modes t)
      simpa [BitVec.and_assoc] using both
    rw [bits, status, BitVec.and_or_distrib_right, free]
    decide
  exact ⟨s₁, s₁.epc, _, restore, if_pos level⟩

/-- The processor: what it does, for which task, its state, and the registers that each program is to see. -/
structure Machine (τ : Type*) where
  phase : Phase
  current : τ
  core : Core
  regs : τ → Regs

variable (K) [DecidableEq τ]

/-- What happens on the processor, and who does it: a task by its instructions, by the answer to a system call of its
own and by its return, where `mtc0` makes something of the address; all the rest is nobody's. -/
inductive Step (w : BitVec 64 → BitVec 64) : Option τ → Machine τ → Machine τ → Prop
  | work {t : τ} {s s' : Core} {pc pc' : BitVec 64} {regs : τ → Regs} (zeroed : s'.gpr zero = 0) (ebase : s'.ebase = s.ebase)
      (status : s'.status = s.status) (leaves : K.Leaves t s.mem s'.mem) :
      Step w (some t) ⟨.running pc, t, s, regs⟩ ⟨.running pc', t, s', Function.update regs t (s'.regs pc')⟩
  | trap {t : τ} {s s₁ s₂ s₃ : Core} {pc badvaddr entryhi : BitVec 64} {cause : BitVec 32} {regs : τ → Regs}
      (stack : s.status &&& 0x18#32 = 0 → K.Place t (s.gpr sp - tfSize))
      (hardware : s₁ = { s with
        status := s.status ||| 2, cause := cause, epc := pc, badvaddr := badvaddr, entryhi := entryhi })
      (save : s₁.run w (saveAll K.kernelsp) = some s₂) (enter : s₂.run w enterHandler = some s₃) :
      Step w none ⟨.running pc, t, s, regs⟩ ⟨.handling (s₃.gpr a0), t, s₃, regs⟩
  | serve {t : τ} {s s' : Core} {b : BitVec 64} {regs : τ → Regs} (zeroed : s'.gpr zero = 0) (ebase : s'.ebase = s.ebase)
      (status : s'.status = s.status) (leaves : K.Leaves t s.mem s'.mem)
      (mode : (frameAt s'.mem b).cp0Status = (frameAt s.mem b).cp0Status)
      (kept : frameRegs (frameAt s'.mem b) = frameRegs (frameAt s.mem b)) :
      Step w none ⟨.handling b, t, s, regs⟩ ⟨.handling b, t, s', regs⟩
  | answer {t : τ} {s s' : Core} {b : BitVec 64} {regs : τ → Regs} (zeroed : s'.gpr zero = 0) (ebase : s'.ebase = s.ebase)
      (status : s'.status = s.status) (leaves : K.Leaves t s.mem s'.mem)
      (mode : (frameAt s'.mem b).cp0Status = (frameAt s.mem b).cp0Status) :
      Step w (some t) ⟨.handling b, t, s, regs⟩ ⟨.handling b, t, s', Function.update regs t (frameRegs (frameAt s'.mem b))⟩
  | switch {t t' : τ} {s s₁ : Core} {g : Fin 32 → BitVec 64} {b : BitVec 64} {regs : τ → Regs} (zeroed : g zero = 0)
      (old : g a0 = K.context t) (new : g a1 = K.context t') (top : g a2 = K.top t') (frame : g sp = b - K.depth) (link : g ra = K.back)
      (run : Core.run w (switchContext K.kernelsp K.scratch) { s with gpr := g } = some s₁) :
      Step w none ⟨.handling b, t, s, regs⟩ ⟨.handling (K.resumed s₁), t', s₁, regs⟩
  | return {t : τ} {s s₁ s₂ : Core} {g : Fin 32 → BitVec 64} {b pc : BitVec 64} {regs : τ → Regs} (zeroed : g zero = 0)
      (frame : g sp = b) (restore : Core.run w restoreAll { s with gpr := g } = some s₁) (eret : s₁.eret = some (pc, s₂)) :
      Step w (some t) ⟨.handling b, t, s, regs⟩ ⟨.running pc, t, s₂, Function.update regs t { regs t with pc := w (regs t).pc }⟩

/-- The states of the processor that its steps lead to. -/
inductive Run (w : BitVec 64 → BitVec 64) : Phase → τ → Core → (τ → Regs) → Prop
  | boot {t : τ} {s : Core} {pc : BitVec 64} {regs : τ → Regs} (zeroed : s.gpr zero = 0) (ebase : s.ebase = K.ebase)
      (stack : s.mem K.slot = K.top t) (mode : s.status &&& modeMask = K.mode t) (view : s.regs pc = regs t)
      (others : ∀ t', t' ≠ t → K.Suspended s.mem t' (regs t')) : Run w (.running pc) t s regs
  | step {M : Machine τ} {who : Option τ} {phase : Phase} {t : τ} {s : Core} {regs : τ → Regs}
      (before : Run w M.phase M.current M.core M.regs) (next : K.Step w who M ⟨phase, t, s, regs⟩) : Run w phase t s regs

/-- The time in which `t` itself does nothing, while the kernel and the other tasks work. -/
inductive Away (w : BitVec 64 → BitVec 64) (t : τ) (M : Machine τ) : Machine τ → Prop
  | here : Away w t M M
  | next {who : Option τ} {M₁ M₂ : Machine τ} (before : Away w t M M₁) (step : K.Step w who M₁ M₂) (other : who ≠ some t) :
      Away w t M M₂

variable {K}

/-- The return from a trap gives the registers back, in the mode of the task. -/
theorem return_holds {s₁ s₂ : Core} {g : Fin 32 → BitVec 64} {pc : BitVec 64} (holds : K.Holds (.handling b) t s regs)
    (zeroed : g zero = 0) (frame : g sp = b) (restore : Core.run w restoreAll { s with gpr := g } = some s₁)
    (eret : s₁.eret = some (pc, s₂)) :
    K.Holds (.running pc) t s₂ (Function.update regs t { regs t with pc := w (regs t).pc }) := by
  obtain ⟨s', restore', restored, status⟩ := return_restored (w := w) holds zeroed frame
  obtain rfl : s' = s₁ := Option.some.inj (restore'.symm.trans restore)
  obtain ⟨sound, -, framed⟩ := holds
  rw [Core.eret] at eret
  split at eret
  · obtain ⟨rfl, rfl⟩ := Prod.mk.inj (Option.some.inj eret)
    refine ⟨sound.leaves (restored.zero.trans zeroed) restored.ebase ⟨fun _ a _ _ => ?_, ?_⟩ fun t' other => ?_, ?_, ?_⟩
    · exact congrFun restored.mem a
    · exact congrFun restored.mem K.slot
    · exact Function.update_of_ne other _ _
    · show s'.status &&& ~~~2 &&& modeMask = _
      rw [BitVec.and_assoc, BitVec.and_comm (~~~2), ← BitVec.and_assoc, status, leave_level (K.modes t)]
    · rw [Function.update_self, ← framed.regs]
      refine Regs.ext (funext fun r => ?_) restored.lo restored.hi restored.epc
      show visible s'.gpr r = visible (frameAt s.mem b).gpr r
      by_cases hidden : r = zero ∨ r = k0 ∨ r = k1
      · rw [visible, visible, if_pos hidden, if_pos hidden]
      · obtain ⟨notZero, kernel⟩ := not_or.mp hidden
        obtain ⟨notK0, notK1⟩ := not_or.mp kernel
        rw [visible, visible, if_neg hidden, if_neg hidden, restored.gpr r notZero notK0 notK1]
  · cases eret

/-- A switch to a task and the return from its trap: nothing goes wrong, and the task has its registers. -/
theorem switch_return {g : Fin 32 → BitVec 64} (holds : K.Holds (.handling b) t s regs) (zeroed : g zero = 0)
    (old : g a0 = K.context t) (new : g a1 = K.context t') (top : g a2 = K.top t') (frame : g sp = b - K.depth) (link : g ra = K.back) :
    ∃ s₁, Core.run w (switchContext K.kernelsp K.scratch) { s with gpr := g } = some s₁ ∧
      ∀ g' : Fin 32 → BitVec 64, g' zero = 0 → g' sp = K.resumed s₁ →
        ∃ s₂ pc s₃, Core.run w restoreAll { s₁ with gpr := g' } = some s₂ ∧ s₂.eret = some (pc, s₃) ∧
          s₃.regs pc = { regs t' with pc := w (regs t').pc } ∧ s₃.status &&& modeMask = K.mode t' := by
  obtain ⟨s₁, run, -⟩ := switch_done (w := w) holds old new
  have resumed := switch_holds holds zeroed old new top frame link run
  refine ⟨s₁, run, fun g' zeroed' frame' => ?_⟩
  obtain ⟨s₂, pc, s₃, restore, eret⟩ := return_done (w := w) resumed zeroed' frame'
  obtain ⟨-, mode, view⟩ := return_holds resumed zeroed' frame' restore eret
  rw [Function.update_self] at view
  exact ⟨s₂, pc, s₃, restore, eret, view, mode⟩

/-- A task by whom a step is not made keeps its registers. -/
theorem Step.regs_other {who : Option τ} {M M' : Machine τ} (step : K.Step w who M M') (other : who ≠ some t) :
    M'.regs t = M.regs t := by
  cases step with
  | trap stack hardware save enter => rfl
  | serve zeroed ebase status leaves mode kept => rfl
  | switch zeroed old new top frame link run => rfl
  | work zeroed ebase status leaves => exact Function.update_of_ne (fun same => other (congrArg some same.symm)) _ _
  | answer zeroed ebase status leaves mode => exact Function.update_of_ne (fun same => other (congrArg some same.symm)) _ _
  | «return» zeroed frame restore eret => exact Function.update_of_ne (fun same => other (congrArg some same.symm)) _ _

/-- Instructions of the program change its own registers. -/
theorem work_holds {s' : Core} {pc pc' : BitVec 64} (holds : K.Holds (.running pc) t s regs) (zeroed : s'.gpr zero = 0)
    (ebase : s'.ebase = s.ebase) (status : s'.status = s.status) (leaves : K.Leaves t s.mem s'.mem) :
    K.Holds (.running pc') t s' (Function.update regs t (s'.regs pc')) := by
  obtain ⟨sound, mode, -⟩ := holds
  refine ⟨sound.leaves zeroed ebase leaves fun t' other => Function.update_of_ne other _ _, ?_, ?_⟩
  · rw [status, mode]
  · rw [Function.update_self]

/-- A handler leaves registers in the frame, and the mode as it was. -/
theorem answer_holds {s' : Core} (holds : K.Holds (.handling b) t s regs) (zeroed : s'.gpr zero = 0) (ebase : s'.ebase = s.ebase)
    (status : s'.status = s.status) (leaves : K.Leaves t s.mem s'.mem)
    (mode : (frameAt s'.mem b).cp0Status = (frameAt s.mem b).cp0Status) :
    K.Holds (.handling b) t s' (Function.update regs t (frameRegs (frameAt s'.mem b))) := by
  obtain ⟨sound, kernel, framed⟩ := holds
  refine ⟨sound.leaves zeroed ebase leaves fun t' other => Function.update_of_ne other _ _, ?_, framed.place, ?_, ?_⟩
  · rw [status, kernel]
  · rw [Function.update_self]
  · rw [mode, framed.mode]

/-- A handler that keeps the registers of the frame changes nobody's. -/
theorem serve_holds {s' : Core} (holds : K.Holds (.handling b) t s regs) (zeroed : s'.gpr zero = 0) (ebase : s'.ebase = s.ebase)
    (status : s'.status = s.status) (leaves : K.Leaves t s.mem s'.mem)
    (mode : (frameAt s'.mem b).cp0Status = (frameAt s.mem b).cp0Status)
    (kept : frameRegs (frameAt s'.mem b) = frameRegs (frameAt s.mem b)) : K.Holds (.handling b) t s' regs := by
  have same : Function.update regs t (frameRegs (frameAt s'.mem b)) = regs := by
    rw [kept, holds.2.2.regs, Function.update_eq_self]
  exact same ▸ answer_holds holds zeroed ebase status leaves mode

/-- Each step keeps the invariant. -/
theorem Step.holds {who : Option τ} {M M' : Machine τ} (step : K.Step w who M M')
    (holds : K.Holds M.phase M.current M.core M.regs) : K.Holds M'.phase M'.current M'.core M'.regs := by
  cases step with
  | work zeroed ebase status leaves => exact work_holds holds zeroed ebase status leaves
  | trap stack hardware save enter => exact trap_holds holds stack hardware save enter
  | serve zeroed ebase status leaves mode kept => exact serve_holds holds zeroed ebase status leaves mode kept
  | answer zeroed ebase status leaves mode => exact answer_holds holds zeroed ebase status leaves mode
  | switch zeroed old new top frame link run => exact switch_holds holds zeroed old new top frame link run
  | «return» zeroed frame restore eret => exact return_holds holds zeroed frame restore eret

/-- The invariant holds in every run. -/
theorem Run.holds (run : K.Run w phase t s regs) : K.Holds phase t s regs := by
  induction run with
  | boot zeroed ebase stack mode view others => exact ⟨⟨zeroed, ebase, stack, others⟩, mode, view⟩
  | step before next ih => exact next.holds ih

theorem Away.holds {M M' : Machine τ} (away : K.Away w t M M') (holds : K.Holds M.phase M.current M.core M.regs) :
    K.Holds M'.phase M'.current M'.core M'.regs := by
  induction away with
  | here => exact holds
  | next before step other ih => exact step.holds ih

theorem Away.registers {M M' : Machine τ} (away : K.Away w t M M') : M'.regs t = M.regs t := by
  induction away with
  | here => rfl
  | next before step other ih => exact (step.regs_other other).trans ih

theorem Away.run {M M' : Machine τ} (away : K.Away w t M M') (before : K.Run w M.phase M.current M.core M.regs) :
    K.Run w M'.phase M'.current M'.core M'.regs := by
  induction away with
  | here => exact before
  | next _ step other ih => exact ih.step step

variable (K) in
/-- What `sched` has in the registers when it calls `switch_context`. -/
def schedRegs (t t' : τ) (b : BitVec 64) : Fin 32 → BitVec 64 := fun r =>
  if r = a0 then K.context t
  else if r = a1 then K.context t'
  else if r = a2 then K.top t'
  else if r = sp then b - K.depth
  else if r = ra then K.back
  else 0

/-- No step of the kernel gets stuck: a trap, a switch to any task, a return. -/
theorem Run.traps {pc : BitVec 64} (run : K.Run w (.running pc) t s regs)
    (stack : s.status &&& 0x18#32 = 0 → K.Place t (s.gpr sp - tfSize)) :
    ∃ b s', K.Step w none ⟨.running pc, t, s, regs⟩ ⟨.handling b, t, s', regs⟩ := by
  obtain ⟨s₂, s₃, save, enter⟩ := @trap_taken τ K w t s regs pc 0 0 0 run.holds stack
  exact ⟨_, s₃, .trap stack rfl save enter⟩

theorem Run.switches (run : K.Run w (.handling b) t s regs) (t' : τ) :
    ∃ b' s', K.Step w none ⟨.handling b, t, s, regs⟩ ⟨.handling b', t', s', regs⟩ := by
  have new : K.schedRegs t t' b a1 = K.context t' := rfl
  obtain ⟨s', done, -⟩ := switch_done (w := w) run.holds rfl new
  exact ⟨_, s', .switch rfl rfl new rfl rfl rfl done⟩

theorem Run.returns (run : K.Run w (.handling b) t s regs) :
    ∃ pc s' regs', K.Step w (some t) ⟨.handling b, t, s, regs⟩ ⟨.running pc, t, s', regs'⟩ := by
  obtain ⟨s₁, pc, s₂, restore, eret⟩ := @return_done τ K w t s b regs (fun r => if r = sp then b else 0) run.holds rfl rfl
  exact ⟨pc, s₂, _, .return rfl rfl restore eret⟩

end Kernel

end Xv6.Asm
