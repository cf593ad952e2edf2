import Xv6.TrapRuns
import Xv6.TaskStart
import Mathlib.Data.BitVec

namespace Xv6.Asm

/-- `KSU_USER` and `ST_IE` -/
def userMode : BitVec 32 := 0x11

/-- `ST_CU0` and `ST_IE` -/
def idleMode : BitVec 32 := 0x10000001

/-- Where `init_thread_info` has the context of the idle task. -/
def idleContext (initThreadUnion : BitVec 64) : BitVec 64 := initThreadUnion + 16

/-- The stacks of the tasks: `init_thread_union` is that of the idle task, and the others are of `kmalloc`. -/
structure Stacks (ι : Type*) where
  kernelsp : BitVec 64
  ebase : BitVec 32
  scratch : BitVec 64
  forkret : BitVec 64
  back : BitVec 64
  depth : BitVec 64
  stack : Option ι → BitVec 64
  array : Aligned kernelsp
  aligned : ∀ t, Aligned (stack t)
  apart : ∀ t t' a, t ≠ t' → (a - stack t).toNat < 8192 → 8192 ≤ (a - stack t').toNat
  slotFree : ∀ t, 8192 ≤ (kernelsp + (ebase.signExtend 64 &&& 0x3ff#64) <<< 3 - stack t).toNat
  returns : back ≠ forkret

namespace Stacks

variable {ι : Type*} (S : Stacks ι)

def context : Option ι → BitVec 64
  | none => idleContext (S.stack none)
  | some i => taskSetupKstack (S.stack (some i))

theorem context_within {a : BitVec 64} (t : Option ι) (inContext : InFrame (S.context t) a) : (a - S.stack t).toNat < 8192 := by
  rw [inFrame_iff] at inContext
  cases t with
  | none =>
    have distance : a - S.context none = a - S.stack none - 16 := sub_add_eq_sub_sub ..
    rw [distance] at inContext
    bv_omega
  | some i =>
    have distance : a - S.context (some i) = a - S.stack (some i) - 7880 := by
      rw [context, taskSetupKstack, kstackSize, tfSize, add_sub_assoc, sub_add_eq_sub_sub]
      rfl
    rw [distance] at inContext
    bv_omega

theorem frame_within {a : BitVec 64} (t : Option ι) (inFrame : InFrame (kstacktop (S.stack t) - tfSize) a) :
    (a - S.stack t).toNat < 8192 := by
  have distance : a - (kstacktop (S.stack t) - tfSize) = a - S.stack t - 7568 := by
    rw [kstacktop, kstackSize, tfSize, add_sub_assoc, add_sub_assoc, sub_add_eq_sub_sub]
    rfl
  rw [inFrame_iff, distance] at inFrame
  bv_omega

theorem frame_apart {a : BitVec 64} (t : Option ι) (inFrame : InFrame (kstacktop (S.stack t) - tfSize) a) :
    ¬ InFrame (S.context t) a := by
  cases t with
  | none =>
    rw [inFrame_iff, kstacktop, kstackSize, tfSize, add_sub_assoc, add_sub_assoc, sub_add_eq_sub_sub] at inFrame
    rw [inFrame_iff, context, idleContext, sub_add_eq_sub_sub]
    intro inContext
    bv_omega
  | some i => exact frame_below_context inFrame

/-- The kernel with these stacks. -/
def kernel : Kernel (Option ι) where
  kernelsp := S.kernelsp
  ebase := S.ebase
  scratch := S.scratch
  forkret := S.forkret
  back := S.back
  depth := S.depth
  context := S.context
  top t := kstacktop (S.stack t)
  own t := {a | (a - S.stack t).toNat < 8192}
  mode
    | none => idleMode
    | some _ => userMode
  array := S.array
  contextAligned
    | none => (aligned_add (by decide)).mpr (S.aligned none)
    | some i => (aligned_sub (by decide)).mpr ((aligned_add (by decide)).mpr (S.aligned (some i)))
  topAligned t := (aligned_sub (by decide)).mpr ((aligned_add (by decide)).mpr (S.aligned t))
  contextOwn t _ inContext := S.context_within t inContext
  frameOwn t _ inFrame := S.frame_within t inFrame
  frameApart t _ inFrame := S.frame_apart t inFrame
  disjoint t t' a other mine theirs := Nat.not_lt.mpr (S.apart t t' a other mine) theirs
  slotFree t := Nat.not_lt.mpr (S.slotFree t)
  returns := S.returns
  modes
    | none => show idleMode &&& 6 = 0 by decide
    | some _ => show userMode &&& 6 = 0 by decide

end Stacks

/-- What a task is started with. -/
structure Start where
  before : BitVec 64 → BitVec 64
  status : BitVec 32
  cause : BitVec 32
  startsp : BitVec 64
  argc : BitVec 32
  argv : BitVec 64
  entry : BitVec 64
  level : status &&& 0x1f#32 = 0

/-- The registers that a program starts with. -/
def startRegs (initThreadUnion startsp : BitVec 64) (argc : BitVec 32) (argv entry : BitVec 64) : Regs where
  gpr r := if r = sp then startsp else if r = a0 then argc.signExtend 64 else if r = a1 then argv
    else if r = gp then initThreadUnion else 0
  lo := 0
  hi := 0
  pc := entry

/-- Whatever Status was, the frame asks for the user's mode. -/
theorem userStatus (x : BitVec 64) :
    ((x &&& ~~~0x10000000 &&& ~~~0x1f ||| (0x10 ||| 2 ||| 0x00800000 ||| 0x20)) ||| 1).setWidth 32 &&& modeMask =
      userMode ||| 2 := by
  simp only [BitVec.setWidth_or, BitVec.setWidth_and, BitVec.and_or_distrib_right, BitVec.and_assoc]
  simp [modeMask, userMode]

namespace Stacks

variable {ι : Type*} {S : Stacks ι} {m : BitVec 64 → BitVec 64} {startsp argv entry : BitVec 64} {status cause argc : BitVec 32}

/-- A task that `task_early_init` and `initproc_init` made waits for its first turn. -/
theorem new_suspended (i : ι) (level : status &&& 0x1f#32 = 0) :
    S.kernel.Suspended (initprocFrame (taskEarlyInit m (S.stack (some i)) status cause (S.stack none) S.forkret)
      (S.stack (some i)) startsp argc argv entry) (some i) (startRegs (S.stack none) startsp argc argv entry) := by
  have context := @initprocFrame_context m (S.stack (some i)) (S.stack none) S.forkret startsp argv entry status cause argc
  have frame := @initprocFrame_frame m (S.stack (some i)) (S.stack none) S.forkret startsp argv entry status cause argc
  refine ⟨⟨taskSetupKstack (S.stack (some i)) - tfSize, ⟨S.kernel.place_top (some i), ?_, ?_⟩, .inl ⟨?_, ?_⟩⟩, ?_⟩
  · rw [frame]
    refine Regs.ext (funext fun r => ?_) rfl rfl rfl
    fin_cases r <;> rfl
  · rw [frame]
    exact userStatus (status.signExtend 64)
  · exact (congrArg (fun tf : Trapframe => tf.gpr ra) context).trans rfl
  · exact (congrArg (fun tf : Trapframe => tf.gpr a0) context).trans rfl
  · refine (congrArg (fun tf : Trapframe => tf.cp0Status.setWidth 32 &&& 0x1f#32) context).trans ?_
    show (status.signExtend 64).setWidth 32 &&& 0x1f#32 = 0
    rw [Core.setWidth_signExtend, level]

/-- The state behind `task_init`: the idle task runs, and the others are made. -/
structure Booted (S : Stacks ι) (start : ι → Start) (s : Core) : Prop where
  zeroed : s.gpr zero = 0
  ebase : s.ebase = S.ebase
  stack : s.mem S.kernel.slot = kstacktop (S.stack none)
  mode : s.status &&& modeMask = idleMode
  made : ∀ i a, (a - S.stack (some i)).toNat < 8192 →
    s.mem a = initprocFrame (taskEarlyInit (start i).before (S.stack (some i)) (start i).status (start i).cause (S.stack none)
      S.forkret) (S.stack (some i)) (start i).startsp (start i).argc (start i).argv (start i).entry a

/-- The registers that the programs see then. -/
def startView (S : Stacks ι) (start : ι → Start) (s : Core) (pc : BitVec 64) : Option ι → Regs
  | none => s.regs pc
  | some i => startRegs (S.stack none) (start i).startsp (start i).argc (start i).argv (start i).entry

variable {start : ι → Start} {s : Core} {pc : BitVec 64} {w : BitVec 64 → BitVec 64}

theorem Booted.suspended (booted : S.Booted start s) (i : ι) : S.kernel.Suspended s.mem (some i) (S.startView start s pc (some i)) :=
  (new_suspended i (start i).level).congr fun a mine => booted.made i a mine

theorem Booted.run [DecidableEq ι] (booted : S.Booted start s) : S.kernel.Run w (.running pc) none s (S.startView start s pc) := by
  refine .boot booted.zeroed booted.ebase booted.stack booted.mode rfl fun t other => ?_
  obtain ⟨i, rfl⟩ := Option.ne_none_iff_exists'.mp other
  exact booted.suspended i

end Stacks

section Sample

/-- The stacks of a machine with one program. -/
def initStacks : Stacks Unit where
  kernelsp := 0xffffffff80200000
  ebase := 0x80000000
  scratch := 0xffffffff80200000
  forkret := 0xffffffff80210000
  back := 0xffffffff80211000
  depth := 128
  stack
    | none => 0xffffffff80300000
    | some _ => 0xffffffff81000000
  array := by decide
  aligned
    | none => by decide
    | some () => by decide
  apart
    | none, none, _, other => absurd rfl other
    | some _, some _, _, other => absurd rfl other
    | none, some _, a, _ => by
      intro mine
      bv_omega
    | some _, none, a, _ => by
      intro mine
      bv_omega
  slotFree
    | none => by decide
    | some () => by decide
  returns := by decide

/-- The program is started with three arguments. -/
def initStart : Start where
  before _ := 0
  status := 0x1000ff00
  cause := 0
  startsp := 0x4000
  argc := 3
  argv := 0x4000
  entry := 0x1000
  level := by decide

/-- The processor is in the idle loop. -/
def idleCore : Core where
  gpr r := if r = sp then 0xffffffff80301c00 else 0
  lo := 0
  hi := 0
  status := 0x1000ff01
  cause := 0
  badvaddr := 0
  epc := 0
  entryhi := 0
  ebase := 0x80000000
  mem a := if a = initStacks.kernel.slot then kstacktop (initStacks.stack none)
    else initprocFrame (taskEarlyInit initStart.before (initStacks.stack (some ())) initStart.status initStart.cause
      (initStacks.stack none) initStacks.forkret) (initStacks.stack (some ())) initStart.startsp initStart.argc initStart.argv
      initStart.entry a

theorem idleCore_booted : initStacks.Booted (fun _ => initStart) idleCore where
  zeroed := rfl
  ebase := rfl
  stack := by
    simp only [idleCore, if_true]
  mode := by decide
  made i a mine := by
    refine if_neg fun atSlot => ?_
    rw [atSlot] at mine
    exact absurd mine (Nat.not_lt.mpr (initStacks.slotFree (some i)))

theorem idleCore_place : initStacks.kernel.Place none (idleCore.gpr sp - tfSize) where
  aligned := by decide
  own a inside := by
    rw [inFrame_iff] at inside
    show (a - 0xffffffff80300000#64).toNat < 8192
    have base : idleCore.gpr sp - tfSize = 0xffffffff80301ac8#64 := by decide
    rw [base] at inside
    bv_omega
  apart a inside := by
    have base : idleCore.gpr sp - tfSize = 0xffffffff80301ac8#64 := by decide
    have context : initStacks.kernel.context none = 0xffffffff80300010#64 := by decide
    rw [inFrame_iff, base] at inside
    rw [inFrame_iff, context]
    intro both
    bv_omega

/-- The idle task runs, and `init` is made. -/
def idleMachine : Kernel.Machine (Option Unit) :=
  ⟨.running 0, none, idleCore, initStacks.startView (fun _ => initStart) idleCore 0⟩

theorem idleMachine_run : initStacks.kernel.Run id (.running 0) none idleCore idleMachine.regs := idleCore_booted.run

/-- The first tick ends the turn of the idle task. -/
theorem idleMachine_traps : ∃ b s, initStacks.kernel.Step id none idleMachine ⟨.handling b, none, s, idleMachine.regs⟩ :=
  idleMachine_run.traps fun _ => idleCore_place

theorem init_user {pc : BitVec 64} {s : Core} {regs : Option Unit → Regs}
    (run : initStacks.kernel.Run id (.running pc) (some ()) s regs) : s.status &&& 0x18#32 ≠ 0 := by
  have mode : s.status &&& modeMask = userMode := run.holds.2.1
  have bits : s.status &&& 0x18#32 = s.status &&& modeMask &&& 0x18#32 := by
    rw [BitVec.and_assoc, show modeMask &&& 0x18#32 = 0x18#32 by decide]
  rw [bits, mode]
  decide

/-- `init` gets its first turn. -/
theorem init_runs : ∃ pc s regs, initStacks.kernel.Away id none idleMachine ⟨.running pc, some (), s, regs⟩ := by
  obtain ⟨b, s, trap⟩ := idleMachine_traps
  have trapped : initStacks.kernel.Run id _ _ _ _ := .step idleMachine_run trap
  obtain ⟨b', s', switch⟩ := trapped.switches (some ())
  have switched := trapped.step switch
  obtain ⟨pc, s'', regs, back⟩ := switched.returns
  have away : initStacks.kernel.Away id none idleMachine _ := .next (.next .here trap (by decide)) switch (by decide)
  exact ⟨pc, s'', regs, away.next back (by decide)⟩

end Sample

namespace Kernel

variable {τ : Type*} [DecidableEq τ] {K : Kernel τ} {w : BitVec 64 → BitVec 64} {t t' : τ} {s : Core} {regs : τ → Regs}
variable {pc b badvaddr entryhi : BitVec 64} {cause : BitVec 32} {phase : Phase}

/-- A program that comes back finds the registers that it left, whatever the traps, the handlers, the switches and the other
programs in between did. -/
theorem Run.own_registers {s' s'' : Core} {regs' regs'' : τ → Regs} {pc' : BitVec 64} (run : K.Run w (.running pc) t s regs)
    (away : K.Away w t ⟨.running pc, t, s, regs⟩ ⟨.handling b, t, s', regs'⟩)
    (back : K.Step w (some t) ⟨.handling b, t, s', regs'⟩ ⟨.running pc', t, s'', regs''⟩) :
    s''.regs pc' = { s.regs pc with pc := w pc } := by
  have left : s.regs pc = regs t := run.holds.2.2
  have same : regs' t = regs t := away.registers
  cases back with
  | «return» zeroed frame restore eret =>
    have found : s''.regs pc' = Function.update regs' t { regs' t with pc := w (regs' t).pc } t :=
      (return_holds (away.holds run.holds) zeroed frame restore eret).2.2
    rw [found, Function.update_self, same, ← left]
    rfl

/-- The idle task comes back after a turn of `init`, which has 7 in all of its registers. -/
theorem Run.own_registers_idle : ∃ pc s regs b s' regs' pc' s'' regs'',
    initStacks.kernel.Away id none idleMachine ⟨.running pc, some (), s, regs⟩ ∧ s.gpr a0 = 7 ∧
    initStacks.kernel.Away id none ⟨.running pc, some (), s, regs⟩ ⟨.handling b, none, s', regs'⟩ ∧
    initStacks.kernel.Step id (some none) ⟨.handling b, none, s', regs'⟩ ⟨.running pc', none, s'', regs''⟩ ∧
    s''.regs pc' = idleCore.regs 0 := by
  obtain ⟨pc, s, regs, away⟩ := init_runs
  have runs : initStacks.kernel.Run id _ _ _ _ := away.run idleMachine_run
  -- `init` works in all of its registers
  obtain ⟨s₁, sevens⟩ : ∃ s₁ : Core, s₁ = { s with gpr := fun r => if r = zero then 0 else 7 } := ⟨_, rfl⟩
  have work : initStacks.kernel.Step id (some (some ())) ⟨.running pc, some (), s, regs⟩
      ⟨.running 0x1008, some (), s₁, Function.update regs (some ()) (s₁.regs 0x1008)⟩ :=
    .work (by rw [sevens]; rfl) (by rw [sevens]) (by rw [sevens]) (by rw [sevens]; exact ⟨fun _ _ _ _ => rfl, rfl⟩)
  have worked := runs.step work
  obtain ⟨b, s₂, trap⟩ := worked.traps fun kernel => absurd kernel (init_user worked)
  have trapped := worked.step trap
  obtain ⟨b', s₃, switch⟩ := trapped.switches none
  have switched := trapped.step switch
  obtain ⟨pc', s₄, regs₄, back⟩ := switched.returns
  have before := away.next work (by decide)
  have after : initStacks.kernel.Away id none ⟨.running 0x1008, some (), s₁, _⟩ ⟨.handling b', none, s₃, _⟩ :=
    .next (.next .here trap (by decide)) switch (by decide)
  have whole : initStacks.kernel.Away id none idleMachine ⟨.handling b', none, s₃, _⟩ :=
    .next (.next before trap (by decide)) switch (by decide)
  exact ⟨_, s₁, _, b', s₃, _, pc', s₄, regs₄, before, by rw [sevens]; rfl, after, back, idleMachine_run.own_registers whole back⟩

/-- A program never runs in another mode than its own, and a handler never with interrupts or in user mode; from there
only the mode of the task comes back. -/
theorem Run.privilege (run : K.Run w phase t s regs) :
    match phase with
    | .running _ => s.status &&& modeMask = K.mode t
    | .handling b => s.status &&& 0x1f#32 = 0 ∧ (frameAt s.mem b).cp0Status.setWidth 32 &&& modeMask = K.mode t ||| 2 := by
  have holds := run.holds
  cases phase with
  | running => exact holds.2.1
  | handling => exact ⟨holds.2.1, holds.2.2.mode⟩

theorem Run.privilege_init : ∃ pc s regs, initStacks.kernel.Away id none idleMachine ⟨.running pc, some (), s, regs⟩ ∧
    s.status &&& modeMask = userMode := by
  obtain ⟨pc, s, regs, away⟩ := init_runs
  have run : initStacks.kernel.Run id (.running pc) (some ()) s regs := away.run idleMachine_run
  exact ⟨pc, s, regs, away, run.privilege⟩

/-- A trap is taken without a fault wherever a program is, on the stack of the task when it comes from user mode and below
`sp` when it comes from the kernel, and its handler finds the registers in the frame it gets. -/
theorem Run.takes_trap (run : K.Run w (.running pc) t s regs) (stack : s.status &&& 0x18#32 = 0 → K.Place t (s.gpr sp - tfSize)) :
    ∃ s₂ s₃, Core.run w (saveAll K.kernelsp) { s with
        status := s.status ||| 2, cause := cause, epc := pc, badvaddr := badvaddr, entryhi := entryhi } = some s₂ ∧
      s₂.run w enterHandler = some s₃ ∧
      s₃.gpr a0 = (if s.status &&& 0x18#32 = 0 then s.gpr sp else K.top t) - tfSize ∧
      frameRegs (frameAt s₃.mem (s₃.gpr a0)) = regs t ∧ s₃.status &&& 0x1f#32 = 0 := by
  obtain ⟨s₂, s₃, save, enter⟩ := trap_taken (w := w) run.holds stack
  obtain ⟨-, kernel, framed⟩ := trap_holds run.holds stack rfl save enter
  exact ⟨s₂, s₃, save, enter, trap_frame run.holds.1 stack rfl save enter, framed.regs, kernel⟩

/-- The tick that ends the first turn of `init` finds it in user mode. -/
theorem Run.takes_trap_init : ∃ pc s regs s₂ s₃, initStacks.kernel.Away id none idleMachine ⟨.running pc, some (), s, regs⟩ ∧
    Core.run id (saveAll initStacks.kernel.kernelsp) { s with
      status := s.status ||| 2, cause := 0x8000, epc := pc, badvaddr := 0, entryhi := 0 } = some s₂ ∧
    s₂.run id enterHandler = some s₃ ∧ s₃.gpr a0 = initStacks.kernel.top (some ()) - tfSize ∧
    frameRegs (frameAt s₃.mem (s₃.gpr a0)) = regs (some ()) ∧ s₃.status &&& 0x1f#32 = 0 := by
  obtain ⟨pc, s, regs, away⟩ := init_runs
  have run : initStacks.kernel.Run id (.running pc) (some ()) s regs := away.run idleMachine_run
  have user := init_user run
  obtain ⟨s₂, s₃, save, enter, frame, rest⟩ := run.takes_trap fun kernel => absurd kernel user
  rw [if_neg user] at frame
  exact ⟨pc, s, regs, s₂, s₃, away, save, enter, frame, rest⟩

/-- Whatever ran before, a handler that calls `switch_context` as `sched` does and then returns from the frame of the task
it switched to, gives that task its registers back in its mode, without a fault. -/
theorem Run.resumes {g : Fin 32 → BitVec 64} (run : K.Run w (.handling b) t s regs) (zeroed : g zero = 0) (old : g a0 = K.context t)
    (new : g a1 = K.context t') (top : g a2 = K.top t') (frame : g sp = b - K.depth) (link : g ra = K.back) :
    ∃ s₁, Core.run w (switchContext K.kernelsp K.scratch) { s with gpr := g } = some s₁ ∧
      ∀ g' : Fin 32 → BitVec 64, g' zero = 0 → g' sp = K.resumed s₁ →
        ∃ s₂ pc s₃, Core.run w restoreAll { s₁ with gpr := g' } = some s₂ ∧ s₂.eret = some (pc, s₃) ∧
          s₃.regs pc = { regs t' with pc := w (regs t').pc } ∧ s₃.status &&& modeMask = K.mode t' :=
  switch_return run.holds zeroed old new top frame link

theorem Run.resumes_init : ∃ (b : BitVec 64) (s s₁ : Core), initStacks.kernel.Step id none idleMachine
      ⟨.handling b, none, s, idleMachine.regs⟩ ∧
    Core.run id (switchContext initStacks.kernel.kernelsp initStacks.kernel.scratch)
      { s with gpr := initStacks.kernel.schedRegs none (some ()) b } = some s₁ ∧
    ∀ g' : Fin 32 → BitVec 64, g' zero = 0 → g' sp = initStacks.kernel.resumed s₁ →
      ∃ s₂ pc s₃, Core.run id restoreAll { s₁ with gpr := g' } = some s₂ ∧ s₂.eret = some (pc, s₃) ∧
        s₃.regs pc = startRegs 0xffffffff80300000 0x4000 3 0x4000 0x1000 ∧ s₃.status &&& modeMask = userMode := by
  obtain ⟨b, s, trap⟩ := idleMachine_traps
  have run : initStacks.kernel.Run id (.handling b) none s idleMachine.regs := .step idleMachine_run trap
  have new : initStacks.kernel.schedRegs none (some ()) b a1 = initStacks.kernel.context (some ()) := rfl
  obtain ⟨s₁, done⟩ := run.resumes (g := initStacks.kernel.schedRegs none (some ()) b) rfl rfl new rfl rfl rfl
  exact ⟨b, s, s₁, trap, done⟩

end Kernel

end Xv6.Asm
