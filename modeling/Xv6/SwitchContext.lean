import Xv6.StackFrame

namespace Xv6.Asm

open Insn

/-- The registers that `switch_context` saves in the old context, in its order. -/
def saveGprs : List Insn :=
  [ sd zero 0x000 a0,
    sd AT 0x008 a0,
    sd v0 0x010 a0,
    sd v1 0x018 a0,
    sd a0 0x020 a0,
    sd a1 0x028 a0,
    sd a2 0x030 a0,
    sd a3 0x038 a0,
    sd t0 0x040 a0,
    sd t1 0x048 a0,
    sd t2 0x050 a0,
    sd t3 0x058 a0,
    sd t4 0x060 a0,
    sd t5 0x068 a0,
    sd t6 0x070 a0,
    sd t7 0x078 a0,
    sd t8 0x0c0 a0,
    sd t9 0x0c8 a0,
    sd s0 0x080 a0,
    sd s1 0x088 a0,
    sd s2 0x090 a0,
    sd s3 0x098 a0,
    sd s4 0x0a0 a0,
    sd s5 0x0a8 a0,
    sd s6 0x0b0 a0,
    sd s7 0x0b8 a0,
    sd s8 0x0f0 a0,
    sd k0 0x0d0 a0,
    sd k1 0x0d8 a0,
    sd gp 0x0e0 a0,
    sd sp 0x0e8 a0,
    sd ra 0x0f8 a0 ]

def saveSpecials : List Insn :=
  [ mflo v0,
    mfhi v1,
    sd v0 0x100 a0,
    sd v1 0x108 a0,
    mfc0 v0 .status,
    sd v0 0x110 a0,
    mfc0 v0 .cause,
    sd v0 0x118 a0,
    dmfc0 v0 .badvaddr,
    sd v0 0x120 a0,
    dmfc0 v0 .epc,
    sd v0 0x128 a0,
    dmfc0 v0 .entryhi,
    sd v0 0x130 a0 ]

/-- `set_saved_sp` -/
def setSavedSp (stackp temp : Fin 32) (kernelsp scratch : BitVec 64) : List Insn :=
  [ mfc0 temp .ebase,
    andi temp temp 0x3ff,
    dsll temp temp 3,
    sdSymbol stackp kernelsp temp scratch ]

def loadSpecials : List Insn :=
  [ ld v0 0x130 a1,
    dmtc0 v0 .entryhi,
    ld v0 0x128 a1,
    dmtc0 v0 .epc,
    ld v0 0x120 a1,
    dmtc0 v0 .badvaddr,
    ld v0 0x118 a1,
    mtc0 v0 .cause,
    ld v0 0x110 a1,
    mtc0 v0 .status,
    ld v0 0x100 a1,
    ld v1 0x108 a1,
    mtlo v0,
    mthi v1 ]

def loadGprs : List Insn :=
  [ ld ra 0x0f8 a1,
    ld s8 0x0f0 a1,
    ld sp 0x0e8 a1,
    ld gp 0x0e0 a1,
    ld k0 0x0d0 a1,
    ld k1 0x0d8 a1,
    ld s0 0x080 a1,
    ld s1 0x088 a1,
    ld s2 0x090 a1,
    ld s3 0x098 a1,
    ld s4 0x0a0 a1,
    ld s5 0x0a8 a1,
    ld s6 0x0b0 a1,
    ld s7 0x0b8 a1,
    ld t0 0x040 a1,
    ld t1 0x048 a1,
    ld t2 0x050 a1,
    ld t3 0x058 a1,
    ld t4 0x060 a1,
    ld t5 0x068 a1,
    ld t6 0x070 a1,
    ld t7 0x078 a1,
    ld t8 0x0c0 a1,
    ld t9 0x0c8 a1,
    ld AT 0x008 a1,
    ld v0 0x010 a1,
    ld v1 0x018 a1,
    ld a0 0x020 a1,
    ld a2 0x030 a1,
    ld a3 0x038 a1,
    ld a1 0x028 a1 ]

/-- `switch_context`, up to its `jr ra`. -/
def switchContext (kernelsp scratch : BitVec 64) : List Insn :=
  saveGprs ++ (saveSpecials ++ (setSavedSp a2 t0 kernelsp scratch ++ (loadSpecials ++ loadGprs)))

namespace Core

/-- All registers as a context. -/
def context (s : Core) : Trapframe where
  gpr := s.gpr
  lo := s.lo
  hi := s.hi
  cp0Status := s.status.signExtend 64
  cp0Cause := s.cause.signExtend 64
  cp0Badvaddr := s.badvaddr
  cp0Epc := s.epc
  cp0Entryhi := s.entryhi

variable {w : BitVec 64 → BitVec 64} {s : Core} {kernelsp scratch : BitVec 64} {rest : List Insn}

/-- What the first half stores in the old context. -/
def contextSlots (s : Core) : List (BitVec 64 × BitVec 64) :=
  [(0x000, s.gpr zero), (0x008, s.gpr AT), (0x010, s.gpr v0), (0x018, s.gpr v1), (0x020, s.gpr a0), (0x028, s.gpr a1),
    (0x030, s.gpr a2), (0x038, s.gpr a3), (0x040, s.gpr t0), (0x048, s.gpr t1), (0x050, s.gpr t2), (0x058, s.gpr t3),
    (0x060, s.gpr t4), (0x068, s.gpr t5), (0x070, s.gpr t6), (0x078, s.gpr t7), (0x0c0, s.gpr t8), (0x0c8, s.gpr t9),
    (0x080, s.gpr s0), (0x088, s.gpr s1), (0x090, s.gpr s2), (0x098, s.gpr s3), (0x0a0, s.gpr s4), (0x0a8, s.gpr s5),
    (0x0b0, s.gpr s6), (0x0b8, s.gpr s7), (0x0f0, s.gpr s8), (0x0d0, s.gpr k0), (0x0d8, s.gpr k1), (0x0e0, s.gpr gp),
    (0x0e8, s.gpr sp), (0x0f8, s.gpr ra), (0x100, s.lo), (0x108, s.hi), (0x110, s.status.signExtend 64),
    (0x118, s.cause.signExtend 64), (0x120, s.badvaddr), (0x128, s.epc), (0x130, s.entryhi)]

theorem contextSlots_distinct (s : Core) : (s.contextSlots.map Prod.fst).Nodup := by
  simp only [contextSlots, List.map_cons, List.map_nil]
  decide +kernel

theorem contextSlots_keys (s : Core) : ∀ offset ∈ s.contextSlots.map Prod.fst, Aligned offset ∧ offset.toNat < 312 := by
  simp only [contextSlots, List.map_cons, List.map_nil, List.forall_mem_cons, Aligned]
  simp

theorem contextSlots_gpr (s : Core) (r : Fin 32) : (BitVec.ofNat 64 (8 * r.val), s.gpr r) ∈ s.contextSlots := by
  fin_cases r <;> simp [contextSlots]

/-- The context is saved; two registers are clobbered. -/
theorem saveContext_run (aligned : Aligned (s.gpr a0)) :
    s.run w (saveGprs ++ (saveSpecials ++ rest)) = run w rest { s with
      gpr := updates s.gpr [(v0, s.lo), (v1, s.hi), (v0, s.status.signExtend 64), (v0, s.cause.signExtend 64), (v0, s.badvaddr),
        (v0, s.epc), (v0, s.entryhi)]
      mem := updates s.mem (offsets (s.gpr a0) s.contextSlots) } := by
  have blocks : saveGprs ++ (saveSpecials ++ rest) =
      stores a0 [(0x000, zero), (0x008, AT), (0x010, v0), (0x018, v1), (0x020, a0), (0x028, a1), (0x030, a2), (0x038, a3),
        (0x040, t0), (0x048, t1), (0x050, t2), (0x058, t3), (0x060, t4), (0x068, t5), (0x070, t6), (0x078, t7), (0x0c0, t8),
        (0x0c8, t9), (0x080, s0), (0x088, s1), (0x090, s2), (0x098, s3), (0x0a0, s4), (0x0a8, s5), (0x0b0, s6), (0x0b8, s7),
        (0x0f0, s8), (0x0d0, k0), (0x0d8, k1), (0x0e0, gp), (0x0e8, sp), (0x0f8, ra)] ++
      mflo v0 :: mfhi v1 :: (stores a0 [(0x100, v0), (0x108, v1)] ++
      mfc0 v0 .status :: (stores a0 [(0x110, v0)] ++ mfc0 v0 .cause :: (stores a0 [(0x118, v0)] ++
      dmfc0 v0 .badvaddr :: (stores a0 [(0x120, v0)] ++ dmfc0 v0 .epc :: (stores a0 [(0x128, v0)] ++
      dmfc0 v0 .entryhi :: (stores a0 [(0x130, v0)] ++ rest)))))) := rfl
  rw [blocks, run_stores, run_mflo, run_mfhi, run_stores, run_mfc0, run_stores, run_mfc0, run_stores, run_dmfc0, run_stores,
    run_dmfc0, run_stores, run_dmfc0, run_stores]
  · simp [set, cp0, setWidth_signExtend, offsets, contextSlots]
  all_goals first | exact aligned | decide

theorem setSavedSp_run (array : Aligned kernelsp) :
    s.run w (setSavedSp a2 t0 kernelsp scratch ++ rest) = run w rest { s with
      gpr := Function.update (Function.update s.gpr t0 ((s.ebase.signExtend 64 &&& 0x3ff#64) <<< 3)) AT scratch
      mem := Function.update s.mem (s.savedSpSlot kernelsp) (s.gpr a2) } := by
  have slot := savedSpSlot_aligned (s := s) array
  have code : setSavedSp a2 t0 kernelsp scratch ++ rest =
      mfc0 t0 .ebase :: andi t0 t0 0x3ff :: dsll t0 t0 3 :: sdSymbol a2 kernelsp t0 scratch :: rest := rfl
  rw [code, run_mfc0, run_andi, run_dsll, run_sdSymbol]
  · simp [set, cp0, setWidth_signExtend, savedSpSlot]
  · simpa [set, cp0, setWidth_signExtend, savedSpSlot] using slot

section Load

variable {b : BitVec 64} {slot : BitVec 64 → BitVec 64}

theorem loadSpecials_run (base : s.gpr a1 = b) (memory : ∀ offset, s.mem (b + offset) = slot offset) (aligned : Aligned b) :
    s.run w (loadSpecials ++ rest) = run w rest { s.setCp0 (slot 0x118) .cause with
      gpr := updates s.gpr [(v0, slot 0x130), (v0, slot 0x128), (v0, slot 0x120), (v0, slot 0x118), (v0, slot 0x110),
        (v0, slot 0x100), (v1, slot 0x108)]
      lo := slot 0x100
      hi := slot 0x108
      status := (slot 0x110).setWidth 32
      epc := slot 0x128
      entryhi := slot 0x130 } := by
  have blocks : loadSpecials ++ rest =
      loads a1 [(v0, 0x130)] ++ dmtc0 v0 .entryhi :: (loads a1 [(v0, 0x128)] ++ dmtc0 v0 .epc ::
        (loads a1 [(v0, 0x120)] ++ dmtc0 v0 .badvaddr :: (loads a1 [(v0, 0x118)] ++ mtc0 v0 .cause ::
        (loads a1 [(v0, 0x110)] ++ mtc0 v0 .status :: (loads a1 [(v0, 0x100), (v1, 0x108)] ++
        mtlo v0 :: mthi v1 :: rest))))) := rfl
  rw [blocks]
  refine Eq.trans (run_loads base memory aligned (by decide) (by decide)) ?_
  rw [run_dmtc0]
  refine Eq.trans (run_loads base memory aligned (by decide) (by decide)) ?_
  rw [run_dmtc0]
  refine Eq.trans (run_loads base memory aligned (by decide) (by decide)) ?_
  rw [run_dmtc0]
  refine Eq.trans (run_loads base memory aligned (by decide) (by decide)) ?_
  rw [run_mtc0_cause]
  refine Eq.trans (run_loads base memory aligned (by decide) (by decide)) ?_
  rw [run_mtc0_status]
  refine Eq.trans (run_loads base memory aligned (by decide) (by decide)) ?_
  rw [run_mtlo, run_mthi]
  rfl

theorem loadGprs_run (base : s.gpr a1 = b) (memory : ∀ offset, s.mem (b + offset) = slot offset) (aligned : Aligned b) :
    ∃ g, s.run w loadGprs = some { s with gpr := g } ∧ g zero = s.gpr zero ∧
      ∀ r, r ≠ zero → g r = slot (BitVec.ofNat 64 (8 * r.val)) := by
  have blocks : loadGprs = loads a1 [(ra, 0x0f8), (s8, 0x0f0), (sp, 0x0e8), (gp, 0x0e0), (k0, 0x0d0), (k1, 0x0d8),
      (s0, 0x080), (s1, 0x088), (s2, 0x090), (s3, 0x098), (s4, 0x0a0), (s5, 0x0a8), (s6, 0x0b0), (s7, 0x0b8), (t0, 0x040),
      (t1, 0x048), (t2, 0x050), (t3, 0x058), (t4, 0x060), (t5, 0x068), (t6, 0x070), (t7, 0x078), (t8, 0x0c0), (t9, 0x0c8),
      (AT, 0x008), (v0, 0x010), (v1, 0x018), (a0, 0x020), (a2, 0x030), (a3, 0x038)] ++ [ld a1 0x028 a1] := rfl
  rw [blocks]
  refine ⟨_, Eq.trans (run_loads base memory aligned (by decide) (by decide)) 
    (Eq.trans (run_ld_slot base memory aligned (by decide)) rfl), ?_, ?_⟩
  · rfl
  · intro r notZero
    fin_cases r <;> first | exact absurd rfl notZero | simp

end Load

section Saved

variable {b : BitVec 64}

/-- The memory with the context. -/
def withContext (s : Core) (b : BitVec 64) : BitVec 64 → BitVec 64 := updates s.mem (offsets b s.contextSlots)

theorem withContext_slot {offset v : BitVec 64} (member : (offset, v) ∈ s.contextSlots) : s.withContext b (b + offset) = v :=
  updates_map_of_mem (offset_injective b) s.contextSlots_distinct member

theorem withContext_outside {a : BitVec 64} (outside : ¬ InFrame b a) : s.withContext b a = s.mem a := by
  refine updates_of_not_mem fun member => ?_
  rw [offsets, List.map_map] at member
  obtain ⟨p, inside, rfl⟩ := List.mem_map.mp member
  obtain ⟨eights, within⟩ := s.contextSlots_keys p.1 (List.mem_map_of_mem inside)
  exact outside (InFrame.of_offset eights within)

theorem frameAt_withContext : frameAt (s.withContext b) b = s.context := by
  have special : (0x100, s.lo) ∈ s.contextSlots ∧ (0x108, s.hi) ∈ s.contextSlots ∧
      (0x110, s.status.signExtend 64) ∈ s.contextSlots ∧ (0x118, s.cause.signExtend 64) ∈ s.contextSlots ∧
      (0x120, s.badvaddr) ∈ s.contextSlots ∧ (0x128, s.epc) ∈ s.contextSlots ∧ (0x130, s.entryhi) ∈ s.contextSlots := by
    simp [contextSlots]
  obtain ⟨lo, hi, status, cause, badvaddr, epc, entryhi⟩ := special
  simp only [frameAt, context, Trapframe.mk.injEq]
  exact ⟨funext fun r => withContext_slot (s.contextSlots_gpr r), withContext_slot lo, withContext_slot hi,
    withContext_slot status, withContext_slot cause, withContext_slot badvaddr, withContext_slot epc, withContext_slot entryhi⟩

end Saved

/-- The state behind `switch_context`: the old context is saved, the new one is in the registers. -/
structure Switched (s s' : Core) (kernelsp : BitVec 64) : Prop where
  saved : frameAt s'.mem (s.gpr a0) = s.context
  stack : s'.mem (s.savedSpSlot kernelsp) = s.gpr a2
  outside : ∀ a, ¬ InFrame (s.gpr a0) a → a ≠ s.savedSpSlot kernelsp → s'.mem a = s.mem a
  gpr : ∀ r, r ≠ zero → s'.gpr r = (frameAt s'.mem (s.gpr a1)).gpr r
  zero : s'.gpr zero = s.gpr zero
  lo : s'.lo = (frameAt s'.mem (s.gpr a1)).lo
  hi : s'.hi = (frameAt s'.mem (s.gpr a1)).hi
  status : s'.status = (frameAt s'.mem (s.gpr a1)).cp0Status.setWidth 32
  epc : s'.epc = (frameAt s'.mem (s.gpr a1)).cp0Epc
  entryhi : s'.entryhi = (frameAt s'.mem (s.gpr a1)).cp0Entryhi
  ebase : s'.ebase = s.ebase

theorem switchContext_spec (old : Aligned (s.gpr a0)) (new : Aligned (s.gpr a1)) (array : Aligned kernelsp)
    (apart : ¬ InFrame (s.gpr a0) (s.savedSpSlot kernelsp)) :
    ∃ s', s.run w (switchContext kernelsp scratch) = some s' ∧ s.Switched s' kernelsp := by
  rw [switchContext, saveContext_run old]
  obtain ⟨t, atT⟩ : ∃ t : Core, t = { s with
      gpr := updates s.gpr [(v0, s.lo), (v1, s.hi), (v0, s.status.signExtend 64), (v0, s.cause.signExtend 64), (v0, s.badvaddr),
        (v0, s.epc), (v0, s.entryhi)]
      mem := s.withContext (s.gpr a0) } := ⟨_, rfl⟩
  rw [show updates s.mem (offsets (s.gpr a0) s.contextSlots) = s.withContext (s.gpr a0) from rfl, ← atT, setSavedSp_run array]
  obtain ⟨u, atU⟩ : ∃ u : Core, u = { t with
      gpr := Function.update (Function.update t.gpr t0 ((t.ebase.signExtend 64 &&& 0x3ff#64) <<< 3)) AT scratch
      mem := Function.update t.mem (t.savedSpSlot kernelsp) (t.gpr a2) } := ⟨_, rfl⟩
  rw [← atU]
  have baseU : u.gpr a1 = s.gpr a1 := by rw [atU, atT]; rfl
  have zeroU : u.gpr zero = s.gpr zero := by rw [atU, atT]; rfl
  have memU : u.mem = Function.update (s.withContext (s.gpr a0)) (s.savedSpSlot kernelsp) (s.gpr a2) := by rw [atU, atT]; rfl
  have ebaseU : u.ebase = s.ebase := by rw [atU, atT]
  obtain ⟨slot, memory⟩ : ∃ slot : BitVec 64 → BitVec 64, ∀ offset, u.mem (s.gpr a1 + offset) = slot offset := ⟨_, fun _ => rfl⟩
  rw [loadSpecials_run baseU memory new]
  obtain ⟨g, run, zeroG, gprs⟩ := loadGprs_run (w := w) (s := { u.setCp0 (slot 0x118) .cause with
      gpr := updates u.gpr [(v0, slot 0x130), (v0, slot 0x128), (v0, slot 0x120), (v0, slot 0x118), (v0, slot 0x110),
        (v0, slot 0x100), (v1, slot 0x108)]
      lo := slot 0x100
      hi := slot 0x108
      status := (slot 0x110).setWidth 32
      epc := slot 0x128
      entryhi := slot 0x130 }) baseU memory new
  rw [run]
  refine ⟨_, rfl, ?_⟩
  constructor
  case saved =>
    refine (frameAt_congr fun a within => ?_).trans (frameAt_withContext (s := s))
    show u.mem a = _
    rw [memU, Function.update_of_ne]
    rintro rfl
    exact apart within
  case stack =>
    show u.mem _ = _
    rw [memU, Function.update_self]
  case outside =>
    intro a away notSlot
    show u.mem a = _
    rw [memU, Function.update_of_ne notSlot, withContext_outside away]
  case gpr =>
    intro r notZero
    exact (gprs r notZero).trans (memory _).symm
  case zero => exact zeroG.trans zeroU
  case status => exact congrArg (BitVec.setWidth 32) (memory 0x110).symm
  case ebase => exact ebaseU
  all_goals exact (memory _).symm

end Core

end Xv6.Asm
