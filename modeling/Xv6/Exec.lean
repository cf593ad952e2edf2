import Xv6.Vm

namespace Xv6

def enoexec : Int := 8

/-- `PT_LOAD` -/
def ptLoad : Nat := 1

/-- `elf64_phdr_t`, as far as it is read. -/
structure Phdr where
  pType : Nat
  pFlags : Nat
  pVaddr : Nat
  pFilesz : Nat
  pMemsz : Nat
  deriving DecidableEq, Repr

/-- `elf64hdr_t`, as far as it is read. -/
structure ElfHdr where
  eIdent : Nat → UInt8
  eType : Nat
  eMachine : Nat
  eEntry : Nat
  ePhoff : Nat
  ePhentsize : Nat
  ePhnum : Nat
  eShentsize : Nat

/-- A task, as far as it is loaded. -/
structure ExecTask where
  mm : Mm
  progtop : Nat

/-- `sizeof(elf64_phdr_t)` -/
def sizeofPhdr : Nat := 56

/-- `sizeof(elf64_shdr_t)` -/
def sizeofShdr : Nat := 64

/-- The program header at an address. -/
def phdrAt (image : ByteMem) (a : Nat) : Phdr where
  pType := image.load a 4
  pFlags := image.load (a + 4) 4
  pVaddr := image.load (a + 16) 8
  pFilesz := image.load (a + 32) 8
  pMemsz := image.load (a + 40) 8

/-- The header at the start of an image. -/
def elfHdrAt (image : ByteMem) (a : Nat) : ElfHdr where
  eIdent i := image (a + i)
  eType := image.load (a + 16) 2
  eMachine := image.load (a + 18) 2
  eEntry := image.load (a + 24) 8
  ePhoff := image.load (a + 32) 8
  ePhentsize := image.load (a + 54) 2
  ePhnum := image.load (a + 56) 2
  eShentsize := image.load (a + 58) 2

/-- The program headers that the loops read, from the offset `off` on. The image is not of
the memory that is loaded into, so both loops read the same. -/
def phdrs (image : ByteMem) (addr phentsize : Nat) : Nat → Nat → List Phdr
  | 0, _ => []
  | n + 1, off => phdrAt image ((addr + off) % 2 ^ 64) :: phdrs image addr phentsize n ((off + phentsize) % 2 ^ 64)

/-- `elf_to_vmaflags` -/
def elfToVmaflags (elfflags : Nat) : Nat :=
  (if elfflags &&& 1 ≠ 0 then vmaExec else 0) ||| (if elfflags &&& 2 ≠ 0 then vmaWrite else 0) |||
    (if elfflags &&& 4 ≠ 0 then vmaRead else 0)

namespace Mm

/-- `copy_to_uvm`. If the range wraps and ends in the page where it starts, one `memcpy` gets
the whole length. -/
def copyToUvm (k : Mm) (uvaddr kvaddr len : Nat) : Res (Int × Mm) :=
  if uvaddr ≤ xusegEnd ∧ nrPagesSpanned uvaddr len ≠ 0 ∧ k.pgd = 0 then .error .wild
  else
    let (retcode, pm) := k.heap.pm.copyToUvm k.pgd uvaddr kvaddr len
    if retcode = 0 ∧ nrPagesSpanned uvaddr len = 1 ∧ pgsize < len then .error .wild
    else .ok (retcode, k.setPm pm)

/-- `task_load_seg_kmem`; the data comes from the start of the image. -/
def taskLoadSegKmem (k : Mm) (addr : Nat) (ph : Phdr) : Res (Int × Mm) := do
  let (retcode, k) ← k.createUvm ph.pVaddr ph.pMemsz (elfToVmaflags ph.pFlags)
  if retcode ≠ 0 then .ok (retcode, k)
  else do
    let (retcode, k) ← k.copyToUvm ph.pVaddr addr ph.pFilesz
    if retcode = 0 then .ok (0, k)
    else do
      let (undone, k) ← k.destroyUvm ph.pVaddr
      if undone = 0 then .ok (retcode, k) else .error .assertion

/-- `task_unload_seg` -/
def taskUnloadSeg (k : Mm) (ph : Phdr) : Res Mm := do
  let (_, k) ← k.destroyUvm ph.pVaddr
  .ok k

/-- The loop behind `rollback_unload`. -/
def unloadLoop : List Phdr → Mm → Res Mm
  | [], k => .ok k
  | ph :: rest, k => do unloadLoop rest (← k.taskUnloadSeg ph)

end Mm

/-- The end of a segment; the sum may wrap. -/
def Phdr.top (ph : Phdr) : Nat := (ph.pVaddr + ph.pMemsz) % 2 ^ 64

namespace ExecTask

/-- The first loop of `task_load_segs_kmem`. -/
def loadLoop (addr : Nat) : List Phdr → ExecTask → Res (Int × ExecTask)
  | [], t => .ok (0, t)
  | ph :: rest, t => do
    let (ret, mm) ← if ph.pType = ptLoad then t.mm.taskLoadSegKmem addr ph else .ok (0, t.mm)
    if ret ≠ 0 then .ok (ret, { t with mm := mm })
    else loadLoop addr rest ⟨mm, if t.progtop < ph.top then ph.top else t.progtop⟩

/-- `task_load_segs_kmem` -/
def taskLoadSegsKmem (t : ExecTask) (image : ByteMem) (addr : Nat) (hdr : ElfHdr) : Res (Int × ExecTask) := do
  let proghdrs := phdrs image addr hdr.ePhentsize hdr.ePhnum hdr.ePhoff
  let (ret, t) ← loadLoop addr proghdrs t
  if ret = 0 then .ok (0, { t with progtop := (pow2Roundup t.progtop pgshift + pgsize) % 2 ^ 64 })
  else do
    let mm ← t.mm.unloadLoop proghdrs
    .ok (ret, { t with mm := mm })

end ExecTask

/-- `ELFMAG` -/
def elfmag : List UInt8 := [0x7f, 0x45, 0x4c, 0x46]

/-- `task_load_elf_kmem`; `entry` is what the pointer of that name points to. -/
def ExecTask.taskLoadElfKmem (t : ExecTask) (image : ByteMem) (addr entry : Nat) : Res (Int × Nat × ExecTask) :=
  let hdr := elfHdrAt image addr
  if (List.range 4).map hdr.eIdent ≠ elfmag ∨ hdr.eIdent 6 ≠ 1 ∨ hdr.eType ≠ 2 then .ok (-enoexec, entry, t)
  else if hdr.eIdent 4 ≠ 2 ∨ hdr.eIdent 5 ≠ 1 ∨ hdr.eMachine ≠ 8 then .ok (-einval, entry, t)
  else if hdr.ePhentsize ≠ sizeofPhdr ∨ hdr.eShentsize ≠ sizeofShdr then .ok (-enoexec, entry, t)
  else do
    let (ret, t) ← t.taskLoadSegsKmem image addr hdr
    .ok (ret, hdr.eEntry, t)

end Xv6
