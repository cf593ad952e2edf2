import Xv6.PageAlloc
import Xv6.Tlb

namespace Xv6

def pteLowmask : Nat := 0xfff
def pteCacheMask : Nat := 0xe00
def pteCacheable : Nat := 0x600
def pteDirty : Nat := 0x100
def pteValid : Nat := 0x080
def pteGlobal : Nat := 0x040
def pteNoexec : Nat := 0x008
def ptePhys : Nat := 0x001

def enoent : Int := 2
def enomem : Int := 12
def eacces : Int := 13
def efault : Int := 14
def eexist : Int := 17
def einval : Int := 22

/-- `PDE_BITS` -/
def pdeBits : Nat := 11

/-- `PDE_MASK` -/
def pdeMask : Nat := 2 ^ pdeBits - 1

def pteOffset : Nat := pgshift
def pmdOffset : Nat := pteOffset + pdeBits
def pgdOffset : Nat := pmdOffset + pdeBits

def pgx (vaddr : Nat) : Nat := (vaddr &&& pdeMask <<< pgdOffset) >>> pgdOffset
def pmx (vaddr : Nat) : Nat := (vaddr &&& pdeMask <<< pmdOffset) >>> pmdOffset
def ptx (vaddr : Nat) : Nat := (vaddr &&& pdeMask <<< pteOffset) >>> pteOffset

namespace PageMem

/-- The word `dir[index]` of the directory at a kernel address. -/
def pdeGetEntry (s : PageMem) (dir index : Nat) : Nat := s.mem.load (dir + 8 * index) 8

def setEntry (s : PageMem) (dir index entry : Nat) : PageMem :=
  { s with mem := s.mem.store (dir + 8 * index) 8 entry }

/-- The `pgdir` member of a page structure: `entries` and `asid`. -/
def pgdirExtra (s : PageMem) (d : Nat) : Nat × Nat :=
  match (s.page d).extra with
  | .pgdir entries asid => (entries, asid)
  | _ => (0, 0)

/-- Stored into unsigned ints. -/
def setPgdirExtra (s : PageMem) (d entries asid : Nat) : PageMem :=
  s.setPage d { s.page d with extra := .pgdir (entries % 2 ^ 32) asid }

def pgdirCheck (s : PageMem) (d : Nat) : Res Unit :=
  if (s.page d).type = .pgdir then .ok () else .error .assertion

/-- The new directory is zeroed and knows its ASID. -/
def pgdirInit (s : PageMem) (p asid : Nat) : PageMem :=
  let s := { s with mem := s.mem.fill (s.pageToKvaddr p) pgsize 0 }
  (s.setType p .pgdir).setPgdirExtra p 0 asid

def pgdirNew (s : PageMem) (asid : Nat) : Res (Option Nat × PageMem) := do
  let (p, s) ← s.allocPage
  match p with
  | none => .ok (none, s)
  | some p => .ok (some p, s.pgdirInit p asid)

def pgdirDelete (s : PageMem) (d : Nat) : Res PageMem := do
  s.pgdirCheck d
  s.pgfree (some d)

/-- What `pgdir_add_entry` writes into the directory. -/
def pgdirEntry (s : PageMem) (p flags : Nat) : Nat :=
  if flags &&& ptePhys = 0 then s.pageToKvaddr p else s.pageToPaddr p ||| (flags &&& pteLowmask)

def pgdirAddEntry (s : PageMem) (d index p flags : Nat) : Res (Nat × PageMem) := do
  s.pgdirCheck d
  if s.pdeGetEntry (s.pageToKvaddr d) index ≠ 0 then .error .panic
  else
    let (entries, asid) := s.pgdirExtra d
    let s := s.setPgdirExtra d (entries + 1) asid
    .ok (s.pageToKvaddr p, s.setEntry (s.pageToKvaddr d) index (s.pgdirEntry p flags))

/-- Returns 0 when there is no page for the new directory. -/
def pgdirAddPgdir (s : PageMem) (d index : Nat) : Res (Nat × PageMem) := do
  s.pgdirCheck d
  let (pd, s) ← s.pgdirNew (s.pgdirExtra d).2
  match pd with
  | none => .ok (0, s)
  | some pd => s.pgdirAddEntry d index pd 0

/-- The address of the page an entry stands for. -/
def entryAddr (entry : Nat) : Nat :=
  if entry &&& ptePhys = 0 then entry else ((entry ||| pteLowmask) ^^^ pteLowmask) + kernbase

def pgdirRemoveEntry (s : PageMem) (d index : Nat) : Res (Nat × PageMem) := do
  s.pgdirCheck d
  let (entries, asid) := s.pgdirExtra d
  let s := s.setPgdirExtra d (entries + 2 ^ 32 - 1) asid
  let dir := s.pageToKvaddr d
  .ok (entryAddr (s.pdeGetEntry dir index), s.setEntry dir index 0)

def pgdirEmpty (s : PageMem) (d : Nat) : Bool := (s.pgdirExtra d).1 == 0

def pgdirRemovePgdir (s : PageMem) (d index : Nat) : Res PageMem := do
  s.pgdirCheck d
  let (result, s) ← s.pgdirRemoveEntry d index
  let pd ← s.kvaddrToPage result
  if s.pgdirEmpty pd then s.pgdirDelete pd else .ok s

/-- The macros of `pgdir.h`, on the kernel address of a directory. -/
def pdeAddEntry (s : PageMem) (pde index p flags : Nat) : Res (Nat × PageMem) := do
  s.pgdirAddEntry (← s.kvaddrToPage pde) index p flags

def pdeAddPgdir (s : PageMem) (pde index : Nat) : Res (Nat × PageMem) := do
  s.pgdirAddPgdir (← s.kvaddrToPage pde) index

def pdeRemoveEntry (s : PageMem) (pde index : Nat) : Res (Nat × PageMem) := do
  s.pgdirRemoveEntry (← s.kvaddrToPage pde) index

def pdeRemovePgdir (s : PageMem) (pde index : Nat) : Res PageMem := do
  s.pgdirRemovePgdir (← s.kvaddrToPage pde) index

def pdeEmpty (s : PageMem) (pde : Nat) : Res Bool := do
  .ok (s.pgdirEmpty (← s.kvaddrToPage pde))

end PageMem

/-- `struct pagedesc`; 0 is NULL. -/
structure Pagedesc where
  pgd : Nat
  pmd : Nat
  pte : Nat
  pgx : Nat
  pmx : Nat
  ptx : Nat

namespace PageMem

/-- `pgtable_get` without `create`: walk down to the last directory there is. -/
def pgtableFind (s : PageMem) (pgd vaddr : Nat) : Int × Pagedesc :=
  let pdesc : Pagedesc := ⟨pgd, 0, 0, pgx vaddr, pmx vaddr, ptx vaddr⟩
  let pmd := s.pdeGetEntry pgd pdesc.pgx
  if pmd = 0 then (-enoent, pdesc)
  else
    let pte := s.pdeGetEntry pmd pdesc.pmx
    (if pte = 0 then -enoent else 0, { pdesc with pmd := pmd, pte := pte })

/-- The label `nomem` of `pgtable_get`. -/
def pgtableNomem (s : PageMem) (pdesc : Pagedesc) : Res (Int × Pagedesc × PageMem) := do
  let s ← if pdesc.pmd ≠ 0 ∧ s.pdeGetEntry pdesc.pmd pdesc.pmx ≠ 0 then s.pdeRemovePgdir pdesc.pmd pdesc.pmx
    else pure s
  let s ← if pdesc.pgd ≠ 0 ∧ s.pdeGetEntry pdesc.pgd pdesc.pgx ≠ 0 then s.pdeRemovePgdir pdesc.pgd pdesc.pgx
    else pure s
  .ok (-enomem, pdesc, s)

/-- The directory behind an entry, made when there is none. -/
def pdeObtain (s : PageMem) (pde index : Nat) : Res (Nat × PageMem) :=
  if s.pdeGetEntry pde index ≠ 0 then .ok (s.pdeGetEntry pde index, s) else s.pdeAddPgdir pde index

/-- `pgtable_get` with `create`. -/
def pgtableCreate (s : PageMem) (pgd vaddr : Nat) : Res (Int × Pagedesc × PageMem) := do
  let pdesc : Pagedesc := ⟨pgd, 0, 0, pgx vaddr, pmx vaddr, ptx vaddr⟩
  let (pmd, s) ← s.pdeObtain pgd pdesc.pgx
  if pmd = 0 then s.pgtableNomem pdesc
  else
    let pdesc := { pdesc with pmd := pmd }
    let (pte, s) ← s.pdeObtain pmd pdesc.pmx
    if pte = 0 then s.pgtableNomem pdesc
    else .ok (0, { pdesc with pte := pte }, s)

/-- The flags `pgtable_insert` writes for `perm`. -/
def pteFlags (perm : Nat) : Nat := perm &&& (pteLowmask - pteCacheMask) ||| (pteCacheable ||| ptePhys)

/-- The entry maps another page than `page`. -/
def mapsOther (s : PageMem) (entry page : Nat) : Res Bool :=
  if entry ≠ 0 then do .ok ((← s.pfnToPage (entry >>> pgshift)) != page) else .ok false

/-- `pgtable_insert`: the return code and the page that was replaced. -/
def pgtableInsert (s : PageMem) (pgd vaddr page perm : Nat) (replace : Bool) :
    Res (Int × Option Nat × PageMem) := do
  let vaddr := pgaddrRounddown vaddr
  if vaddr = 0 then .ok (-einval, none, s)
  else
    let (retcode, pdesc, s) ← s.pgtableCreate pgd vaddr
    if retcode ≠ 0 then .ok (retcode, none, s)
    else
      let other ← s.mapsOther (s.pdeGetEntry pdesc.pte pdesc.ptx) page
      if other then
        if replace = false then .ok (-eexist, none, s)
        else do
          let (old, s) ← s.pdeRemoveEntry pdesc.pte pdesc.ptx
          let p ← s.kvaddrToPage old
          let (_, s) ← s.pdeAddEntry pdesc.pte pdesc.ptx page (pteFlags perm)
          .ok (0, some p, s)
      else do
        let (_, s) ← s.pdeAddEntry pdesc.pte pdesc.ptx page (pteFlags perm)
        .ok (0, none, s)

/-- `pgtable_remove` takes the entry of the page, when there is one. -/
def pteTake (s : PageMem) (pte index : Nat) : Res (Option Nat × PageMem) :=
  if pte ≠ 0 ∧ s.pdeGetEntry pte index ≠ 0 then do
    let (old, s) ← s.pdeRemoveEntry pte index
    .ok (some (← s.kvaddrToPage old), s)
  else .ok (none, s)

/-- `pgtable_remove` removes a directory that is there and empty. -/
def pdePrune (s : PageMem) (child parent index : Nat) : Res PageMem :=
  if child ≠ 0 then do
    if ← s.pdeEmpty child then s.pdeRemovePgdir parent index else .ok s
  else .ok s

/-- `pgtable_remove`, less its last line. -/
def pgtableClear (s : PageMem) (pgd vaddr : Nat) : Res (Option Nat × PageMem) := do
  let pdesc := (s.pgtableFind pgd vaddr).2
  let (p, s) ← s.pteTake pdesc.pte pdesc.ptx
  let s ← s.pdePrune pdesc.pte pdesc.pmd pdesc.pmx
  let s ← s.pdePrune pdesc.pmd pdesc.pgd pdesc.pgx
  .ok (p, s)

def pgtableRemove (s : PageMem) (c : Cpu) (pgd vaddr : Nat) : Res (Option Nat × PageMem × Cpu) := do
  let (p, s) ← s.pgtableClear pgd vaddr
  .ok (p, s, c.tlbRemove vaddr)

def archMapPage (s : PageMem) (pgd vaddr p perm : Nat) : Res (Int × PageMem) := do
  let (retcode, replaced, s) ← s.pgtableInsert pgd vaddr p perm true
  if retcode ≠ 0 then .ok (retcode, s)
  else
    match replaced with
    | none => .ok (0, s)
    | some old => do
      let s ← s.pgfree (some old)
      .ok (0, s)

def archUnmapPage (s : PageMem) (c : Cpu) (pgd vaddr : Nat) : Res (Option Nat × PageMem × Cpu) :=
  s.pgtableRemove c pgd vaddr

def archMmGetPfn (s : PageMem) (pgd vaddr : Nat) : Nat :=
  let pdesc := (s.pgtableFind pgd vaddr).2
  if pdesc.pte ≠ 0 then s.pdeGetEntry pdesc.pte pdesc.ptx >>> pgshift else 0

end PageMem

def vmaExec : Nat := 0x01
def vmaWrite : Nat := 0x02
def vmaRead : Nat := 0x04

/-- `page_perm` -/
def pagePerm (vmFlags : Nat) : Nat :=
  let perm := pteValid ||| pteNoexec
  let perm := if vmFlags &&& vmaWrite ≠ 0 then perm ||| pteDirty else perm
  if vmFlags &&& vmaExec = 0 then perm ||| pteNoexec else perm

/-- `PTE_SOFT_SHIFT` -/
def pteSoftShift : Nat := 6

/-- `drotr` -/
def rotateRight (x k : Nat) : Nat := x / 2 ^ k + x % 2 ^ k * 2 ^ (64 - k)

/-- What the refill handler makes of a page table word. -/
def entryLo (pte : Nat) : Nat := rotateRight ((pte ||| ptePhys) ^^^ ptePhys) pteSoftShift

/-- `xtlb_refill`, with the table `online_hpt` of directories. Where it jumps to
the generic handler the TLB stays as it is. -/
def PageMem.xtlbRefill (s : PageMem) (onlineHpt : Nat → Nat) (c : Cpu) (badvaddr random : Nat) : Cpu :=
  let pgd := onlineHpt c.asid
  if pgd = 0 then c
  else
    let pmd := s.pdeGetEntry pgd (badvaddr >>> pgdOffset &&& pdeMask)
    if pmd = 0 then c
    else
      let pte := s.pdeGetEntry pmd (badvaddr >>> pmdOffset &&& pdeMask)
      if pte = 0 then c
      else
        let even := badvaddr >>> pteOffset &&& (pdeMask - 1)
        let k1 := s.pdeGetEntry pte even
        let k0 := s.pdeGetEntry pte (even + 1)
        if k1 = 0 ∧ k0 = 0 then c
        else { c with entryLo0 := entryLo k1, entryLo1 := entryLo k0 }.tlbwr random

end Xv6
