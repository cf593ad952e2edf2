import Xv6.Asid
import Xv6.Kmalloc
import Xv6.UserCopy

namespace Xv6

/-- `vm_area_t`, less its list node; the field `end` is `stop`. -/
structure VmArea where
  start : Nat
  stop : Nat
  flags : Nat
  mm : Nat
  deriving DecidableEq, Repr

/-- The nodes of an area list: the head `mmap_list`, and the nodes inside of the areas. -/
inductive VmaNode
  | mmapList
  | node (a : Nat)
  deriving DecidableEq, Repr

/-- The memory mapping structure at the address `self`, and the kernel under it. `area` has the
`vm_area_t` objects that are allocated; 0 is NULL. -/
structure Mm where
  heap : Heap
  cpu : Cpu
  self : Nat
  pgd : Nat
  vmaLastAccessed : Nat
  link : Links VmaNode
  area : Nat → Option VmArea

/-- `sizeof(vm_area_t)` -/
def sizeofVmArea : Nat := 48

/-- `sizeof(mm_t)` -/
def sizeofMm : Nat := 48

/-- A bound on the length of every list of areas: there are not more than addresses. -/
def vmaFuel : Nat := 2 ^ 64

namespace VmArea

/-- `vm_area_valid` -/
def valid (v : VmArea) : Bool := decide (v.start < v.stop)

/-- `vm_area_fit`, with its assertion. -/
def fit (v : VmArea) (addr : Nat) : Res Bool :=
  if v.valid then .ok (decide (v.start ≤ addr ∧ addr < v.stop)) else .error .assertion

/-- `vm_area_prec`, with its assertions. -/
def prec (v w : VmArea) : Res Bool :=
  if v.valid = true ∧ w.valid = true then .ok (decide (v.stop ≤ w.start)) else .error .assertion

/-- `vm_area_succ`, with its assertions. -/
def succ (v w : VmArea) : Res Bool :=
  if v.valid = true ∧ w.valid = true then .ok (decide (w.stop ≤ v.start)) else .error .assertion

/-- `vm_area_overlap` -/
def overlap (v w : VmArea) : Res Bool := do
  if ← v.prec w then .ok false else .ok (!(← v.succ w))

end VmArea

namespace Mm

def setPm (k : Mm) (pm : PageMem) : Mm := { k with heap := { k.heap with pm := pm } }

/-- An area behind a pointer. It may have been freed. -/
def vma (k : Mm) (a : Nat) : Res VmArea :=
  match k.area a with
  | some v => .ok v
  | none => .error .wild

def setArea (k : Mm) (a : Nat) (v : VmArea) : Mm := { k with area := Function.update k.area a (some v) }

/-- The node is in an object that was not freed. -/
def live (k : Mm) : VmaNode → Prop
  | .mmapList => True
  | .node a => k.area a ≠ none

instance (k : Mm) : (n : VmaNode) → Decidable (k.live n)
  | .mmapList => inferInstanceAs (Decidable True)
  | .node a => inferInstanceAs (Decidable (k.area a ≠ none))

/-- `next_vma` -/
def nextVma (k : Mm) (n : VmaNode) : Res VmaNode :=
  if k.live n then .ok (k.link.next n) else .error .wild

/-- `vma_add_before` -/
def vmaAddBefore (k : Mm) (n : VmaNode) (new : Nat) : Res Mm :=
  if k.live n ∧ k.live (.node new) ∧ k.live (k.link.prev n) then
    .ok { k with link := k.link.addBefore n (.node new) }
  else .error .wild

/-- `vma_delete` -/
def vmaDelete (k : Mm) (a : Nat) : Res Mm :=
  if k.live (.node a) ∧ k.live (k.link.prev (.node a)) ∧ k.live (k.link.next (.node a)) then
    .ok { k with link := k.link.delInit (.node a) }
  else .error .wild

/-- `vm_area_new`. The block is small, so `kmalloc` searches no run; the `mm` of the new area is
written when it is inserted. -/
def areaNew (k : Mm) (start stop flags : Nat) : Res (Nat × Mm) :=
  if stop ≤ start then .ok (0, k)
  else if pageOff start ≠ 0 ∨ pageOff stop ≠ 0 then .error .assertion
  else do
    let (a, heap) ← k.heap.kmalloc 0 sizeofVmArea
    let k := { k with heap := heap }
    if a = 0 then .ok (0, k) else .ok (a, k.setArea a ⟨start, stop, flags, 0⟩)

/-- `vm_area_remove` -/
def areaRemove (k : Mm) (a : Nat) : Res Mm := do
  let v ← k.vma a
  if v.mm ≠ k.self then .error .assertion else k.vmaDelete a

/-- `vm_area_destroy` -/
def areaDestroy (k : Mm) (a : Nat) : Res Mm :=
  if a = 0 then .ok k
  else do
    let _ ← k.vma a
    let heap ← k.heap.kfree a
    .ok { k with heap := heap, area := Function.update k.area a none }

/-- The loop of `vm_area_find`. -/
def findLoop (k : Mm) (addr : Nat) : Nat → VmaNode → Res Nat
  | _, .mmapList => .ok 0
  | 0, .node _ => .error .diverge
  | fuel + 1, .node a => do
    let v ← k.vma a
    if ← v.fit addr then .ok a else k.findLoop addr fuel (← k.nextVma (.node a))

/-- The area that was accessed last contains the address. -/
def lastFits (k : Mm) (addr : Nat) : Res Bool :=
  if k.vmaLastAccessed = 0 then .ok false else do (← k.vma k.vmaLastAccessed).fit addr

/-- `vm_area_find` -/
def areaFind (k : Mm) (addr : Nat) : Res (Nat × Mm) := do
  if ← k.lastFits addr then .ok (k.vmaLastAccessed, k)
  else
    let a ← k.findLoop addr vmaFuel (k.link.next .mmapList)
    .ok (a, if a = 0 then k else { k with vmaLastAccessed := a })

/-- The loop of `vm_area_insert`: the node in front of which the new area goes. -/
def insertLoop (k : Mm) (new : Nat) : Nat → VmaNode → Res VmaNode
  | _, .mmapList => .ok .mmapList
  | 0, .node _ => .error .diverge
  | fuel + 1, .node a => do
    let v ← k.vma a
    let w ← k.vma new
    if ← v.prec w then
      if ← v.overlap w then .error .assertion else k.insertLoop new fuel (← k.nextVma (.node a))
    else .ok (.node a)

/-- `vm_area_insert` -/
def areaInsert (k : Mm) (new : Nat) : Res Mm :=
  if new = 0 then .ok k
  else do
    let v ← k.vma new
    let k := k.setArea new { v with mm := k.self }
    let n ← k.insertLoop new vmaFuel (k.link.next .mmapList)
    k.vmaAddBefore n new

/-- `arch_map_page`; without a root directory it works on NULL. -/
def archMapPage (k : Mm) (vaddr p perm : Nat) : Res (Int × Mm) :=
  if k.pgd = 0 then .error .wild
  else do
    let (retcode, pm) ← k.heap.pm.archMapPage k.pgd vaddr p perm
    .ok (retcode, k.setPm pm)

/-- `arch_unmap_page` -/
def archUnmapPage (k : Mm) (vaddr : Nat) : Res (Option Nat × Mm) :=
  if k.pgd = 0 then .error .wild
  else do
    let (p, pm, cpu) ← k.heap.pm.archUnmapPage k.cpu k.pgd vaddr
    .ok (p, { k.setPm pm with cpu := cpu })

/-- The loop of `map_pages`. Its counter `i` is an int, which overflows when the fuel is used up. -/
def mapLoop (p perm : Nat) : Nat → Nat → Nat → PageNode → Mm → Res (Int × Mm)
  | 0, _, _, _, _ => .error .overflow
  | fuel + 1, i, vaddr, curp, k =>
    if i < k.heap.pm.pageCount p then
      match curp with
      | .freeList => .error .wild
      | .page q => do
        let (retcode, k) ← k.archMapPage vaddr q perm
        if retcode ≠ 0 then .ok (retcode, k)
        else mapLoop p perm fuel (i + 1) ((vaddr + pgsize) % 2 ^ 64) (k.heap.pm.nextPage q) k
    else .ok (0, k)

/-- The loop behind `rollback_map`. The pages are not freed, so only the addresses count. -/
def unmapLoop (p : Nat) : Nat → Nat → Nat → Mm → Res Mm
  | 0, _, _, _ => .error .overflow
  | fuel + 1, i, vaddr, k =>
    if i < k.heap.pm.pageCount p then do
      let (_, k) ← k.archUnmapPage vaddr
      unmapLoop p fuel (i + 1) ((vaddr + pgsize) % 2 ^ 64) k
    else .ok k

/-- `map_pages`; the insertion returns 0 always. -/
def mapPages (k : Mm) (vaddr p flags : Nat) : Res (Int × Mm) :=
  if pageOff vaddr ≠ 0 then .error .assertion
  else do
    let curp := .page (k.heap.pm.firstPage p)
    let (vma, k) ← k.areaNew vaddr ((vaddr + pgsize * k.heap.pm.pageCount p) % 2 ^ 64) flags
    let k ← k.areaInsert vma
    let (retcode, k) ← mapLoop p (pagePerm flags) (intMax + 1) 0 vaddr curp k
    if retcode = 0 then .ok (0, k)
    else do
      let k ← unmapLoop p (intMax + 1) 0 vaddr k
      let k ← k.areaDestroy vma
      .ok (retcode, k)

/-- `unmap_pages` inside of one area. -/
def unmapInside (k : Mm) (vma vaddr vaddrEnd : Nat) : Res (Int × Mm) := do
  let v ← k.vma vma
  let (head, k) ← k.areaNew v.start vaddr v.flags
  let (tail, k) ← k.areaNew vaddrEnd v.stop v.flags
  if (head = 0 ∧ v.start ≠ vaddr) ∨ (tail = 0 ∧ vaddrEnd ≠ v.stop) then do
    let k ← k.areaDestroy head
    let k ← k.areaDestroy tail
    .ok (-enomem, k)
  else do
    let k := if vma = k.vmaLastAccessed then { k with vmaLastAccessed := 0 } else k
    let k ← k.areaRemove vma
    let k ← k.areaDestroy vma
    let k ← k.areaInsert head
    let k ← k.areaInsert tail
    .ok (0, k)

/-- The loop of `unmap_pages` over the areas in the middle. -/
def middleLoop (vmaEnd : Nat) : Nat → VmaNode → Mm → Res Mm
  | 0, _, _ => .error .diverge
  | fuel + 1, n, k =>
    if n = .node vmaEnd then .ok k
    else
      match n with
      | .mmapList => .error .wild
      | .node a => do
        let k := if a = k.vmaLastAccessed then { k with vmaLastAccessed := 0 } else k
        let k ← k.areaRemove a
        let k ← k.areaDestroy a
        middleLoop vmaEnd fuel (← k.nextVma (.node a)) k

/-- `unmap_pages` across several areas. -/
def unmapAcross (k : Mm) (vmaStart vmaEnd vaddr vaddrEnd : Nat) : Res (Int × Mm) := do
  let k ← middleLoop vmaEnd vmaFuel (← k.nextVma (.node vmaStart)) k
  let v ← k.vma vmaStart
  let k := k.setArea vmaStart { v with stop := vaddr }
  let w ← k.vma vmaEnd
  let k := k.setArea vmaEnd { w with start := vaddrEnd }
  .ok (0, k)

/-- The last loop of `unmap_pages`; the counter `i` is an int. -/
def freeLoop (nrPages : Nat) : Nat → Nat → Nat → Mm → Res Mm
  | 0, _, _, _ => .error .overflow
  | fuel + 1, i, vaddr, k =>
    if i < nrPages then do
      let (p, k) ← k.archUnmapPage vaddr
      let pm ← k.heap.pm.pgfree p
      freeLoop nrPages fuel (i + 1) ((vaddr + pgsize) % 2 ^ 64) (k.setPm pm)
    else .ok k

/-- `unmap_pages` -/
def unmapPages (k : Mm) (vaddr nrPages : Nat) : Res (Int × Mm) :=
  if pageOff vaddr ≠ 0 then .error .assertion
  else do
    let (vmaStart, k) ← k.areaFind vaddr
    let vaddrEnd := (vaddr + nrPages * pgsize) % 2 ^ 64
    let (vmaEnd, k) ← k.areaFind ((vaddrEnd + 2 ^ 64 - 1) % 2 ^ 64)
    if vmaStart = 0 ∨ vmaEnd = 0 then .ok (-enoent, k)
    else do
      let (retcode, k) ← if vmaStart = vmaEnd then k.unmapInside vmaStart vaddr vaddrEnd
        else k.unmapAcross vmaStart vmaEnd vaddr vaddrEnd
      if retcode ≠ 0 then .ok (retcode, k)
      else do
        let k ← freeLoop nrPages (intMax + 1) 0 vaddr k
        .ok (0, k)

/-- `mm_create_uvm` -/
def createUvm (k : Mm) (addr len flags : Nat) : Res (Int × Mm) :=
  let start := pgaddrRounddown addr
  if len = 0 ∨ start = 0 then .ok (0, k)
  else do
    let (p, pm) ← k.heap.pm.allocPages (nrPagesSpanned addr len)
    let k := k.setPm pm
    match p with
    | none => .ok (-enomem, k)
    | some p => do
      let (retcode, k) ← k.mapPages start p flags
      if retcode = 0 then .ok (0, k)
      else do
        let pm ← k.heap.pm.freeAllPages p
        .ok (retcode, k.setPm pm)

/-- `mm_destroy_uvm` -/
def destroyUvm (k : Mm) (addr : Nat) : Res (Int × Mm) := do
  let (a, k) ← k.areaFind addr
  if a = 0 then .ok (0, k)
  else do
    let v ← k.vma a
    k.unmapPages v.start (nrPagesNeeded ((v.stop + 2 ^ 64 - v.start) % 2 ^ 64))

/-- The loop of `mm_destroy`. -/
def destroyLoop : Nat → VmaNode → Mm → Res Mm
  | _, .mmapList, k => .ok k
  | 0, .node _, _ => .error .diverge
  | fuel + 1, .node a, k => do
    let k ← k.areaRemove a
    let next ← k.nextVma (.node a)
    let k ← k.areaDestroy a
    destroyLoop fuel next k

/-- `mm_destroy` -/
def destroy (k : Mm) : Res Mm := do
  let root ← k.heap.pm.kvaddrToPage k.pgd
  let pm ← k.heap.pm.pgdirDelete root
  let k := k.setPm pm
  let k ← destroyLoop vmaFuel (k.link.next .mmapList) k
  let heap ← k.heap.kfree k.self
  .ok { k with heap := heap }

end Mm

/-- `mm_new`, on memory that holds `L`. It writes through the pointer before the test for NULL,
and nobody looks at what `new_arch_mm` returns. -/
def mmNew (heap : Heap) (cpu : Cpu) (L : Links VmaNode) : Res Mm := do
  let (mm, heap) ← heap.kmalloc 0 sizeofMm
  if mm = 0 then .error .wild
  else do
    let (pgd, pm) ← heap.pm.pgdirNew asidInvalid
    .ok { heap := { heap with pm := pm }
          cpu := cpu
          self := mm
          pgd := pgd.elim 0 pm.pageToKvaddr
          vmaLastAccessed := 0
          link := L.init .mmapList
          area := fun _ => none }

end Xv6
