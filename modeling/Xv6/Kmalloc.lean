import Xv6.PageContRuns
import Xv6.Slab

namespace Xv6

/-- `ROUNDUP` on an unsigned long. -/
def roundup (x d : Nat) : Nat := (x + d + 2 ^ 64 - 1) % 2 ^ 64 / d * d % 2 ^ 64

/-- `ALIGN` -/
def kmallocAlign : Nat := 8

namespace Heap

/-- `kmalloc_large`; the search for the pages runs on fuel. -/
def kmallocLarge (fuel : Nat) (h : Heap) (bytes : Nat) : Res (Nat × Heap) := do
  let (p, pm) ← h.pm.allocContPages fuel (nrPagesNeeded bytes)
  match p with
  | none => .ok (0, { h with pm := pm })
  | some p => .ok (pm.pageToKvaddr p, { h with pm := pm.setType p .generic })

/-- `kmalloc`; the address 0 is NULL. -/
def kmalloc (fuel : Nat) (h : Heap) (bytes : Nat) : Res (Nat × Heap) :=
  let bytes := roundup bytes kmallocAlign
  if largeChunk < bytes then h.kmallocLarge fuel bytes else h.slabAlloc bytes

/-- `kfree_large` -/
def kfreeLarge (h : Heap) (ptr : Nat) : Res Heap := do
  let q ← h.pm.kvaddrToPage ptr
  let pm ← h.pm.freeAllPages q
  .ok { h with pm := pm }

/-- `kfree` -/
def kfree (h : Heap) (ptr : Nat) : Res Heap :=
  if ptr = 0 then .ok h
  else do
    let q ← h.pm.kvaddrToPage ptr
    if (h.pm.page (h.pm.firstPage q)).type = .slab then h.slabFree ptr else h.kfreeLarge ptr

end Heap

end Xv6
