import Xv6.PageAlloc

namespace Xv6

/-- `kmem_cache_t`; a slab is named by its page. -/
structure KmemCache where
  avail : Option Nat
  full : Option Nat
  size : Nat
  deriving DecidableEq, Repr

/-- The kernel heap: the pages, `kmcache_set`, and the list nodes in the slabs. -/
structure Heap where
  pm : PageMem
  kmcache : Nat → KmemCache
  lastAccessed : Option Nat
  slabLink : Links Nat

/-- `NR_SLAB_ORDERS` -/
def nrSlabOrders : Nat := pgshift - 1

def nrTinySizes : Nat := 8

def tinySizes : List Nat := [8, 16, 32, 64, 96, 128, 192, 256]

/-- `LARGE_CHUNK` -/
def largeChunk : Nat := pgsize >>> 1

/-- `INDEX_INVALID` in the memory of a chunk. -/
def indexInvalid : Nat := 2 ^ 32 - 1

/-- The position of the highest bit that is set, counted from 1. -/
def fls (x : Nat) : Nat := if x = 0 then 0 else Nat.log2 x + 1

/-- The table `lbound`. -/
def lboundTable : List Nat :=
  [8, 16, 24, 24, 40, 40, 40, 40, 72, 72, 72, 72, 104, 104, 104, 104,
    136, 136, 136, 136, 136, 136, 136, 136, 200, 200, 200, 200, 200, 200, 200, 200]

/-- `LBOUND` -/
def lbound (x : Nat) : Nat :=
  if 256 < x then (1 <<< (fls (x - 1) - 1)) + 8 else lboundTable.getD (x >>> 3 - 1) 0

/-- The word of an int, and back. -/
def intWord (i : Int) : Nat := (i % 2 ^ 32).toNat

def wordInt (w : Nat) : Int := if w < 2 ^ 31 then w else (w : Int) - 2 ^ 32

namespace Heap

/-- `KMCACHE_ALMOST_FIT`, for a cache that is not NULL. -/
def almostFit (h : Heap) (n c : Nat) : Bool := decide (lbound (h.kmcache c).size ≤ n ∧ n ≤ (h.kmcache c).size)

/-- `find_kmcache` -/
def findKmcache (h : Heap) (bytes : Nat) : Res (Nat × Heap) :=
  match h.lastAccessed.filter (h.almostFit bytes) with
  | some c => .ok (c, h)
  | none =>
    match (List.range nrSlabOrders).find? (h.almostFit bytes) with
    | some c => .ok (c, { h with lastAccessed := some c })
    | none => .error .panic

/-- The `slab` member of a page structure. -/
def slab (h : Heap) (p : Nat) : KmemSlab :=
  match (h.pm.page p).extra with
  | .slab s => s
  | _ => ⟨0, 0, 0, 0⟩

def setSlab (h : Heap) (p : Nat) (s : KmemSlab) : Heap :=
  { h with pm := h.pm.setPage p { h.pm.page p with extra := .slab s } }

def setAvail (h : Heap) (c : Nat) (p : Option Nat) : Heap :=
  { h with kmcache := Function.update h.kmcache c { h.kmcache c with avail := p } }

def setFull (h : Heap) (c : Nat) (p : Option Nat) : Heap :=
  { h with kmcache := Function.update h.kmcache c { h.kmcache c with full := p } }

def slabDelInit (h : Heap) (p : Nat) : Heap := { h with slabLink := h.slabLink.delInit p }

def slabAddBefore (h : Heap) (q p : Nat) : Heap := { h with slabLink := h.slabLink.addBefore q p }

/-- `set_slab_available` -/
def setSlabAvailable (h : Heap) (p : Nat) : Heap :=
  let next := h.slabLink.next p
  let c := (h.slab p).cache
  let h := h.slabDelInit p
  let h := if (h.kmcache c).full = some p then h.setFull c (if p = next then none else some next) else h
  match (h.kmcache c).avail with
  | none => h.setAvail c (some p)
  | some q => h.slabAddBefore q p

/-- `set_slab_full` -/
def setSlabFull (h : Heap) (p : Nat) : Heap :=
  let next := h.slabLink.next p
  let c := (h.slab p).cache
  let h := h.slabDelInit p
  let h := if (h.kmcache c).avail = some p then h.setAvail c (if p = next then none else some next) else h
  match (h.kmcache c).full with
  | none => h.setFull c (some p)
  | some q => h.slabAddBefore q p

/-- `set_slab_empty` -/
def setSlabEmpty (h : Heap) (p : Nat) : Res Heap :=
  let next := h.slabLink.next p
  let c := (h.slab p).cache
  let h := h.slabDelInit p
  let h := if (h.kmcache c).avail = some p then h.setAvail c (if p = next then none else some next) else h
  if (h.kmcache c).full = some p then .error .panic else .ok h

/-- The loop of `fill_slab`, from chunk `i` at `entry` on. -/
def fillChunks (size capacity : Nat) : Nat → Nat → Nat → ByteMem → ByteMem
  | 0, _, _, m => m
  | n + 1, i, entry, m =>
    fillChunks size capacity n (i + 1) (entry + size)
      (m.store entry 4 (if i = capacity - 1 then indexInvalid else i + 1))

/-- `fill_slab` -/
def fillSlab (h : Heap) (p size capacity : Nat) : Heap :=
  { h with pm := { h.pm with mem := fillChunks size capacity capacity 0 (h.pm.pageToKvaddr p) h.pm.mem } }

/-- `slab_new` -/
def slabNew (h : Heap) (c : Nat) : Res (Option Nat × Heap) := do
  let (p, pm) ← h.pm.allocPage
  match p with
  | none => .ok (none, { h with pm := pm })
  | some p =>
    let h := { h with pm := pm.setType p .slab, slabLink := h.slabLink.init p }
    let size := (h.kmcache c).size
    let capacity := pgsize * h.pm.pageCount p / size % 2 ^ 32
    let h := h.setSlab p ⟨c, 0, capacity, capacity⟩
    .ok (some p, h.setSlabAvailable p |>.fillSlab p size capacity)

/-- The first available slab of the cache, or a new one. -/
def findSlab (h : Heap) (c : Nat) : Res (Option Nat × Heap) :=
  match (h.kmcache c).avail with
  | some p => .ok (some p, h)
  | none => h.slabNew c

/-- `slab_alloc` once its slab is found: take the first free chunk and junk it. -/
def takeChunk (h : Heap) (p c bytes : Nat) : Res (Nat × Heap) :=
  let s := h.slab p
  if s.index < 0 then .error .assertion
  else
    let result := h.pm.pageToKvaddr p + s.index.toNat * (h.kmcache c).size
    let s := { s with index := wordInt (h.pm.mem.load result 4), count := (s.count + 2 ^ 32 - 1) % 2 ^ 32 }
    let h := h.setSlab p s
    let h := if s.count = 0 then h.setSlabFull p else h
    .ok (result, { h with pm := { h.pm with mem := h.pm.mem.fill result bytes 0x02 } })

/-- `slab_alloc`; the address 0 is NULL. -/
def slabAlloc (h : Heap) (bytes : Nat) : Res (Nat × Heap) := do
  let (c, h) ← h.findKmcache bytes
  let (p, h) ← h.findSlab c
  match p with
  | none => .ok (0, h)
  | some p => h.takeChunk p c bytes

/-- The chunk `index` goes in front of the free chunks of the slab. -/
def putChunk (h : Heap) (p index : Nat) : Heap :=
  let s := h.slab p
  let start := h.pm.pageToKvaddr p
  let h := { h with pm := { h.pm with mem := h.pm.mem.store (start + (h.kmcache s.cache).size * index) 4 (intWord s.index) } }
  h.setSlab p { s with index := index }

/-- `slab_free` -/
def slabFree (h : Heap) (ptr : Nat) : Res Heap := do
  let q ← h.pm.kvaddrToPage ptr
  let p := h.pm.firstPage q
  if (h.pm.page p).type = .slab then
    let index := (ptr - h.pm.pageToKvaddr p) / (h.kmcache (h.slab p).cache).size
    let h := h.putChunk p index
    let h := if (h.slab p).count = 0 then h.setSlabAvailable p else h
    let s := h.slab p
    let h := h.setSlab p { s with count := (s.count + 1) % 2 ^ 32 }
    if (h.slab p).count = (h.slab p).capacity then
      let h ← h.setSlabEmpty p
      let pm ← h.pm.pgfree (some p)
      .ok { h with pm := pm }
    else .ok h
  else .error .assertion

/-- The sizes `slab_bootstrap` gives to the caches. -/
def cacheSize (i : Nat) : Nat :=
  if i < nrTinySizes then tinySizes.getD i 0 else tinySizes.getD (nrTinySizes - 1) 0 * 2 ^ (i + 1 - nrTinySizes)

end Heap

/-- `slab_bootstrap`, over the pages and whatever the list nodes hold. -/
def slabBootstrap (pm : PageMem) (slabLink : Links Nat) : Heap where
  pm := pm
  kmcache i := { avail := none, full := none, size := Heap.cacheSize i }
  lastAccessed := none
  slabLink := slabLink

end Xv6
