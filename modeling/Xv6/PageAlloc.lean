import Xv6.Machine

namespace Xv6

/-- The `type` field of a page structure. -/
inductive PageType
  | tail | generic | pgstruct | pgdir | slab
  deriving DecidableEq, Repr

/-- `struct kmem_slab`, less its list node. -/
structure KmemSlab where
  cache : Nat
  index : Int
  count : Nat
  capacity : Nat
  deriving DecidableEq, Repr

/-- The union in `struct page`: writing one member loses the others. -/
inductive PageExtra
  | firstPage (p : Nat)
  | pgdir (entries asid : Nat)
  | slab (s : KmemSlab)
  deriving DecidableEq, Repr

/-- `struct page`, less its list node. Of `flags` only `PAGE_RESERVED` is used. -/
structure Page where
  pageCount : Nat
  reserved : Bool
  type : PageType
  extra : PageExtra
  deriving DecidableEq, Repr

/-- The list nodes of the page allocator: the head of the free list and the
node inside every page structure. -/
inductive PageNode
  | freeList
  | page (p : Nat)
  deriving DecidableEq, Repr

/-- The physical pages: `page_array` (pages are named by their index in it), the
list nodes, the free page counter and the memory seen through `KERNBASE`. -/
structure PageMem where
  highmemBasePfn : Nat
  nrPages : Nat
  page : Nat → Page
  link : Links PageNode
  nrFreePages : Nat
  mem : ByteMem

namespace PageMem

def pageToPfn (s : PageMem) (p : Nat) : Nat := p + s.highmemBasePfn

def pageToPaddr (s : PageMem) (p : Nat) : Nat := s.pageToPfn p <<< pgshift

def pageToKvaddr (s : PageMem) (p : Nat) : Nat := s.pageToPaddr p + kernbase

def pfnToPage (s : PageMem) (n : Nat) : Res Nat :=
  if n < s.highmemBasePfn then .error .panic else .ok (n - s.highmemBasePfn)

/-- The page of NULL is NULL, and every use of that is a wild access. -/
def kvaddrToPage (s : PageMem) (kvaddr : Nat) : Res Nat :=
  if kvaddr = 0 then .error .wild else s.pfnToPage ((kvaddr - kernbase) >>> pgshift)

def setPage (s : PageMem) (p : Nat) (v : Page) : PageMem :=
  { s with page := Function.update s.page p v }

def reservePage (s : PageMem) (p : Nat) : PageMem :=
  s.setPage p { s.page p with reserved := true }

def releasePage (s : PageMem) (p : Nat) : PageMem :=
  s.setPage p { s.page p with reserved := false }

def setType (s : PageMem) (p : Nat) (t : PageType) : PageMem :=
  s.setPage p { s.page p with type := t }

def setFirstPage (s : PageMem) (p first : Nat) : PageMem :=
  s.setPage p { s.page p with extra := .firstPage first }

/-- Stored into an unsigned int. -/
def setPageCount (s : PageMem) (p count : Nat) : PageMem :=
  s.setPage p { s.page p with pageCount := count % 2 ^ 32 }

def pageDelete (s : PageMem) (p : Nat) : PageMem :=
  { s with link := s.link.delInit (.page p) }

def pageAddBefore (s : PageMem) (x : PageNode) (p : Nat) : PageMem :=
  { s with link := s.link.addBefore x (.page p) }

def decFree (s : PageMem) : PageMem := { s with nrFreePages := s.nrFreePages - 1 }

def incFree (s : PageMem) : PageMem := { s with nrFreePages := s.nrFreePages + 1 }

/-- `shred_page`: fill the page with the junk byte. -/
def shredPage (s : PageMem) (p : Nat) : PageMem :=
  { s with mem := s.mem.fill (s.pageToKvaddr p) pgsize 0x01 }

def shredAndReleasePage (s : PageMem) (p : Nat) : PageMem := (s.shredPage p).releasePage p

def isTail (s : PageMem) (p : Nat) : Bool := (s.page p).type == .tail

/-- `first_page` of a page that is no tail is the page itself. -/
def firstPage (s : PageMem) (p : Nat) : Nat :=
  if s.isTail p then
    match (s.page p).extra with
    | .firstPage f => f
    | _ => 0
  else p

def pageCount (s : PageMem) (p : Nat) : Nat := (s.page (s.firstPage p)).pageCount

def nextPage (s : PageMem) (p : Nat) : PageNode := s.link.next (.page p)

/-- `alloc_pages`: `i` pages are still wanted, `p` is the next free page. -/
def allocLoop : Nat → PageNode → Option Nat → PageMem → Res (Option Nat × PageMem)
  | 0, _, pfirst, s => .ok (pfirst, s)
  | _ + 1, .freeList, _, _ => .error .wild
  | i + 1, .page p, pfirst, s =>
    let np := s.nextPage p
    if (s.page p).reserved then .error .panic
    else
      let s := (s.reservePage p).pageDelete p
      match pfirst with
      | none => allocLoop i np (some p) s.decFree
      | some f =>
        allocLoop i np (some f)
          (((s.pageAddBefore (.page f) p).setType p .tail).setFirstPage p f).decFree

/-- With `num = 0` no first page is found and the code writes through NULL. -/
def allocPages (s : PageMem) (num : Nat) : Res (Option Nat × PageMem) :=
  if s.nrFreePages < num then .ok (none, s)
  else do
    let (pfirst, s) ← allocLoop num (s.link.next .freeList) none s
    match pfirst with
    | none => .error .wild
    | some f => .ok (some f, (s.setType f .generic).setPageCount f num)

def allocPage (s : PageMem) : Res (Option Nat × PageMem) := s.allocPages 1

/-- The cursor of `free_all_pages` moves to the first free page that is not
below `p`. -/
def seekFree (s : PageMem) (p : Nat) : Nat → PageNode → Res PageNode
  | 0, _ => .error .diverge
  | _ + 1, .freeList => .ok .freeList
  | fuel + 1, .page q =>
    if q < p then s.seekFree p fuel (s.nextPage q) else .ok (.page q)

/-- A bound on the length of every list of pages. -/
def fuel (s : PageMem) : Nat := s.nrPages + 1

def freeLoop : Nat → PageNode → PageNode → PageMem → Res PageMem
  | 0, _, _, s => .ok s
  | _ + 1, .freeList, _, _ => .error .wild
  | i + 1, .page p, freep, s => do
    let np := s.nextPage p
    let s := s.pageDelete p
    let freep ← s.seekFree p s.fuel freep
    if freep = .page p ∨ (s.page p).reserved = false then .error .assertion
    else
      let s := ((s.shredAndReleasePage p).pageAddBefore freep p).incFree
      freeLoop i np freep s

def freeAllPages (s : PageMem) (fp : Nat) : Res PageMem :=
  freeLoop (s.pageCount fp) (.page (s.firstPage fp)) (s.link.next .freeList) s

/-- The length of the part of the set that lies in front of `base`. -/
def headLen (s : PageMem) (base : Nat) : Nat → PageNode → Nat → Res Nat
  | 0, _, _ => .error .diverge
  | _ + 1, .freeList, _ => .error .wild
  | fuel + 1, .page p, n =>
    if p = base then .ok n
    else if (s.page p).reserved then s.headLen base fuel (s.nextPage p) (n + 1)
    else .error .assertion

/-- The page behind the `num` pages that are to be freed. -/
def findLast (s : PageMem) (first base : Nat) : Nat → PageNode → Res PageNode
  | 0, last => .ok last
  | _ + 1, .freeList => .error .wild
  | i + 1, .page last =>
    if (last ≠ first ∨ last = base) ∧ (s.page last).reserved then
      s.findLast first base i (s.nextPage last)
    else .error .assertion

/-- The body of `update_page_list`. -/
def retag (s : PageMem) (q start count : Nat) : PageMem :=
  if s.isTail q then s.setFirstPage q start else s.setPageCount q count

/-- The macro `update_page_list`, from page `i` on. -/
def updatePageList (start : Nat) (stop : PageNode) (count : Nat) : Nat → PageNode → PageMem → Res PageMem
  | 0, _, _ => .error .diverge
  | fuel + 1, i, s =>
    if i = stop then .ok s
    else
      match i with
      | .freeList => .error .wild
      | .page q =>
        let s := s.retag q start count
        updatePageList start stop count fuel (s.nextPage q) s

/-- `page_split`, with the two assertions of `list_split`. -/
def pageSplit (s : PageMem) (first prev next : PageNode) : Res PageMem :=
  if s.link.next prev = next ∧ s.link.prev next = prev then
    .ok { s with link := s.link.split first prev next }
  else .error .assertion

/-- The pages from `p` on become a list of their own, unless `p` is the first page. -/
def splitBefore (s : PageMem) (first p : Nat) : Res PageMem :=
  if p ≠ first then s.pageSplit (.page first) (s.link.prev (.page p)) (.page p) else .ok s

/-- `free_pages` of a page that is not NULL. -/
def freePagesFrom (s : PageMem) (base num : Nat) : Res (Option Nat × PageMem) := do
  let fuel := s.fuel
  let first := s.firstPage base
  let total := s.pageCount first
  let headLen ← s.headLen base fuel (.page first) 0
  match ← s.findLast first base num (.page base) with
  | .freeList => .error .wild
  | .page last =>
    let t := (s.page first).type
    let s := (s.setType base t).setType last t
    let s ← updatePageList first (.page base) headLen fuel (.page first) s
    let s ← updatePageList base (.page last) num fuel (.page base) s
    let s ← updatePageList last (.page first) ((total + 2 ^ 65 - headLen - num) % 2 ^ 64) fuel
      (.page last) s
    let s ← s.splitBefore first last
    let s ← s.splitBefore first base
    let s ← s.freeAllPages base
    .ok (some last, s)

def freePages (s : PageMem) (base : Option Nat) (num : Nat) : Res (Option Nat × PageMem) :=
  match base with
  | none => .ok (none, s)
  | some base => if num = 0 then .ok (none, s) else s.freePagesFrom base num

/-- `pgfree` -/
def pgfree (s : PageMem) (p : Option Nat) : Res PageMem := do
  let (_, s) ← s.freePages p 1
  .ok s

/-- The search of `alloc_cont_pages`. It has no bound of its own, so it runs on
fuel; `i` is an unsigned long and may wrap below 0. The free list head taken as
a page is adjacent to no page. -/
def contSearch (s : PageMem) (num : Nat) : Nat → Nat → PageNode → PageNode → Res (Nat × PageNode)
  | 0, _, _, _ => .error .diverge
  | fuel + 1, i, p, np =>
    if 0 < i ∨ np = .freeList then
      let p := np
      let np := s.link.next p
      let adjacent := match p with
        | .freeList => false
        | .page q => np == .page (q + 1)
      let i := if 1 < i ∧ adjacent = false ∧ np ≠ .freeList then num else (i + 2 ^ 64 - 1) % 2 ^ 64
      s.contSearch num fuel i p np
    else .ok (i, p)

/-- Take the pages from `p` downwards; below the first page there is none. -/
def takeCont : Nat → PageNode → Option Nat → PageMem → Res (Option Nat × PageMem)
  | 0, _, pfirst, s => .ok (pfirst, s)
  | _ + 1, .freeList, _, _ => .error .wild
  | i + 1, .page p, pfirst, s =>
    let s := (s.reservePage p).pageDelete p
    let s := match pfirst with
      | none => s
      | some f => s.pageAddBefore (.page f) p
    takeCont i (if p = 0 then .freeList else .page (p - 1)) (some p) s.decFree

def tagTails (pfirst : Nat) : Nat → PageNode → PageMem → Res (PageNode × PageMem)
  | 0, p, s => .ok (p, s)
  | _ + 1, .freeList, _ => .error .wild
  | i + 1, .page p, s =>
    let s := (s.setType p .tail).setFirstPage p pfirst
    tagTails pfirst i (s.nextPage p) s

def allocContPages (fuel : Nat) (s : PageMem) (num : Nat) : Res (Option Nat × PageMem) :=
  if s.nrFreePages < num then .ok (none, s)
  else do
    let (i, p) ← s.contSearch num fuel num .freeList (s.link.next .freeList)
    if 0 < i then .ok (none, s)
    else
      let (pfirst, s) ← takeCont num p none s
      match pfirst with
      | none => .error .wild
      | some f =>
        let (p, s) ← tagTails f (num - 1) (s.nextPage f) s
        if p = .page f then .ok (some f, (s.setType f .generic).setPageCount f num)
        else .error .assertion

end PageMem

/-- `sizeof(struct page)` -/
def sizeofPage : Nat := 72

/-- The pages that hold the page structures. `nr_pages` counts 16K pages of a
64-bit address space, so the product does not wrap. -/
def pageArrayPages (nrPages : Nat) : Nat := nrPagesNeeded (nrPages * sizeofPage)

def initLinks (L : Links PageNode) : Nat → Links PageNode
  | 0 => L
  | n + 1 => (initLinks L n).init (.page n)

/-- `list_add_before(free_page_list, ..)` for `n` pages from `i` on. -/
def initFreePageList (L : Links PageNode) (i : Nat) : Nat → Links PageNode
  | 0 => L
  | n + 1 => (initFreePageList L i n).addBefore .freeList (.page (i + n))

/-- `init_page_array` on a machine whose high memory starts at `base` and holds
`L` and `mem`. -/
def initPageArray (base nrPages : Nat) (L : Links PageNode) (mem : ByteMem) : PageMem :=
  let nrOccupied := pageArrayPages nrPages
  let zero : Page := { pageCount := 0, reserved := false, type := .generic, extra := .firstPage 0 }
  { highmemBasePfn := base
    nrPages := nrPages
    page := fun p => if p < nrOccupied then { zero with reserved := true, type := .pgstruct } else zero
    link := initFreePageList ((initLinks L nrPages).init .freeList) nrOccupied (nrPages - nrOccupied)
    nrFreePages := nrPages - nrOccupied
    mem := mem }

end Xv6
