import Xv6.PageAlloc
import Mathlib.Data.List.Sort
import Mathlib.Data.List.Perm.Basic
import Mathlib.Data.List.Range
import Mathlib.Data.List.Perm.Subperm
import Mathlib.Tactic.Tauto

namespace Xv6

/-- The node at which a list of pages starts; the list is entered from and ends
at the head of the free list. -/
def firstNode : List Nat → PageNode
  | [] => .freeList
  | p :: _ => .page p

theorem firstNode_eq (l : List Nat) :
    ((l.map PageNode.page) ++ [PageNode.freeList]).head (by simp) = firstNode l := by
  cases l <;> rfl

theorem mem_map_page {l : List Nat} {p : Nat} : PageNode.page p ∈ l.map PageNode.page ↔ p ∈ l := by
  simp

theorem sorted_nodup {l : List Nat} (sorted : l.Pairwise (· < ·)) : l.Nodup :=
  sorted.imp (fun lt => Nat.ne_of_lt lt)

/-- Two ascending lists with the same members are equal. -/
theorem sorted_ext {l r : List Nat} (left : l.Pairwise (· < ·)) (right : r.Pairwise (· < ·))
    (same : ∀ p, p ∈ l ↔ p ∈ r) : l = r := by
  have perm : l.Perm r := (List.perm_ext_iff_of_nodup (sorted_nodup left) (sorted_nodup right)).mpr same
  exact perm.eq_of_pairwise (fun a b _ _ lt gt => absurd lt (Nat.lt_asymm gt)) left right

theorem sorted_length_le {l : List Nat} {n : Nat} (sorted : l.Pairwise (· < ·))
    (bound : ∀ p ∈ l, p < n) : l.length ≤ n := by
  have sub : l.Subperm (List.range n) :=
    List.subperm_of_subset (sorted_nodup sorted) (fun p member => List.mem_range.mpr (bound p member))
  simpa using sub.length_le

namespace PageMem

/-- The geometry of the machine: where high memory starts and how much there is. -/
structure SameGeometry (s s' : PageMem) : Prop where
  base : s'.highmemBasePfn = s.highmemBasePfn
  pages : s'.nrPages = s.nrPages

theorem SameGeometry.refl (s : PageMem) : SameGeometry s s := ⟨rfl, rfl⟩

theorem SameGeometry.trans {s s' s'' : PageMem} (first : SameGeometry s s') (second : SameGeometry s' s'') :
    SameGeometry s s'' :=
  ⟨second.base.trans first.base, second.pages.trans first.pages⟩

theorem SameGeometry.kvaddr {s s' : PageMem} (geometry : SameGeometry s s') (p : Nat) :
    s'.pageToKvaddr p = s.pageToKvaddr p := by
  simp only [pageToKvaddr, pageToPaddr, pageToPfn, geometry.base]

theorem pageToKvaddr_eq (s : PageMem) (p : Nat) :
    s.pageToKvaddr p = (p + s.highmemBasePfn) * 16384 + 0x9800000000000000 := by
  simp only [pageToKvaddr, pageToPaddr, pageToPfn, pgshift, kernbase, Nat.shiftLeft_eq]

/-- Every address inside a page leads back to its page structure. -/
theorem kvaddrToPage_eq (s : PageMem) {p off : Nat} (inside : off < 16384) :
    s.kvaddrToPage (s.pageToKvaddr p + off) = .ok p := by
  have pfn : (s.pageToKvaddr p + off - kernbase) >>> pgshift = p + s.highmemBasePfn := by
    simp only [pageToKvaddr_eq, kernbase, pgshift, Nat.shiftRight_eq_div_pow]
    omega
  have address : s.pageToKvaddr p + off ≠ 0 := by
    rw [pageToKvaddr_eq]
    omega
  rw [kvaddrToPage, if_neg address, pfn, pfnToPage, if_neg (by omega)]
  simp

/-- The two states have the same structure, list node and contents for page `p`. -/
structure Agree (s s' : PageMem) (p : Nat) : Prop where
  page : s'.page p = s.page p
  link : s.link.Same s'.link (.page p)
  mem : ∀ x, s.pageToKvaddr p ≤ x → x < s.pageToKvaddr p + 16384 → s'.mem x = s.mem x

theorem Agree.refl (s : PageMem) (p : Nat) : s.Agree s p := ⟨rfl, Links.Same.refl _ _, fun _ _ _ => rfl⟩

theorem Agree.trans {s s' s'' : PageMem} {p : Nat} (geometry : SameGeometry s s')
    (first : s.Agree s' p) (second : s'.Agree s'' p) : s.Agree s'' p := by
  refine ⟨second.page.trans first.page, first.link.trans second.link, ?_⟩
  intro x lower upper
  have there := second.mem x (by rwa [geometry.kvaddr]) (by rwa [geometry.kvaddr])
  exact there.trans (first.mem x lower upper)

/-- The free list: `l` in ascending order, counted, none of it reserved. -/
structure FreeList (s : PageMem) (l : List Nat) : Prop where
  ring : s.link.IsRing .freeList (l.map .page)
  sorted : l.Pairwise (· < ·)
  count : s.nrFreePages = l.length
  unreserved : ∀ p ∈ l, (s.page p).reserved = false
  bound : ∀ p ∈ l, p < s.nrPages

/-- An allocated set: the ring of its pages from its first page `f`, ascending;
the others are tails that know `f`. The counter is an unsigned int. -/
structure AllocSet (s : PageMem) (f : Nat) (tl : List Nat) : Prop where
  ring : s.link.IsRing (.page f) (tl.map .page)
  sorted : (f :: tl).Pairwise (· < ·)
  reserved : ∀ p ∈ f :: tl, (s.page p).reserved = true
  bound : ∀ p ∈ f :: tl, p < s.nrPages
  head : (s.page f).type ≠ .tail
  count : (s.page f).pageCount = (tl.length + 1) % 2 ^ 32
  tails : ∀ p ∈ tl, (s.page p).type = .tail ∧ (s.page p).extra = .firstPage f

theorem FreeList.unique {s : PageMem} {l r : List Nat} (left : FreeList s l) (right : FreeList s r) :
    l = r :=
  List.map_injective_iff.mpr (fun _ _ same => PageNode.page.inj same) (left.ring.unique right.ring)

theorem FreeList.length_le {s : PageMem} {l : List Nat} (free : FreeList s l) : l.length ≤ s.nrPages :=
  sorted_length_le free.sorted free.bound

/-- A reserved page is not free. -/
theorem FreeList.not_mem {s : PageMem} {l : List Nat} {p : Nat} (free : FreeList s l) (reserved : (s.page p).reserved = true) :
    p ∉ l := by
  intro inFree
  rw [free.unreserved p inFree] at reserved
  cases reserved

theorem FreeList.first {s : PageMem} {l : List Nat} (free : FreeList s l) :
    s.link.next .freeList = firstNode l := by
  rw [free.ring.next_head, firstNode_eq]

theorem AllocSet.frame {s s' : PageMem} {f : Nat} {tl : List Nat} (set : AllocSet s f tl)
    (geometry : SameGeometry s s') (agree : ∀ p ∈ f :: tl, s.Agree s' p) : AllocSet s' f tl where
  ring := by
    refine set.ring.congr ?_
    intro y member
    rcases List.mem_cons.mp member with rfl | inside
    · exact (agree f (by simp)).link
    · obtain ⟨p, inTail, rfl⟩ := List.mem_map.mp inside
      exact (agree p (by simp [inTail])).link
  sorted := set.sorted
  reserved p member := by rw [(agree p member).page]; exact set.reserved p member
  bound p member := by rw [geometry.pages]; exact set.bound p member
  head := by rw [(agree f (by simp)).page]; exact set.head
  count := by rw [(agree f (by simp)).page]; exact set.count
  tails p member := by rw [(agree p (by simp [member])).page]; exact set.tails p member

theorem AllocSet.firstPage_eq {s : PageMem} {f p : Nat} {tl : List Nat} (set : AllocSet s f tl)
    (member : p ∈ f :: tl) : s.firstPage p = f := by
  rcases List.mem_cons.mp member with rfl | inTail
  · simp [PageMem.firstPage, isTail, set.head]
  · obtain ⟨type, extra⟩ := set.tails p inTail
    simp [PageMem.firstPage, isTail, type, extra]

/-- Allocated sets that share a page are the same set. -/
theorem AllocSet.unique {s : PageMem} {f g p : Nat} {tl rest : List Nat} (left : AllocSet s f tl)
    (right : AllocSet s g rest) (inLeft : p ∈ f :: tl) (inRight : p ∈ g :: rest) :
    f = g ∧ tl = rest := by
  have heads : f = g := (left.firstPage_eq inLeft).symm.trans (right.firstPage_eq inRight)
  subst heads
  exact ⟨rfl, List.map_injective_iff.mpr (fun _ _ same => PageNode.page.inj same)
    (left.ring.unique right.ring)⟩

theorem AllocSet.disjoint_free {s : PageMem} {f p : Nat} {tl l : List Nat} (set : AllocSet s f tl)
    (free : FreeList s l) (member : p ∈ f :: tl) : p ∉ l := free.not_mem (set.reserved p member)

theorem AllocSet.pageCount_eq {s : PageMem} {f p : Nat} {tl : List Nat} (set : AllocSet s f tl)
    (member : p ∈ f :: tl) : s.pageCount p = (tl.length + 1) % 2 ^ 32 := by
  rw [PageMem.pageCount, set.firstPage_eq member, set.count]

theorem AllocSet.length_le {s : PageMem} {f : Nat} {tl : List Nat} (set : AllocSet s f tl) :
    tl.length + 1 ≤ s.nrPages :=
  sorted_length_le set.sorted set.bound

end PageMem

end Xv6
