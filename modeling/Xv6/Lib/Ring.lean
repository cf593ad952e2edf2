import Mathlib.Data.List.Basic
import Mathlib.Data.List.Nodup
import Mathlib.Logic.Function.Basic
import Mathlib.Tactic.Tauto
import Mathlib.Tactic.SplitIfs

/-- The two pointer fields of every node of an intrusive doubly linked
circular list. Several rings live in one `Links`; a node alone is a ring. -/
structure Links (α : Type*) where
  next : α → α
  prev : α → α

namespace Links

variable {α : Type*} [DecidableEq α]

def init (L : Links α) (l : α) : Links α :=
  { next := Function.update L.next l l, prev := Function.update L.prev l l }

/-- The four stores of an insertion of `node` in front of `l`, in their order. -/
def addBefore (L : Links α) (l node : α) : Links α :=
  let p := L.prev l
  let prev := Function.update L.prev node p
  let next := Function.update L.next node l
  { next := Function.update next p node, prev := Function.update prev l node }

def delInit (L : Links α) (node : α) : Links α :=
  let p := L.prev node
  let n := L.next node
  let next := Function.update L.next p n
  let prev := Function.update L.prev n p
  { next := Function.update next node node, prev := Function.update prev node node }

/-- Cut the ring between `prev` and `next`; the neighbours are checked by the
caller. The two closing pairs of stores are in their order. -/
def split (L : Links α) (first prev next : α) : Links α :=
  let last := L.prev first
  let prevs := Function.update L.prev first prev
  let nexts := Function.update L.next prev first
  { next := Function.update nexts last next, prev := Function.update prevs next last }

/-- Two rings become one. -/
def concat (L : Links α) (list₁ list₂ : α) : Links α :=
  let last₁ := L.prev list₁
  let last₂ := L.prev list₂
  let next := Function.update L.next last₁ list₂
  let prev := Function.update L.prev list₂ last₁
  { next := Function.update next last₂ list₁, prev := Function.update prev list₁ last₂ }

/-- `next` leads from `a` through the nodes of the list to `b`, and `prev`
leads back. -/
def Chain (L : Links α) : α → List α → α → Prop
  | a, [], b => L.next a = b ∧ L.prev b = a
  | a, x :: xs, b => (L.next a = x ∧ L.prev x = a) ∧ L.Chain x xs b

/-- The ring that starts at `h` and goes on through `l`. -/
def IsRing (L : Links α) (h : α) (l : List α) : Prop :=
  L.Chain h l h ∧ (h :: l).Nodup

/-- Both pointers of `y` are the same in the two heaps. -/
def Same (L L' : Links α) (y : α) : Prop :=
  L'.next y = L.next y ∧ L'.prev y = L.prev y

omit [DecidableEq α] in
theorem Same.refl (L : Links α) (y : α) : L.Same L y := ⟨rfl, rfl⟩

omit [DecidableEq α] in
theorem Same.trans {L L' L'' : Links α} {y : α} (first : L.Same L' y) (second : L'.Same L'' y) :
    L.Same L'' y :=
  ⟨second.1.trans first.1, second.2.trans first.2⟩

omit [DecidableEq α] in
theorem chain_append {L : Links α} {a x b : α} {l r : List α} :
    L.Chain a (l ++ x :: r) b ↔ L.Chain a l x ∧ L.Chain x r b := by
  induction l generalizing a with
  | nil => rfl
  | cons y ys ih => simp only [List.cons_append, Chain, ih, and_assoc]

omit [DecidableEq α] in
/-- A chain reads `next` on its nodes but the last and `prev` on all but the first. -/
theorem Chain.congr {L L' : Links α} {a b : α} {l : List α} (chain : L.Chain a l b)
    (nexts : ∀ y ∈ a :: l, L'.next y = L.next y) (prevs : ∀ y ∈ l ++ [b], L'.prev y = L.prev y) :
    L'.Chain a l b := by
  induction l generalizing a with
  | nil =>
    obtain ⟨forward, backward⟩ := chain
    exact ⟨(nexts a (by simp)).trans forward, (prevs b (by simp)).trans backward⟩
  | cons x xs ih =>
    obtain ⟨⟨forward, backward⟩, rest⟩ := chain
    refine ⟨⟨(nexts a (by simp)).trans forward, (prevs x (by simp)).trans backward⟩, ih rest ?_ ?_⟩
    · intro y member
      exact nexts y (List.mem_cons_of_mem _ member)
    · intro y member
      exact prevs y (List.mem_cons_of_mem _ member)

omit [DecidableEq α] in
theorem IsRing.congr {L L' : Links α} {h : α} {l : List α} (ring : L.IsRing h l)
    (same : ∀ y ∈ h :: l, L.Same L' y) : L'.IsRing h l := by
  refine ⟨ring.1.congr (fun y member => (same y member).1) ?_, ring.2⟩
  intro y member
  exact (same y (by simpa [or_comm] using member)).2

omit [DecidableEq α] in
/-- A ring can be entered at any of its nodes. -/
theorem isRing_rotate {L : Links α} {a b : α} {l r : List α} :
    L.IsRing a (l ++ b :: r) ↔ L.IsRing b (r ++ a :: l) := by
  have perm : (a :: (l ++ b :: r)).Perm (b :: (r ++ a :: l)) := by
    have swap : (a :: l ++ b :: r).Perm (b :: r ++ a :: l) := List.perm_append_comm
    simpa using swap
  simp only [IsRing, chain_append, perm.nodup_iff]
  tauto

omit [DecidableEq α] in
theorem IsRing.next_head {L : Links α} {h : α} {l : List α} (ring : L.IsRing h l) :
    L.next h = (l ++ [h]).head (by simp) := by
  cases l with
  | nil => exact ring.1.1
  | cons x xs => exact ring.1.1.1

omit [DecidableEq α] in
theorem IsRing.next_mid {L : Links α} {h x : α} {l r : List α} (ring : L.IsRing h (l ++ x :: r)) :
    L.next x = (r ++ [h]).head (by simp) := by
  have turned := (isRing_rotate.mp ring).next_head
  cases r with
  | nil => simpa using turned
  | cons y ys => simpa using turned

omit [DecidableEq α] in
theorem Chain.next_getElem {L : Links α} {a b : α} {l : List α} (chain : L.Chain a l b) {i : Nat}
    (bound : i < (a :: l).length) : L.next (a :: l)[i] = (l ++ [b]).get ⟨i, by rw [List.length_append]; exact bound⟩ := by
  induction l generalizing a i with
  | nil =>
    obtain rfl : i = 0 := by simpa using bound
    exact chain.1
  | cons x xs ih =>
    cases i with
    | zero => exact chain.1.1
    | succ i => exact ih chain.2 (by simpa using bound)

omit [DecidableEq α] in
/-- `next` goes around the ring. -/
theorem IsRing.next_getElem {L : Links α} {h : α} {l : List α} (ring : L.IsRing h l) (i : Nat) :
    L.next ((h :: l).get ⟨i % (l.length + 1), Nat.mod_lt _ (Nat.succ_pos _)⟩) =
      (h :: l).get ⟨(i + 1) % (l.length + 1), Nat.mod_lt _ (Nat.succ_pos _)⟩ := by
  have bound : i % (l.length + 1) < l.length + 1 := Nat.mod_lt _ (Nat.succ_pos _)
  have step : (i + 1) % (l.length + 1) = if i % (l.length + 1) = l.length then 0 else i % (l.length + 1) + 1 := by
    rw [← Nat.mod_add_mod]
    split
    · rename_i last
      rw [last, Nat.mod_self]
    · exact Nat.mod_eq_of_lt (by omega)
  have next := ring.1.next_getElem bound
  simp only [List.get_eq_getElem] at next ⊢
  rw [next]
  by_cases last : i % (l.length + 1) = l.length
  · simp [last, step]
  · have inner : i % (l.length + 1) < l.length := by omega
    simp [last, step, List.getElem_append_left inner]

omit [DecidableEq α] in
/-- `prev` of the entry node is the last node. -/
theorem IsRing.prev_head {L : Links α} {h : α} {l : List α} (ring : L.IsRing h l) :
    L.prev h = (h :: l).getLast (by simp) := by
  rcases List.eq_nil_or_concat l with rfl | ⟨front, z, rfl⟩
  · exact ring.1.2
  · obtain ⟨_, last⟩ := chain_append.mp (by simpa using ring.1 : L.Chain h (front ++ z :: []) h)
    simpa using last.2

omit [DecidableEq α] in
theorem IsRing.prev_mid {L : Links α} {h x : α} {l r : List α} (ring : L.IsRing h (l ++ x :: r)) :
    L.prev x = (h :: l).getLast (by simp) := by
  have turned := (isRing_rotate.mp ring).prev_head
  simpa [List.getLast_append] using turned

omit [DecidableEq α] in
theorem IsRing.next_mem {L : Links α} {h x : α} {l : List α} (ring : L.IsRing h l)
    (member : x ∈ h :: l) : L.next x ∈ h :: l := by
  rcases List.mem_cons.mp member with rfl | inside
  · rw [ring.next_head]
    rcases List.mem_append.mp (List.head_mem (l := l ++ [x]) (by simp)) with old | last
    · exact List.mem_cons_of_mem _ old
    · simp at last; simp [last]
  · obtain ⟨front, back, rfl⟩ := List.append_of_mem inside
    rw [ring.next_mid]
    have found := List.head_mem (l := back ++ [h]) (by simp)
    rcases List.mem_append.mp found with old | last
    · simp [old]
    · simp at last; simp [last]

omit [DecidableEq α] in
theorem IsRing.prev_mem {L : Links α} {h x : α} {l : List α} (ring : L.IsRing h l)
    (member : x ∈ h :: l) : L.prev x ∈ h :: l := by
  rcases List.mem_cons.mp member with rfl | inside
  · rw [ring.prev_head]
    exact List.getLast_mem _
  · obtain ⟨front, back, rfl⟩ := List.append_of_mem inside
    rw [ring.prev_mid]
    have found := List.getLast_mem (l := h :: front) (by simp)
    rcases List.mem_cons.mp found with same | old
    · simp [same]
    · simp [old]

omit [DecidableEq α] in
theorem IsRing.next_prev_head {L : Links α} {h : α} {l : List α} (ring : L.IsRing h l) :
    L.next (L.prev h) = h := by
  rw [ring.prev_head]
  rcases List.eq_nil_or_concat l with rfl | ⟨front, z, rfl⟩
  · exact ring.next_head
  · have last := (by simpa using ring : L.IsRing h (front ++ z :: [])).next_mid
    simpa using last

omit [DecidableEq α] in
/-- The ring entered at one of its nodes. -/
theorem IsRing.enter {L : Links α} {h x : α} {l : List α} (ring : L.IsRing h l) (member : x ∈ h :: l) :
    ∃ r, L.IsRing x r := by
  rcases List.mem_cons.mp member with rfl | inside
  · exact ⟨l, ring⟩
  · obtain ⟨a, b, rfl⟩ := List.append_of_mem inside
    exact ⟨b ++ h :: a, isRing_rotate.mp ring⟩

omit [DecidableEq α] in
theorem IsRing.prev_next {L : Links α} {h x : α} {l : List α} (ring : L.IsRing h l) (member : x ∈ h :: l) :
    L.prev (L.next x) = x := by
  obtain ⟨r, entered⟩ := ring.enter member
  cases r with
  | nil => rw [entered.1.1, entered.1.2]
  | cons y r => rw [entered.1.1.1, entered.1.1.2]

omit [DecidableEq α] in
theorem IsRing.next_prev {L : Links α} {h x : α} {l : List α} (ring : L.IsRing h l) (member : x ∈ h :: l) :
    L.next (L.prev x) = x := by
  obtain ⟨r, entered⟩ := ring.enter member
  exact entered.next_prev_head

omit [DecidableEq α] in
/-- The nodes after the entry are determined by the heap and the entry. -/
theorem IsRing.unique {L : Links α} {h : α} {l r : List α} (left : L.IsRing h l)
    (right : L.IsRing h r) : l = r := by
  -- Both lists list the successors of `h` up to the return to `h`.
  have key : ∀ (a : α) (l r : List α), L.Chain a l h → L.Chain a r h → h ∉ l → h ∉ r → l = r := by
    intro a l
    induction l generalizing a with
    | nil =>
      intro r chainL chainR _ absent
      cases r with
      | nil => rfl
      | cons x xs => exact absurd (by simp [← chainL.1, chainR.1.1]) absent
    | cons y ys ih =>
      intro r chainL chainR absentL absentR
      cases r with
      | nil => exact absurd (by simp [← chainR.1, chainL.1.1]) absentL
      | cons x xs =>
        have same : y = x := chainL.1.1.symm.trans chainR.1.1
        subst same
        rw [ih y xs chainL.2 chainR.2 (fun m => absentL (List.mem_cons_of_mem _ m))
          (fun m => absentR (List.mem_cons_of_mem _ m))]
  exact key h l r left.1 right.1 (List.nodup_cons.mp left.2).1 (List.nodup_cons.mp right.2).1

theorem init_ring (L : Links α) (l : α) : (L.init l).IsRing l [] := by
  simp [IsRing, Chain, init]

theorem init_same (L : Links α) {l y : α} (other : y ≠ l) : L.Same (L.init l) y := by
  simp [Same, init, other]

/-- Insertion in front of the entry node appends at the end. -/
theorem IsRing.addBefore_head {L : Links α} {h n : α} {l : List α} (ring : L.IsRing h l)
    (fresh : n ∉ h :: l) : (L.addBefore h n).IsRing h (l ++ [n]) := by
  have last := ring.prev_head
  have nh : n ≠ h := fun same => fresh (by simp [same])
  have lastMem : L.prev h ∈ h :: l := ring.prev_mem (by simp)
  have lastNe : L.prev h ≠ n := fun same => fresh (same ▸ lastMem)
  have nodup : (h :: (l ++ [n])).Nodup := by
    have perm : (h :: (l ++ [n])).Perm (n :: h :: l) := by
      have swap : (h :: l ++ [n]).Perm ([n] ++ h :: l) := List.perm_append_comm
      simpa using swap
    exact perm.nodup_iff.mpr (List.nodup_cons.mpr ⟨fresh, ring.2⟩)
  refine ⟨?_, nodup⟩
  rcases List.eq_nil_or_concat l with rfl | ⟨front, z, rfl⟩
  · have self : L.prev h = h := by simpa using last
    simp [Chain, addBefore, self, nh]
  · have zlast : L.prev h = z := by simpa using last
    obtain ⟨toZ, _⟩ := chain_append.mp (by simpa using ring.1 : L.Chain h (front ++ z :: []) h)
    simp only [List.concat_eq_append, List.append_assoc, List.cons_append, List.nil_append]
    have zn : z ≠ n := zlast ▸ lastNe
    have distinct : (h :: (front ++ [z])).Nodup := by simpa using ring.2
    have freshFront : n ∉ front := fun m => fresh (by simp [m])
    have hFront : h ∉ front ++ [z] := (List.nodup_cons.mp distinct).1
    have zFront : z ∉ h :: front := by
      have parts := List.nodup_append.mp (by simpa using distinct : (h :: front ++ [z]).Nodup)
      exact fun m => parts.2.2 z m z (by simp) rfl
    refine chain_append.mpr ⟨toZ.congr ?_ ?_, ?_⟩
    · intro y member
      have yz : y ≠ z := fun same => zFront (same ▸ member)
      have yn : y ≠ n := by
        rintro rfl
        rcases List.mem_cons.mp member with same | old
        · exact nh same
        · exact freshFront old
      simp [addBefore, zlast, yz, yn]
    · intro y member
      have yn : y ≠ n := by
        rintro rfl
        rcases List.mem_append.mp member with old | last
        · exact freshFront old
        · simp at last; exact zn last.symm
      have yh : y ≠ h := fun same => hFront (same ▸ member)
      simp [addBefore, yn, yh]
    · simp [Chain, addBefore, zlast, nh, zn.symm]

/-- Insertion in front of any node of the ring. The node in front of which
`n` goes is the first of the second half, or the entry node. -/
theorem IsRing.addBefore {L : Links α} {h n : α} {l r : List α} (ring : L.IsRing h (l ++ r))
    (fresh : n ∉ h :: (l ++ r)) :
    (L.addBefore ((r ++ [h]).head (by simp)) n).IsRing h (l ++ n :: r) := by
  cases r with
  | nil => simpa using (by simpa using ring : L.IsRing h l).addBefore_head (by simpa using fresh)
  | cons x xs =>
    have turned := isRing_rotate.mp ring
    have absent : n ∉ x :: (xs ++ h :: l) := by
      intro member
      apply fresh
      simp only [List.mem_cons, List.mem_append] at member ⊢
      tauto
    have added := turned.addBefore_head absent
    have back : (L.addBefore x n).IsRing x (xs ++ h :: (l ++ [n])) := by simpa using added
    simpa using isRing_rotate.mpr back

theorem addBefore_same {L : Links α} {h x n y : α} {l : List α} (ring : L.IsRing h l)
    (member : x ∈ h :: l) (other : y ∉ h :: l) (notNew : y ≠ n) : L.Same (L.addBefore x n) y := by
  have yx : y ≠ x := fun same => other (same ▸ member)
  have yp : y ≠ L.prev x := fun same => other (same ▸ ring.prev_mem member)
  simp [Same, Links.addBefore, yx, yp, notNew]

/-- Deleting the entry node leaves the others, entered at the next one. -/
theorem IsRing.delInit_head {L : Links α} {n x : α} {l : List α} (ring : L.IsRing n (x :: l)) :
    (L.delInit n).IsRing x l := by
  have nx : L.next n = x := ring.1.1.1
  have last := ring.prev_head
  have distinct := ring.2
  have nxl : n ∉ x :: l := (List.nodup_cons.mp distinct).1
  have neX : x ≠ n := fun same => nxl (by simp [same])
  refine ⟨?_, (List.nodup_cons.mp distinct).2⟩
  rcases List.eq_nil_or_concat l with rfl | ⟨front, z, rfl⟩
  · have self : L.prev n = x := by simpa using last
    simp [Chain, delInit, nx, self, neX]
  · have zlast : L.prev n = z := by simpa using last
    obtain ⟨toZ, _⟩ := chain_append.mp (by simpa using ring.1.2 : L.Chain x (front ++ z :: []) n)
    have zn : z ≠ n := fun same => nxl (by simp [same])
    have distinctX : (x :: (front ++ [z])).Nodup := by simpa using (List.nodup_cons.mp distinct).2
    have zFront : z ∉ x :: front := by
      have parts := List.nodup_append.mp (by simpa using distinctX : (x :: front ++ [z]).Nodup)
      exact fun m => parts.2.2 z m z (by simp) rfl
    have xFront : x ∉ front ++ [z] := (List.nodup_cons.mp distinctX).1
    simp only [List.concat_eq_append]
    refine chain_append.mpr ⟨toZ.congr ?_ ?_, ?_⟩
    · intro y member
      have yz : y ≠ z := fun same => zFront (same ▸ member)
      have yn : y ≠ n := by
        rintro rfl
        apply nxl
        simp only [List.mem_cons] at member ⊢
        rcases member with same | old
        · exact .inl same
        · exact .inr (by simp [old])
      simp [delInit, zlast, nx, yz, yn]
    · intro y member
      have yx : y ≠ x := fun same => xFront (same ▸ member)
      have yn : y ≠ n := by
        rintro rfl
        exact nxl (List.mem_cons_of_mem _ (by simpa using member))
      simp [delInit, nx, yx, yn]
    · simp [Chain, delInit, zlast, nx, neX, zn]

theorem IsRing.delInit {L : Links α} {h n : α} {l r : List α} (ring : L.IsRing h (l ++ n :: r)) :
    (L.delInit n).IsRing h (l ++ r) := by
  have turned := isRing_rotate.mp ring
  cases r with
  | nil => simpa using turned.delInit_head
  | cons x xs =>
    exact isRing_rotate.mpr (by simpa using turned : L.IsRing n (x :: (xs ++ h :: l))).delInit_head

/-- The deleted node is a ring of its own. -/
theorem delInit_ring (L : Links α) (n : α) : (L.delInit n).IsRing n [] := by
  simp [IsRing, Chain, Links.delInit]

theorem delInit_same {L : Links α} {h n y : α} {l : List α} (ring : L.IsRing h l)
    (member : n ∈ h :: l) (other : y ∉ h :: l) : L.Same (L.delInit n) y := by
  have yn : y ≠ n := fun same => other (same ▸ member)
  have ynext : y ≠ L.next n := fun same => other (same ▸ ring.next_mem member)
  have yprev : y ≠ L.prev n := fun same => other (same ▸ ring.prev_mem member)
  simp [Same, Links.delInit, yn, ynext, yprev]

/-- A node taken out of one ring and put at the end of another. -/
theorem IsRing.move {L : Links α} {h f n : α} {l r m : List α} (source : L.IsRing h (l ++ n :: r))
    (target : L.IsRing f m) (disjoint : ∀ y ∈ h :: (l ++ n :: r), y ∉ f :: m) :
    ((L.delInit n).addBefore f n).IsRing h (l ++ r) ∧
      ((L.delInit n).addBefore f n).IsRing f (m ++ [n]) := by
  have nNew : n ∉ f :: m := disjoint n (by simp)
  have kept : (L.delInit n).IsRing f m :=
    target.congr (fun y member => delInit_same source (by simp) (fun old => disjoint y old member))
  have distinct := (isRing_rotate.mp source).2
  have nOld : n ∉ h :: (l ++ r) := by
    have absent := (List.nodup_cons.mp distinct).1
    intro member
    apply absent
    simp only [List.mem_cons, List.mem_append] at member ⊢
    tauto
  refine ⟨source.delInit.congr ?_, kept.addBefore_head nNew⟩
  intro y member
  have inSource : y ∈ h :: (l ++ n :: r) := by
    simp only [List.mem_cons, List.mem_append] at member ⊢
    tauto
  exact addBefore_same kept (by simp) (disjoint y inSource) (fun same => nOld (same ▸ member))

theorem move_same {L : Links α} {h f n y : α} {l r m : List α} (source : L.IsRing h (l ++ n :: r))
    (target : L.IsRing f m) (disjoint : ∀ y ∈ h :: (l ++ n :: r), y ∉ f :: m)
    (outSource : y ∉ h :: (l ++ n :: r)) (outTarget : y ∉ f :: m) :
    L.Same ((L.delInit n).addBefore f n) y := by
  have kept : (L.delInit n).IsRing f m :=
    target.congr (fun y member => delInit_same source (by simp) (fun old => disjoint y old member))
  exact (delInit_same source (by simp) outSource).trans
    (addBefore_same kept (by simp) outTarget (fun same => outSource (by simp [same])))

/-- Splitting the ring in front of `x` gives two rings. -/
theorem IsRing.split {L : Links α} {h x : α} {l r : List α} (ring : L.IsRing h (l ++ x :: r)) :
    (L.split h ((h :: l).getLast (by simp)) x).IsRing h l ∧
      (L.split h ((h :: l).getLast (by simp)) x).IsRing x r := by
  have distinct := ring.2
  obtain ⟨toX, toH⟩ := chain_append.mp ring.1
  have whole : (h :: l ++ x :: r).Nodup := by simpa using distinct
  have parts := List.nodup_append.mp whole
  have last : L.prev h = (x :: r).getLast (by simp) := by
    rw [ring.prev_head]
    simp
  have lastMem : L.prev h ∈ x :: r := last ▸ List.getLast_mem _
  generalize hp : (h :: l).getLast (by simp) = p
  have pMem : p ∈ h :: l := hp ▸ List.getLast_mem _
  have xOut : x ∉ h :: l := fun m => parts.2.2 x m x (by simp) rfl
  have hOut : h ∉ x :: r := fun m => parts.2.2 h (by simp) h m rfl
  have pq : p ≠ L.prev h := fun same => parts.2.2 p pMem (L.prev h) lastMem same
  have hx : h ≠ x := fun same => xOut (by simp [← same])
  -- In each half only the closing pair of pointers is new.
  have close : ∀ (a b : α) (m : List α) (L' : Links α), L.Chain a m b → (a :: m).Nodup →
      a ∉ m → L'.next ((a :: m).getLast (by simp)) = a → L'.prev a = (a :: m).getLast (by simp) →
      (∀ y ∈ a :: m, y ≠ (a :: m).getLast (by simp) → L'.next y = L.next y) →
      (∀ y ∈ m, L'.prev y = L.prev y) → L'.Chain a m a := by
    intro a b m L' chain nodup absent forward backward nexts prevs
    rcases List.eq_nil_or_concat m with rfl | ⟨front, z, rfl⟩
    · exact ⟨by simpa using forward, by simpa using backward⟩
    · simp only [List.concat_eq_append] at chain nodup absent forward backward nexts prevs ⊢
      have zlast : (a :: (front ++ [z])).getLast (by simp) = z := by simp
      simp only [zlast] at forward backward nexts
      obtain ⟨toZ, _⟩ := chain_append.mp (by simpa using chain : L.Chain a (front ++ z :: []) b)
      refine chain_append.mpr ⟨toZ.congr ?_ ?_, ⟨forward, backward⟩⟩
      · intro y member
        refine nexts y ?_ ?_
        · rcases List.mem_cons.mp member with same | old
          · simp [same]
          · simp [old]
        · rintro rfl
          have halves := List.nodup_append.mp (by simpa using nodup : (a :: front ++ [y]).Nodup)
          exact halves.2.2 y member y (by simp) rfl
      · exact prevs
  constructor
  · refine ⟨close h x l _ toX parts.1 (List.nodup_cons.mp parts.1).1 ?_ ?_ ?_ ?_, parts.1⟩
    · simp [Links.split, hp, pq]
    · simp [Links.split, hp, hx]
    · intro y member notLast
      have yp : y ≠ p := by simpa [hp] using notLast
      have yq : y ≠ L.prev h := fun same => parts.2.2 y member (L.prev h) lastMem same
      simp [Links.split, yp, yq]
    · intro y member
      have yh : y ≠ h := fun same => (List.nodup_cons.mp parts.1).1 (same ▸ member)
      have yx : y ≠ x := fun same => xOut (same ▸ List.mem_cons_of_mem _ member)
      simp [Links.split, yh, yx]
  · refine ⟨close x h r _ toH parts.2.1 (List.nodup_cons.mp parts.2.1).1 ?_ ?_ ?_ ?_, parts.2.1⟩
    · simp [Links.split, last]
    · simp [Links.split, last]
    · intro y member notLast
      have yq : y ≠ L.prev h := by rw [last]; exact notLast
      have yp : y ≠ p := fun same => parts.2.2 p pMem y member same.symm
      simp [Links.split, yp, yq]
    · intro y member
      have yh : y ≠ h := fun same => hOut (same ▸ List.mem_cons_of_mem _ member)
      have yx : y ≠ x := fun same => (List.nodup_cons.mp parts.2.1).1 (same ▸ member)
      simp [Links.split, yh, yx]

theorem split_same {L : Links α} {h x y : α} {l r : List α} (ring : L.IsRing h (l ++ x :: r))
    (other : y ∉ h :: (l ++ x :: r)) :
    L.Same (L.split h ((h :: l).getLast (by simp)) x) y := by
  have yh : y ≠ h := fun same => other (by simp [same])
  have yx : y ≠ x := fun same => other (by simp [same])
  have yq : y ≠ L.prev h := fun same => other (same ▸ ring.prev_mem (by simp))
  have yp : y ≠ (h :: l).getLast (by simp) := by
    intro same
    have found := List.getLast_mem (l := h :: l) (by simp)
    rw [← same] at found
    apply other
    rcases List.mem_cons.mp found with eq | old
    · simp [eq]
    · simp [old]
  simp [Same, Links.split, yh, yx, yq, yp]

/-- Both pointers of the nodes in `P` lead to nodes in `P`. -/
def Closed (L : Links α) (P : α → Prop) : Prop := ∀ y, P y → P (L.next y) ∧ P (L.prev y)

/-- An operation on nodes of a closed set keeps it closed and touches no other node. -/
def KeepsTo (L L' : Links α) (P : α → Prop) : Prop := L'.Closed P ∧ ∀ y, ¬ P y → L.Same L' y

theorem Closed.addBefore {L : Links α} {P : α → Prop} (closed : L.Closed P) {l n : α} (here : P l) (new : P n) :
    L.KeepsTo (L.addBefore l n) P := by
  have before := (closed l here).2
  refine ⟨fun y inside => ⟨?_, ?_⟩, fun y outside => ?_⟩
  · simp only [Links.addBefore, Function.update_apply]
    split_ifs
    · exact new
    · exact here
    · exact (closed y inside).1
  · simp only [Links.addBefore, Function.update_apply]
    split_ifs
    · exact new
    · exact before
    · exact (closed y inside).2
  · have yl : y ≠ l := fun same => outside (same ▸ here)
    have yn : y ≠ n := fun same => outside (same ▸ new)
    have yp : y ≠ L.prev l := fun same => outside (same ▸ before)
    simp [Same, Links.addBefore, yl, yn, yp]

theorem Closed.delInit {L : Links α} {P : α → Prop} (closed : L.Closed P) {n : α} (here : P n) :
    L.KeepsTo (L.delInit n) P := by
  obtain ⟨after, before⟩ := closed n here
  refine ⟨fun y inside => ⟨?_, ?_⟩, fun y outside => ?_⟩
  · simp only [Links.delInit, Function.update_apply]
    split_ifs
    · exact here
    · exact after
    · exact (closed y inside).1
  · simp only [Links.delInit, Function.update_apply]
    split_ifs
    · exact here
    · exact before
    · exact (closed y inside).2
  · have yn : y ≠ n := fun same => outside (same ▸ here)
    have ya : y ≠ L.next n := fun same => outside (same ▸ after)
    have yb : y ≠ L.prev n := fun same => outside (same ▸ before)
    simp [Same, Links.delInit, yn, ya, yb]

theorem Closed.concat {L : Links α} {P : α → Prop} (closed : L.Closed P) {a b : α} (left : P a) (right : P b) :
    L.KeepsTo (L.concat a b) P := by
  have lastLeft := (closed a left).2
  have lastRight := (closed b right).2
  refine ⟨fun y inside => ⟨?_, ?_⟩, fun y outside => ?_⟩
  · simp only [Links.concat, Function.update_apply]
    split_ifs
    · exact left
    · exact right
    · exact (closed y inside).1
  · simp only [Links.concat, Function.update_apply]
    split_ifs
    · exact lastRight
    · exact lastLeft
    · exact (closed y inside).2
  · have ya : y ≠ a := fun same => outside (same ▸ left)
    have yb : y ≠ b := fun same => outside (same ▸ right)
    have yl : y ≠ L.prev a := fun same => outside (same ▸ lastLeft)
    have yr : y ≠ L.prev b := fun same => outside (same ▸ lastRight)
    simp [Same, Links.concat, ya, yb, yl, yr]

end Links
