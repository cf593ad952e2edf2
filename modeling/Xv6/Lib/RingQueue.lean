import Mathlib.Logic.Relation
import Xv6.Lib.Ring

namespace Links

variable {α : Type*}

/-- A queue without a node of its own: the head is a member, or NULL. -/
def IsQueue (L : Links α) (head : Option α) : List α → Prop
  | [] => head = none
  | a :: l => head = some a ∧ L.IsRing a l

theorem IsQueue.nodup {L : Links α} {head : Option α} {l : List α} (queue : L.IsQueue head l) : l.Nodup := by
  cases l with
  | nil => exact List.nodup_nil
  | cons a l => exact queue.2.2

theorem IsQueue.head {L : Links α} {head : Option α} {l : List α} (queue : L.IsQueue head l) : head = l.head? := by
  cases l with
  | nil => exact queue
  | cons a l => exact queue.1

/-- The node is met on the way along `next` from the head. -/
def Reached (L : Links α) (head : Option α) (x : α) : Prop :=
  ∃ a, head = some a ∧ Relation.ReflTransGen (fun y z => L.next y = z) a x

theorem Chain.reaches {L : Links α} {a b x : α} {l : List α} (chain : L.Chain a l b) (member : x ∈ a :: l) :
    Relation.ReflTransGen (fun y z => L.next y = z) a x := by
  induction l generalizing a with
  | nil =>
    obtain rfl := List.mem_singleton.mp member
    exact .refl
  | cons y l ih =>
    rcases List.mem_cons.mp member with rfl | later
    · exact .refl
    · exact .head chain.1.1 (ih chain.2 later)

theorem IsQueue.reached_iff {L : Links α} {head : Option α} {x : α} {l : List α} (queue : L.IsQueue head l) :
    L.Reached head x ↔ x ∈ l := by
  cases l with
  | nil =>
    rw [IsQueue] at queue
    simp [Reached, queue]
  | cons a l =>
    obtain ⟨rfl, ring⟩ := queue
    constructor
    · rintro ⟨b, same, path⟩
      obtain rfl := Option.some.inj same
      induction path with
      | refl => exact List.mem_cons_self ..
      | tail _ step ih => exact step ▸ ring.next_mem ih
    · intro member
      exact ⟨a, rfl, ring.1.reaches member⟩

theorem IsQueue.congr {L L' : Links α} {head : Option α} {l : List α} (queue : L.IsQueue head l)
    (same : ∀ y ∈ l, L.Same L' y) : L'.IsQueue head l := by
  cases l with
  | nil => exact queue
  | cons a l => exact ⟨queue.1, queue.2.congr same⟩

section

variable [DecidableEq α]

/-- The head after the node `n` was taken out. -/
def headWithout (L : Links α) (head : Option α) (n : α) : Option α :=
  if head = some n then if n = L.next n then none else some (L.next n) else head

theorem IsQueue.leave {L : Links α} {head : Option α} {n : α} {l : List α} (queue : L.IsQueue head l) (member : n ∈ l) :
    (L.delInit n).IsQueue (L.headWithout head n) (l.erase n) := by
  cases l with
  | nil => cases member
  | cons a l =>
    obtain ⟨rfl, ring⟩ := queue
    by_cases first : a = n
    · subst first
      rw [List.erase_cons_head, headWithout, if_pos rfl]
      cases l with
      | nil =>
        have alone : L.next a = a := ring.next_head
        rw [alone, if_pos rfl]
        rfl
      | cons x l =>
        have next : L.next a = x := ring.next_head
        have different : a ≠ x := fun same => (List.nodup_cons.mp ring.2).1 (by simp [same])
        rw [next, if_neg different]
        exact ⟨rfl, ring.delInit_head⟩
    · have inside : n ∈ l := (List.mem_cons.mp member).resolve_left (Ne.symm first)
      obtain ⟨front, back, rfl⟩ := List.append_of_mem inside
      have fresh : n ∉ front := fun early => by
        have parts := List.nodup_append.mp (List.nodup_cons.mp ring.2).2
        exact parts.2.2 n early n (by simp) rfl
      have other : ¬ some a = some n := fun same => first (Option.some.inj same)
      rw [headWithout, if_neg other, List.erase_cons_tail (by simpa using first), List.erase_append_right _ fresh,
        List.erase_cons_head]
      exact ⟨rfl, ring.delInit⟩

/-- A queue that the node is not in stays. -/
theorem IsQueue.leave_other {L : Links α} {head head' : Option α} {n : α} {l l' : List α} (queue : L.IsQueue head l)
    (member : n ∈ l) (other : L.IsQueue head' l') (apart : ∀ y ∈ l', y ∉ l) : (L.delInit n).IsQueue head' l' := by
  cases l with
  | nil => cases member
  | cons a l => exact other.congr fun y inside => delInit_same queue.2 member (apart y inside)

/-- The links after the node `n` was put at the end. -/
def joined (L : Links α) (head : Option α) (n : α) : Links α :=
  match head with
  | none => L
  | some a => L.addBefore a n

theorem IsQueue.join {L : Links α} {head : Option α} {n : α} {l : List α} (queue : L.IsQueue head l) (absent : n ∉ l)
    (alone : L.IsRing n []) : (L.joined head n).IsQueue (some (head.getD n)) (l ++ [n]) := by
  cases l with
  | nil =>
    obtain rfl : head = none := queue
    exact ⟨rfl, alone⟩
  | cons a l =>
    obtain ⟨rfl, ring⟩ := queue
    exact ⟨rfl, ring.addBefore_head absent⟩

theorem IsQueue.join_other {L : Links α} {head head' : Option α} {n : α} {l l' : List α} (queue : L.IsQueue head l)
    (other : L.IsQueue head' l') (apart : ∀ y ∈ l', y ∉ l ∧ y ≠ n) : (L.joined head n).IsQueue head' l' := by
  cases l with
  | nil =>
    obtain rfl : head = none := queue
    exact other
  | cons a l =>
    obtain ⟨rfl, ring⟩ := queue
    exact other.congr fun y inside => addBefore_same ring (by simp) (apart y inside).1 (apart y inside).2

/-- A family of queues with no node in common. -/
structure Queues {κ : Type*} (L : Links α) (head : κ → Option α) (queue : κ → List α) : Prop where
  isQueue : ∀ k, L.IsQueue (head k) (queue k)
  apart : ∀ j k x, x ∈ queue j → x ∈ queue k → j = k

variable {κ : Type*} [DecidableEq κ] {L : Links α} {head : κ → Option α} {queue : κ → List α} {k : κ} {n : α}

theorem Queues.leave (queues : L.Queues head queue) (member : n ∈ queue k) :
    (L.delInit n).Queues (Function.update head k (L.headWithout (head k) n))
      (Function.update queue k ((queue k).erase n)) where
  isQueue j := by
    by_cases same : j = k
    · subst same
      rw [Function.update_self, Function.update_self]
      exact (queues.isQueue j).leave member
    · rw [Function.update_of_ne same, Function.update_of_ne same]
      exact (queues.isQueue k).leave_other member (queues.isQueue j) fun y here there =>
        same (queues.apart j k y here there)
  apart := by
    have less : ∀ j x, x ∈ Function.update queue k ((queue k).erase n) j → x ∈ queue j := by
      intro j x inside
      by_cases same : j = k
      · subst same
        rw [Function.update_self] at inside
        exact List.mem_of_mem_erase inside
      · rwa [Function.update_of_ne same] at inside
    exact fun i j x left right => queues.apart i j x (less i x left) (less j x right)

theorem Queues.join (queues : L.Queues head queue) (absent : ∀ j, n ∉ queue j) (alone : L.IsRing n []) :
    (L.joined (head k) n).Queues (Function.update head k (some ((head k).getD n)))
      (Function.update queue k (queue k ++ [n])) where
  isQueue j := by
    by_cases same : j = k
    · subst same
      rw [Function.update_self, Function.update_self]
      exact (queues.isQueue j).join (absent j) alone
    · rw [Function.update_of_ne same, Function.update_of_ne same]
      refine (queues.isQueue k).join_other (queues.isQueue j) fun y here => ⟨?_, ?_⟩
      · exact fun there => same (queues.apart j k y here there)
      · rintro rfl
        exact absent j here
  apart := by
    have more : ∀ j x, x ∈ Function.update queue k (queue k ++ [n]) j → x ∈ queue j ∨ (j = k ∧ x = n) := by
      intro j x inside
      by_cases same : j = k
      · subst same
        rw [Function.update_self] at inside
        simpa using inside
      · rw [Function.update_of_ne same] at inside
        exact .inl inside
    intro i j x left right
    rcases more i x left with old | ⟨rfl, rfl⟩
    · rcases more j x right with old' | ⟨rfl, rfl⟩
      · exact queues.apart i j x old old'
      · exact absurd old (absent i)
    · rcases more j x right with old' | ⟨rfl, -⟩
      · exact absurd old' (absent j)
      · rfl

/-- The queues without the node. -/
theorem Queues.mem_erased (queues : L.Queues head queue) (member : n ∈ queue k) {j : κ} {x : α} :
    x ∈ Function.update queue k ((queue k).erase n) j ↔ x ≠ n ∧ x ∈ queue j := by
  by_cases same : j = k
  · subst same
    rw [Function.update_self, (queues.isQueue j).nodup.mem_erase_iff]
  · rw [Function.update_of_ne same]
    refine ⟨fun inside => ⟨?_, inside⟩, And.right⟩
    rintro rfl
    exact same (queues.apart j k x inside member)

/-- The queues with the node moved to the end of another one. -/
def moved (queue : κ → List α) (k k' : κ) (n : α) : κ → List α :=
  Function.update (Function.update queue k ((queue k).erase n)) k' (queue k' ++ [n])

theorem Queues.mem_moved (queues : L.Queues head queue) (member : n ∈ queue k) {k' j : κ} {x : α} (other : k ≠ k') :
    x ∈ moved queue k k' n j ↔ (x ≠ n ∧ x ∈ queue j) ∨ (x = n ∧ j = k') := by
  by_cases same : j = k'
  · subst same
    rw [moved, Function.update_self, List.mem_append, List.mem_singleton]
    by_cases here : x = n
    · simp [here]
    · simp [here]
  · rw [moved, Function.update_of_ne same, queues.mem_erased member]
    simp [same]

omit [DecidableEq κ] in
/-- A node that is in no queue may be unlinked again. -/
theorem Queues.unlink (queues : L.Queues head queue) (absent : ∀ j, n ∉ queue j) (alone : L.IsRing n []) :
    (L.delInit n).Queues head queue where
  isQueue j := (queues.isQueue j).congr fun y inside => delInit_same alone (by simp) (by
    rw [List.mem_singleton]
    rintro rfl
    exact absent j inside)
  apart := queues.apart

omit [DecidableEq κ] in
theorem Queues.init (queues : L.Queues head queue) (absent : ∀ j, n ∉ queue j) : (L.init n).Queues head queue where
  isQueue j := (queues.isQueue j).congr fun y inside => init_same L (by
    rintro rfl
    exact absent j inside)
  apart := queues.apart

end

end Links
