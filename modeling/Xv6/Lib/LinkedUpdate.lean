import Mathlib.Logic.Function.Basic
import Mathlib.Data.List.Basic

namespace Xv6

/-- Updates of words by load linked and store conditional. A word is extended to a register, and a register stored. -/
structure LinkedUpdate (ο α β ρ : Type*) where
  addr : ο → α
  extend : β → ρ
  modify : ο → ρ → ρ
  narrow : ρ → β

namespace LinkedUpdate

/-- Where a processor is in the loop of an update. -/
inductive Point (ο ρ : Type*)
  | idle
  | entry (op : ο)
  | loaded (op : ο) (tmp : ρ)
  | modified (op : ο) (tmp : ρ)
  | stored (op : ο) (done : Bool)

inductive Event (κ ο α β : Type*)
  | called (c : κ) (op : ο)
  | effect (c : κ) (op : ο)
  | returned (c : κ) (op : ο)
  | wrote (a : α) (v : β)

structure State (κ ο α β ρ : Type*) where
  mem : α → β
  link : κ → Option α
  point : κ → Point ο ρ

section Rounds

variable {κ ο α β ρ : Type*} [DecidableEq κ] {h : List (Event κ ο α β)} {s : State κ ο α β ρ}

/-- The processor of an event; the stores of others are nobody's. -/
def Event.cpu : Event κ ο α β → Option κ
  | .called c _ => some c
  | .effect c _ => some c
  | .returned c _ => some c
  | .wrote _ _ => none

/-- The events of one processor. -/
def own (c : κ) (h : List (Event κ ο α β)) : List (Event κ ο α β) := h.filter fun e => e.cpu = some c

/-- A call with its one effect. -/
def round (c : κ) (op : ο) : List (Event κ ο α β) := [.called c op, .effect c op, .returned c op]

/-- What a call that did not return has done yet. -/
def pending (c : κ) : Point ο ρ → List (Event κ ο α β)
  | .idle => []
  | .entry op => [.called c op]
  | .loaded op _ => [.called c op]
  | .modified op _ => [.called c op]
  | .stored op done => if done then [.called c op, .effect c op] else [.called c op]

theorem own_concat (c : κ) (h : List (Event κ ο α β)) (e : Event κ ο α β) :
    own c (h ++ [e]) = own c h ++ if e.cpu = some c then [e] else [] := by
  rw [own, List.filter_append, List.filter_singleton]
  by_cases mine : e.cpu = some c <;> simp [own, mine]

/-- The events of `c` are whole calls and the one it is in. -/
def Rounds (h : List (Event κ ο α β)) (c : κ) (point : Point ο ρ) : Prop :=
  ∃ ops : List ο, own c h = ops.flatMap (round c) ++ pending c point

/-- A step of `d` without an event. -/
theorem Rounds.silent {d : κ} {here there : Point ο ρ} (rounds : ∀ c, Rounds h c (s.point c)) (at_here : s.point d = here)
    (same : ∀ c : κ, (pending c there : List (Event κ ο α β)) = pending c here) : ∀ c, Rounds h c (Function.update s.point d there c) := by
  intro c
  obtain ⟨ops, whole⟩ := rounds c
  by_cases mine : c = d
  · subst mine
    rw [Function.update_self]
    exact ⟨ops, by rw [whole, at_here, same]⟩
  · rw [Function.update_of_ne mine]
    exact ⟨ops, whole⟩

/-- A step of `d` with an event. -/
theorem Rounds.event {d : κ} {e : Event κ ο α β} {there : Point ο ρ} (rounds : ∀ c, Rounds h c (s.point c)) (actor : e.cpu = some d)
    (mine : ∀ ops : List ο, own d h = ops.flatMap (round d) ++ pending d (s.point d) → Rounds (h ++ [e]) d there) :
    ∀ c, Rounds (h ++ [e]) c (Function.update s.point d there c) := by
  intro c
  obtain ⟨ops, whole⟩ := rounds c
  by_cases same : c = d
  · subst same
    rw [Function.update_self]
    exact mine ops whole
  · rw [Function.update_of_ne same]
    refine ⟨ops, ?_⟩
    rw [own_concat, actor, if_neg (fun equal => same (Option.some.inj equal).symm), List.append_nil, whole]

end Rounds

variable {κ ο α β ρ : Type*} [DecidableEq κ] [DecidableEq α]

/-- A store to an address takes it from whoever is linked to it. -/
def broken (link : κ → Option α) (a : α) (c : κ) : Option α := if link c = some a then none else link c

variable (U : LinkedUpdate ο α β ρ)

/-- The update in one go. -/
def apply (op : ο) (m : α → β) : α → β :=
  Function.update m (U.addr op) (U.narrow (U.modify op (U.extend (m (U.addr op)))))

/-- What the processors do, in any order: calls, their four instructions, and other stores. A link may be lost at any time,
and a store conditional may fail for no reason. -/
inductive Run (m₀ : α → β) : List (Event κ ο α β) → State κ ο α β ρ → Prop
  | start : Run m₀ [] ⟨m₀, fun _ => none, fun _ => .idle⟩
  | call {h : List (Event κ ο α β)} {s : State κ ο α β ρ} {c : κ} (op : ο) (before : Run m₀ h s) (here : s.point c = .idle) :
    Run m₀ (h ++ [.called c op]) { s with point := Function.update s.point c (.entry op) }
  | ll {h : List (Event κ ο α β)} {s : State κ ο α β ρ} {c : κ} {op : ο} (before : Run m₀ h s) (here : s.point c = .entry op) :
    Run m₀ h { s with
      link := Function.update s.link c (some (U.addr op))
      point := Function.update s.point c (.loaded op (U.extend (s.mem (U.addr op)))) }
  | modify {h : List (Event κ ο α β)} {s : State κ ο α β ρ} {c : κ} {op : ο} {tmp : ρ} (before : Run m₀ h s)
    (here : s.point c = .loaded op tmp) :
    Run m₀ h { s with point := Function.update s.point c (.modified op (U.modify op tmp)) }
  | sc {h : List (Event κ ο α β)} {s : State κ ο α β ρ} {c : κ} {op : ο} {tmp : ρ} (before : Run m₀ h s)
    (here : s.point c = .modified op tmp) (linked : s.link c = some (U.addr op)) :
    Run m₀ (h ++ [.effect c op]) {
      mem := Function.update s.mem (U.addr op) (U.narrow tmp)
      link := broken s.link (U.addr op)
      point := Function.update s.point c (.stored op true) }
  | fail {h : List (Event κ ο α β)} {s : State κ ο α β ρ} {c : κ} {op : ο} {tmp : ρ} (before : Run m₀ h s)
    (here : s.point c = .modified op tmp) :
    Run m₀ h { s with link := Function.update s.link c none, point := Function.update s.point c (.stored op false) }
  | again {h : List (Event κ ο α β)} {s : State κ ο α β ρ} {c : κ} {op : ο} (before : Run m₀ h s)
    (here : s.point c = .stored op false) : Run m₀ h { s with point := Function.update s.point c (.entry op) }
  | return {h : List (Event κ ο α β)} {s : State κ ο α β ρ} {c : κ} {op : ο} (before : Run m₀ h s)
    (here : s.point c = .stored op true) :
    Run m₀ (h ++ [.returned c op]) { s with point := Function.update s.point c .idle }
  | lose {h : List (Event κ ο α β)} {s : State κ ο α β ρ} (c : κ) (before : Run m₀ h s) :
    Run m₀ h { s with link := Function.update s.link c none }
  | write {h : List (Event κ ο α β)} {s : State κ ο α β ρ} (a : α) (v : β) (before : Run m₀ h s) :
    Run m₀ (h ++ [.wrote a v]) { s with mem := Function.update s.mem a v, link := broken s.link a }

/-- The memory after the events, each in one go. -/
def replayEvent (m : α → β) : Event κ ο α β → α → β
  | .effect _ op => U.apply op m
  | .wrote a v => Function.update m a v
  | _ => m

def replay (m : α → β) (h : List (Event κ ο α β)) : α → β := h.foldl U.replayEvent m

/-- A register in the loop is good for a store while the link lasts. -/
def Good (m : α → β) (link : Option α) : Point ο ρ → Prop
  | .loaded op tmp => link = some (U.addr op) → tmp = U.extend (m (U.addr op))
  | .modified op tmp => link = some (U.addr op) → tmp = U.modify op (U.extend (m (U.addr op)))
  | _ => True

variable {U} {m m' m₀ : α → β} {link : κ → Option α} {point : Point ο ρ} {h : List (Event κ ο α β)} {s : State κ ο α β ρ} {c : κ}

omit [DecidableEq κ] [DecidableEq α] in
theorem Good.unlinked : U.Good m none point := by
  cases point <;> first | exact trivial | exact fun linked => by cases linked

omit [DecidableEq κ] in
theorem Good.broken {a : α} {v : β} (good : U.Good m (link c) point) :
    U.Good (Function.update m a v) (broken link a c) point := by
  rw [LinkedUpdate.broken]
  split
  · exact .unlinked
  · rename_i other
    have away : ∀ op, link c = some (U.addr op) → Function.update m a v (U.addr op) = m (U.addr op) := by
      intro op linked
      refine Function.update_of_ne (fun same => other ?_) _ _
      rw [linked, same]
    cases point with
    | loaded op tmp =>
      intro linked
      rw [away op linked]
      exact good linked
    | modified op tmp =>
      intro linked
      rw [away op linked]
      exact good linked
    | _ => exact trivial

omit [DecidableEq α] in
/-- One step of `c` leaves the others as they are. -/
theorem Good.at {here : Point ο ρ} (good : ∀ d, U.Good m (s.link d) (s.point d)) (mine : U.Good m (s.link c) here) :
    ∀ d, U.Good m (s.link d) (Function.update s.point c here d) := by
  intro d
  by_cases same : d = c
  · rw [same, Function.update_self]
    exact mine
  · rw [Function.update_of_ne same]
    exact good d

theorem Run.good (run : U.Run m₀ h s) : ∀ d, U.Good s.mem (s.link d) (s.point d) := by
  induction run with
  | start => exact fun _ => trivial
  | call op before here ih => exact Good.at ih trivial
  | @ll h s c op before here ih =>
    intro d
    by_cases same : d = c
    · rw [same]
      simp only [Function.update_self]
      exact fun _ => rfl
    · simp only [Function.update_of_ne same]
      exact ih d
  | @modify h s c op tmp before here ih =>
    refine Good.at ih fun linked => ?_
    have loaded := ih c
    rw [here] at loaded
    rw [loaded linked]
  | @sc h s c op tmp before here linked ih =>
    intro d
    by_cases same : d = c
    · rw [same]
      simp only [Function.update_self]
      exact trivial
    · simp only [Function.update_of_ne same]
      exact (ih d).broken
  | @fail h s c op tmp before here ih =>
    intro d
    by_cases same : d = c
    · rw [same]
      simp only [Function.update_self]
      exact trivial
    · simp only [Function.update_of_ne same]
      exact ih d
  | again before here ih => exact Good.at ih trivial
  | «return» before here ih => exact Good.at ih trivial
  | @lose h s c before ih =>
    intro d
    by_cases same : d = c
    · rw [same]
      simp only [Function.update_self]
      exact .unlinked
    · simp only [Function.update_of_ne same]
      exact ih d
  | write a v before ih => exact fun d => (ih d).broken

/-- The memory is what the events make of it one after the other. -/
theorem Run.replay (run : U.Run m₀ h s) : s.mem = U.replay m₀ h := by
  induction run with
  | start => rfl
  | call op before here ih => rw [LinkedUpdate.replay, List.foldl_concat]; exact ih
  | ll before here ih => exact ih
  | modify before here ih => exact ih
  | @sc h s c op tmp before here linked ih =>
    have modified := before.good c
    rw [here] at modified
    rw [LinkedUpdate.replay, List.foldl_concat, ← LinkedUpdate.replay, ← ih, replayEvent, apply, modified linked]
  | fail before here ih => exact ih
  | again before here ih => exact ih
  | «return» before here ih => rw [LinkedUpdate.replay, List.foldl_concat]; exact ih
  | lose c before ih => exact ih
  | write a v before ih => rw [LinkedUpdate.replay, List.foldl_concat, ← LinkedUpdate.replay, ← ih, replayEvent]

/-- Every call takes effect once, between its invocation and its return. -/
theorem Run.rounds (run : U.Run m₀ h s) : ∀ c, Rounds h c (s.point c) := by
  induction run with
  | start => exact fun c => ⟨[], rfl⟩
  | @call h s c op before here ih =>
    refine Rounds.event ih rfl fun ops whole => ⟨ops, ?_⟩
    rw [own_concat, whole, here]
    simp [Event.cpu, pending]
  | ll before here ih => exact Rounds.silent ih here fun _ => rfl
  | modify before here ih => exact Rounds.silent ih here fun _ => rfl
  | @sc h s c op tmp before here linked ih =>
    refine Rounds.event ih rfl fun ops whole => ⟨ops, ?_⟩
    rw [own_concat, whole, here]
    simp [Event.cpu, pending]
  | fail before here ih => exact Rounds.silent ih here fun _ => rfl
  | again before here ih => exact Rounds.silent ih here fun _ => rfl
  | @«return» h s c op before here ih =>
    refine Rounds.event ih rfl fun ops whole => ⟨ops ++ [op], ?_⟩
    rw [own_concat, whole, here]
    simp [Event.cpu, pending, round]
  | lose c before ih => exact ih
  | write a v before ih =>
    intro c
    obtain ⟨ops, whole⟩ := ih c
    exact ⟨ops, by rw [own_concat, whole]; simp [Event.cpu]⟩

end LinkedUpdate

end Xv6
