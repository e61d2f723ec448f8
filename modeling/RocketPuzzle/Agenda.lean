import RocketPuzzle.Duration

/-! # Agendas

A clock and the timers that wait on it. The clock moves only when it is told to. Timers that are
due at the same moment fire in the order in which they were set.
-/
namespace RocketPuzzle

structure Timer (α : Type) where
  id : Nat
  due : Duration
  payload : α
  deriving DecidableEq, Repr

namespace Timer

variable {α : Type}

/-- `a` fires before `b`. -/
def Before (a b : Timer α) : Prop := a.due < b.due ∨ a.due = b.due ∧ a.id < b.id

instance (a b : Timer α) : Decidable (a.Before b) := inferInstanceAs (Decidable (_ ∨ _ ∧ _))

/-- The first of the timers that are due at `time`, and the timers without it. -/
def takeDue (time : Duration) : List (Timer α) → Option (Timer α × List (Timer α))
  | [] => none
  | t :: rest =>
    match takeDue time rest with
    | none => if t.due ≤ time then some (t, rest) else none
    | some (u, others) =>
      if t.due ≤ time ∧ ¬ u.Before t then some (t, rest) else some (u, t :: others)

/-- The earliest due time. -/
def nextDue : List (Timer α) → Option Duration
  | [] => none
  | t :: rest =>
    match nextDue rest with
    | none => some t.due
    | some d => if t.due ≤ d then some t.due else some d

theorem takeDue_perm {time : Duration} {l others : List (Timer α)} {t : Timer α}
    (h : takeDue time l = some (t, others)) : l.Perm (t :: others) := by
  induction l generalizing others t with
  | nil => simp [takeDue] at h
  | cons s rest ih =>
    unfold takeDue at h
    split at h
    · split at h
      · cases h
        exact .refl _
      · cases h
    · next u left hu =>
      split at h
      · cases h
        exact .refl _
      · cases h
        exact ((ih hu).cons s).trans (.swap ..)

end Timer

structure Agenda (α : Type) where
  now : Duration := .zero
  nextId : Nat := 0
  /-- In the order in which they were set. -/
  pending : List (Timer α) := []
  deriving DecidableEq, Repr

namespace Agenda

variable {α : Type}

def size (a : Agenda α) : Nat := a.pending.length

def nextDue (a : Agenda α) : Option Duration := Timer.nextDue a.pending

/-- A timer that fires `delay` from now; its number is `a.nextId`. -/
def schedule (a : Agenda α) (delay : Duration) (payload : α) : Agenda α :=
  { a with
    nextId := a.nextId + 1
    pending := a.pending ++ [⟨a.nextId, a.now + delay, payload⟩] }

def cancelAll (a : Agenda α) : Agenda α := { a with pending := [] }

/-- The earliest timer that is due at `time`. The clock moves on to the moment when it was due, so
that what it sets in turn is measured from there. -/
def popDue (a : Agenda α) (time : Duration) : Option (Timer α × Agenda α) :=
  match Timer.takeDue time a.pending with
  | none => none
  | some (t, others) => some (t, { a with now := max a.now t.due, pending := others })

/-- The clock moved on to `time` without firing anything. -/
def settle (a : Agenda α) (time : Duration) : Agenda α := { a with now := max a.now time }

end Agenda

end RocketPuzzle
