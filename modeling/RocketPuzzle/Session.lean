import RocketPuzzle.Agenda
import RocketPuzzle.Goal
import RocketPuzzle.Note
import RocketPuzzle.Pacing
import RocketPuzzle.Progress
import RocketPuzzle.Rocket

/-! # Sessions

A session is a curriculum in play: which level is selected and loaded, the run on it, the timers
that carry the run on, and the levels solved so far. Time passes only when the session is told so.
-/
namespace RocketPuzzle

/-- The life of the current run. -/
inductive Status where
  /-- Nothing has run since the level was reset. -/
  | idle
  | running
  /-- The run ended without solving the level. -/
  | halted
  /-- The run solved the level. -/
  | completed
  deriving DecidableEq, Repr

/-- What belongs to one run and is rebuilt by every reset. -/
structure Run where
  queue : List Command := []
  /-- The number of commands that have been applied. -/
  cursor : Nat := 0
  collided : Bool := false
  mode : Option RunMode := none
  deriving DecidableEq, Repr

namespace Run

/-- Every command has been applied. -/
def exhausted (r : Run) : Bool := r.queue.length ≤ r.cursor

/-- There is nothing left to do but to judge the run. -/
def isOver (r : Run) : Bool := r.collided || r.exhausted

/-- The number of commands still to come. -/
def remaining (r : Run) : Nat := r.queue.length - r.cursor

end Run

/-- What is in play. -/
inductive Selection where
  | tutorial
  | level (index : Nat)
  deriving DecidableEq, Repr

structure Session where
  curriculum : Curriculum
  pacing : Pacing
  inTutorial : Bool
  /-- The catalog level in play, or to return to from the tutorial. -/
  index : Nat
  /-- The level in play, as it was loaded. -/
  level : Level
  rocket : Rocket
  run : Run := {}
  status : Status := .idle
  agenda : Agenda Continuation := {}
  progress : Progress := {}
  deriving DecidableEq, Repr

/-- A session after some step, with what it told the world on the way. -/
structure Effect where
  session : Session
  events : List Event := []
  notes : List Note := []
  deriving DecidableEq, Repr

/-- One step after another. -/
def Effect.andThen (e : Effect) (f : Session → Effect) : Effect :=
  let g := f e.session
  ⟨g.session, e.events ++ g.events, e.notes ++ g.notes⟩

namespace Session

def selection (s : Session) : Selection := if s.inTutorial then .tutorial else .level s.index

/-- A new session stands on the first level, or on the tutorial when the catalog is empty. -/
def new (c : Curriculum) (p : Pacing) : Session where
  curriculum := c
  pacing := p
  inTutorial := c.isEmpty
  index := 0
  level := c.active c.isEmpty 0
  rocket := .atStart (c.active c.isEmpty 0)

/-- Back to the start configuration. Every timer is cancelled, so that nothing set before can reach
the fresh state. -/
def reset (s : Session) : Effect where
  session :=
    { s with
      run := {}
      status := .idle
      agenda := s.agenda.cancelAll
      rocket := .atStart s.level }
  events := [.levelReset s.level.id]
  notes := if 0 < s.agenda.size then [.timersCancelled s.agenda.size] else []

/-- The selected level is loaded, at its start. -/
def load (s : Session) : Effect :=
  reset { s with level := s.curriculum.active s.inTutorial s.index }

def schedule (s : Session) (delay : UInt64) (c : Continuation) : Session :=
  { s with agenda := s.agenda.schedule (.ofMillis delay) c }

end Session

end RocketPuzzle
