import RocketPuzzle.Event
import RocketPuzzle.Trail

/-! # The rocket on its level

The state of the rocket and the one transition that applies a command to it. The cell that a
command finds the rocket on joins the trail before anything else, so a rejected move still marks
the last good cell. A solved level takes no further commands.
-/
namespace RocketPuzzle

structure Rocket where
  position : Cell
  heading : Heading
  /-- The cells on which a command was applied. -/
  trail : Trail := .empty
  /-- The level asks for fuel. -/
  needsFuel : Bool
  fuelCollected : Bool := false
  message : Option Message := none
  completed : Bool := false
  running : Bool := false
  deriving DecidableEq, Repr

/-- A rocket after a command, with what came of it. -/
structure Applied where
  rocket : Rocket
  outcome : Outcome
  events : List Event
  deriving DecidableEq, Repr

namespace Rocket

/-- The start configuration of a level. -/
def atStart (l : Level) : Rocket where
  position := l.start
  heading := l.startHeading
  needsFuel := l.hasFuel

/-- The start of a run, which clears the last report. -/
def beginRun (r : Rocket) : Rocket := { r with running := true, message := none }

def report (r : Rocket) (m : Message) : Rocket := { r with message := some m }

/-- The end of a run without success; the last report stays unless there is a newer one. -/
def halt (r : Rocket) (m : Option Message) : Rocket :=
  { r with running := false, message := m.or r.message }

def complete (r : Rocket) : Rocket :=
  { r with running := false, completed := true, message := some .success }

/-- The present cell joins the trail. -/
def mark (r : Rocket) : Rocket := { r with trail := r.trail.insert r.position }

def move (l : Level) (r : Rocket) : Applied :=
  match l.destination r.position r.heading with
  | .ok next =>
    ⟨{ r with position := next, message := none }, .moved, [.characterMoved r.position next]⟩
  | .error reason =>
    ⟨{ r with message := some .collision }, .blocked,
      [.moveBlocked r.position r.heading reason]⟩

def turn (r : Rocket) (h : Heading) : Applied :=
  ⟨{ r with heading := h, message := none }, .turned, [.characterTurned r.heading h]⟩

def collect (l : Level) (r : Rocket) : Applied :=
  if l.fuel = some r.position then
    ⟨{ r with fuelCollected := true, message := some .fuelCollected }, .collected,
      [.fuelCollected r.position]⟩
  else
    ⟨{ r with message := some .nothingToCollect }, .collectFailed,
      [.nothingToCollect r.position]⟩

/-- The one transition of the world. -/
def apply (l : Level) (r : Rocket) (c : Command) : Applied :=
  if r.completed then ⟨r, .ignored, []⟩
  else
    match c with
    | .move => r.mark.move l
    | .turnLeft => r.mark.turn r.heading.left
    | .turnRight => r.mark.turn r.heading.right
    | .collect => r.mark.collect l

end Rocket

/-- A picture of the rocket for those who draw it; the trail is a row in ascending order. -/
structure Snapshot where
  position : Cell
  heading : Heading
  visited : List Cell
  hasFuel : Bool
  fuelCollected : Bool
  completed : Bool
  running : Bool
  message : Option Message
  deriving DecidableEq, Repr

def Rocket.snapshot (r : Rocket) : Snapshot where
  position := r.position
  heading := r.heading
  visited := r.trail.cells
  hasFuel := r.needsFuel
  fuelCollected := r.fuelCollected
  completed := r.completed
  running := r.running
  message := r.message

end RocketPuzzle
