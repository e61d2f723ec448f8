import RocketPuzzle.Datum.Record
import RocketPuzzle.Level

/-! # Named alternatives as data

The spellings of the closed vocabularies. Each list names every alternative once.
-/
namespace RocketPuzzle

def Heading.names : List (String × Heading) :=
  [("NORTH", .north), ("EAST", .east), ("SOUTH", .south), ("WEST", .west)]

def Command.names : List (String × Command) :=
  [("MOVE", .move), ("TURN_LEFT", .turnLeft), ("TURN_RIGHT", .turnRight), ("COLLECT", .collect)]

def Outcome.names : List (String × Outcome) :=
  [("Moved", .moved), ("Blocked", .blocked), ("Turned", .turned), ("Collected", .collected),
    ("CollectFailed", .collectFailed), ("Ignored", .ignored)]

def BlockReason.names : List (String × BlockReason) :=
  [("OutOfBounds", .outOfBounds), ("Obstacle", .obstacle)]

def Message.names : List (String × Message) :=
  [("Collision", .collision), ("FuelCollected", .fuelCollected),
    ("NothingToCollect", .nothingToCollect), ("EmptyProgram", .emptyProgram),
    ("GoalNotReached", .goalNotReached), ("MissingFuel", .missingFuel), ("Success", .success)]

def Verdict.names : List (String × Verdict) :=
  [("Pending", .pending), ("Collided", .collided), ("GoalNotReached", .goalNotReached),
    ("MissingFuel", .missingFuel), ("Success", .success)]

def RunMode.names : List (String × RunMode) := [("RunAll", .paced), ("Step", .stepped)]

def BlockKind.names : List (String × BlockKind) := BlockKind.all.map fun k => (k.name, k)

/-- The name of an alternative in a list that holds it. -/
def spelling {α : Type} [DecidableEq α] (names : List (String × α)) (a : α) : String :=
  ((names.find? fun entry => entry.2 = a).map (·.1)).getD ""

end RocketPuzzle
