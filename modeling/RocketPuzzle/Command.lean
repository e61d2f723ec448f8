import RocketPuzzle.Grid

/-! # Commands and what comes of them

The vocabulary of a run: what the rocket is told, how the grid answers, what the player reads
and how a run is judged.
-/
namespace RocketPuzzle

inductive Command where
  | move
  | turnLeft
  | turnRight
  | collect
  deriving DecidableEq, Repr

/-- Why a cell cannot be entered. -/
inductive BlockReason where
  | outOfBounds
  | obstacle
  deriving DecidableEq, Repr

/-- What one command did. -/
inductive Outcome where
  | moved
  | blocked
  | turned
  | collected
  | collectFailed
  /-- The level was solved already, so nothing was done. -/
  | ignored
  deriving DecidableEq, Repr

/-- A report to the player. -/
inductive Message where
  | collision
  | fuelCollected
  | nothingToCollect
  | emptyProgram
  | goalNotReached
  | missingFuel
  | success
  deriving DecidableEq, Repr

/-- The wording of a report. -/
def Message.text : Message → String
  | collision => "Bump! The rocket hit a wall."
  | fuelCollected => "Fuel collected!"
  | nothingToCollect => "There is no fuel here."
  | emptyProgram => "Attach some blocks under the start block first."
  | goalNotReached => "Not at the star yet."
  | missingFuel => "Reached the star, but forgot to collect the fuel!"
  | success => "Well done! Level complete."

/-- How a run stands or ended. -/
inductive Verdict where
  /-- The run goes on. -/
  | pending
  /-- A collision ended the run and has been reported already. -/
  | collided
  | goalNotReached
  | missingFuel
  | success
  deriving DecidableEq, Repr

namespace Verdict

/-- What the player is told on this verdict, if anything. -/
def message : Verdict → Option Message
  | pending => none
  | collided => none
  | goalNotReached => some .goalNotReached
  | missingFuel => some .missingFuel
  | success => some .success

/-- Every verdict but the open one ends a run. -/
def isTerminal (v : Verdict) : Bool := v ≠ pending

end Verdict

/-- How the commands of a run are released. -/
inductive RunMode where
  /-- On a fixed beat until the queue is empty. -/
  | paced
  /-- One for each request. -/
  | stepped
  deriving DecidableEq, Repr

end RocketPuzzle
