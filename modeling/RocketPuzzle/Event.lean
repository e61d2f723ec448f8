import RocketPuzzle.Level

/-! # Events

Everything that an onlooker can learn about a session is broadcast as an event, in order.
-/
namespace RocketPuzzle

inductive Event where
  | characterMoved (source target : Cell)
  | moveBlocked (cell : Cell) (heading : Heading) (reason : BlockReason)
  | characterTurned (source target : Heading)
  | fuelCollected (cell : Cell)
  | nothingToCollect (cell : Cell)
  /-- A run was requested with a program that has no commands. -/
  | programEmpty
  /-- A run was requested while another one was in progress. -/
  | runIgnored
  | runStarted (mode : RunMode) (commands : Nat)
  | commandApplied (index : Nat) (command : Command) (outcome : Outcome)
  | goalEvaluated (verdict : Verdict)
  /-- The run is over. -/
  | runHalted
  /-- A catalog level was solved for the first time. -/
  | levelCompleted (level : UInt32)
  /-- The last catalog level was solved. -/
  | curriculumCompleted
  /-- The level is back in its start configuration. -/
  | levelReset (level : UInt32)
  deriving DecidableEq, Repr

end RocketPuzzle
