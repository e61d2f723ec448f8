import RocketPuzzle.Duration

/-! # Pacing

The delays of a session, in milliseconds.
-/
namespace RocketPuzzle

structure Pacing where
  /-- Before each command of a paced run. -/
  commandInterval : UInt64 := 800
  /-- Between the last command of a paced run and its judgement. -/
  settleDelay : UInt64 := 500
  /-- Before the first command of a stepped run. -/
  firstStepDelay : UInt64 := 100
  /-- Between solving the last level and announcing it. -/
  curriculumDelay : UInt64 := 1500
  deriving DecidableEq, Repr

end RocketPuzzle
