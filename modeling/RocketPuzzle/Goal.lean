import RocketPuzzle.Level

/-! # Judging a run

Away from the star only a run that is over is judged, and a collision is not reported twice.
On the star, missing fuel is never a success.
-/
namespace RocketPuzzle

/-- What the verdict depends on. -/
structure Standing where
  position : Cell
  fuelCollected : Bool
  /-- Nothing is left to apply. -/
  terminal : Bool
  /-- A blocked move has ended the run. -/
  collided : Bool
  deriving DecidableEq, Repr

def Level.judge (l : Level) (s : Standing) : Verdict :=
  if s.position = l.goal then
    if l.hasFuel && !s.fuelCollected then .missingFuel else .success
  else if s.collided then .collided
  else if s.terminal then .goalNotReached
  else .pending

end RocketPuzzle
