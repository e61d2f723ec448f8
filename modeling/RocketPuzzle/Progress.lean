/-! # Progress

The levels solved so far, in the order in which they were first solved.
-/
namespace RocketPuzzle

structure Progress where
  completed : List UInt32 := []
  deriving DecidableEq, Repr

namespace Progress

def isCompleted (p : Progress) (level : UInt32) : Bool := level ∈ p.completed

/-- The record with `level` in it; a level that is there already keeps its place. -/
def record (p : Progress) (level : UInt32) : Progress :=
  if p.isCompleted level then p else ⟨p.completed ++ [level]⟩

end Progress

end RocketPuzzle
