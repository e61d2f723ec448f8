import RocketPuzzle.Command

/-! # Levels and curricula

A level is a square grid with a start, a star to reach, walls, and perhaps a fuel tank that has
to be collected first. A curriculum is a tutorial and the levels in the order of progression.
-/
namespace RocketPuzzle

/-- The blocks of the toolbox, in the order in which they are listed. -/
inductive BlockKind where
  | start
  | move
  | turnLeft
  | turnRight
  | collect
  | repeated
  deriving DecidableEq, Repr

namespace BlockKind

def all : List BlockKind := [start, move, turnLeft, turnRight, collect, repeated]

/-- The place of the kind in `all`. -/
def rank : BlockKind → Nat
  | start => 0
  | move => 1
  | turnLeft => 2
  | turnRight => 3
  | collect => 4
  | repeated => 5

/-- The written name of the kind. -/
def name : BlockKind → String
  | start => "start"
  | move => "move"
  | turnLeft => "turn_left"
  | turnRight => "turn_right"
  | collect => "collect"
  | repeated => "repeat"

theorem mem_all (k : BlockKind) : k ∈ all := by
  cases k <;> decide

end BlockKind

/-- A puzzle. Nothing is assumed of its cells: the catalog checks them when it is loaded. -/
structure Level where
  id : UInt32
  title : String := ""
  description : String := ""
  hint : String := ""
  /-- The number of cells along each side. -/
  gridSize : UInt32
  start : Cell
  startHeading : Heading
  goal : Cell
  fuel : Option Cell := none
  obstacles : List Cell := []
  toolbox : List BlockKind := BlockKind.all
  /-- The number of blocks of the reference solution; zero where it is not known. -/
  idealBlockCount : UInt32 := 0
  deriving DecidableEq, Repr

namespace Level

/-- The goal counts only once the fuel is on board. -/
def hasFuel (l : Level) : Bool := l.fuel.isSome

def contains (l : Level) (c : Cell) : Bool := c.x < l.gridSize && c.y < l.gridSize

def isObstacle (l : Level) (c : Cell) : Bool := c ∈ l.obstacles

def allows (l : Level) (k : BlockKind) : Bool := k ∈ l.toolbox

/-- Why the rocket may not stand on `c`, if it may not. The rim is looked at before the walls. -/
def blockedReason (l : Level) (c : Cell) : Option BlockReason :=
  if l.contains c then if l.isObstacle c then some .obstacle else none
  else some .outOfBounds

/-- Where a move from `c` along `h` ends. -/
def destination (l : Level) (c : Cell) (h : Heading) : Except BlockReason Cell :=
  match c.step h with
  | none => .error .outOfBounds
  | some next =>
    match l.blockedReason next with
    | some reason => .error reason
    | none => .ok next

end Level

/-- A tutorial outside the numbering, and the catalog of levels. -/
structure Curriculum where
  tutorial : Level
  levels : List Level
  deriving DecidableEq, Repr

namespace Curriculum

def size (c : Curriculum) : Nat := c.levels.length

def isEmpty (c : Curriculum) : Bool := c.levels.isEmpty

/-- The level at `index` is the last of the catalog. -/
def isFinal (c : Curriculum) (index : Nat) : Bool := index + 1 == c.size

/-- The level in play: the tutorial when it is switched on or the catalog has no such index. -/
def active (c : Curriculum) (inTutorial : Bool) (index : Nat) : Level :=
  if inTutorial then c.tutorial else c.levels[index]?.getD c.tutorial

end Curriculum

end RocketPuzzle
