import RocketPuzzle.Rocket

/-! # Frames

The text picture of a level. Of the layers that share a cell the last one wins: trail, fuel,
goal, walls, rocket.
-/
namespace RocketPuzzle

/-- The arrow that stands for the rocket. -/
def Heading.glyph : Heading → Char
  | .north => '^'
  | .east => '>'
  | .south => 'v'
  | .west => '<'

structure Frame where
  title : String
  /-- From top to bottom, one glyph for each cell. -/
  rows : List String
  status : String
  message : Option String
  deriving DecidableEq, Repr

namespace Frame

/-- The glyph of a cell; `visited` is the trail as a row in ascending order. -/
def glyph (l : Level) (s : Snapshot) (visited : Array Cell) (c : Cell) : Char :=
  if c = s.position then s.heading.glyph
  else if l.isObstacle c then '#'
  else if c = l.goal ∧ ¬ s.completed then '*'
  else if l.fuel = some c ∧ ¬ s.fuelCollected then 'F'
  else if sortedContains visited c then '.'
  else ' '

/-- The numbers of the columns, and of the rows, of a level. -/
def axis (l : Level) : List UInt32 := (List.range l.gridSize.toNat).map UInt32.ofNat

def titleOf (l : Level) : String :=
  if l.title.isEmpty then "Level " ++ toString l.id.toNat else l.title

def cellText (c : Cell) : String :=
  "(" ++ toString c.x.toNat ++ ", " ++ toString c.y.toNat ++ ")"

def fuelStatus (l : Level) (s : Snapshot) : String :=
  if l.hasFuel then if s.fuelCollected then " | fuel full" else " | fuel empty" else ""

def runStatus (s : Snapshot) : String :=
  if s.running then " | running" else if s.completed then " | complete" else ""

def statusOf (l : Level) (s : Snapshot) : String :=
  "at " ++ cellText s.position ++ " facing " ++ s.heading.name ++ fuelStatus l s ++ runStatus s

/-- The frame of a snapshot. -/
def compose (l : Level) (s : Snapshot) : Frame :=
  let visited := s.visited.toArray
  { title := titleOf l
    rows := (axis l).map fun y => String.ofList ((axis l).map fun x => glyph l s visited ⟨x, y⟩)
    status := statusOf l s
    message := s.message.map Message.text }

/-- The line above and below the grid. -/
def border (f : Frame) : String :=
  let width := f.rows.head?.elim 0 String.length
  "+" ++ String.ofList (List.replicate width '-') ++ "+"

/-- The frame as lines of text. -/
def lines (f : Frame) : List String :=
  [f.title, f.border] ++ f.rows.map (fun row => "|" ++ row ++ "|") ++ [f.border, f.status] ++
    f.message.toList.map ("> " ++ ·)

/-- The frame as text, each line ended. -/
def text (f : Frame) : String := String.join (f.lines.map (· ++ "\n"))

/-- The frame as it is shown, with an empty line after it. -/
def shown (f : Frame) : String := f.text ++ "\n"

end Frame

end RocketPuzzle
