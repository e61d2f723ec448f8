import RocketPuzzle.Codec.Level

/-! # Catalogs

A catalog is checked before it is played: the tutorial first, then the levels in order, and of the
faults of a level the first one in the order empty grid, start, goal, fuel, number.
-/
namespace RocketPuzzle.Catalog

/-- What can lie outside the grid. -/
inductive Feature where
  | start
  | goal
  | fuel
  deriving DecidableEq, Repr

def Feature.name : Feature → String
  | start => "start"
  | goal => "goal"
  | fuel => "fuel"

inductive Fault where
  | emptyGrid (level : UInt32)
  | outsideGrid (level : UInt32) (feature : Feature) (cell : Cell) (size : UInt32)
  | duplicateId (level : UInt32)
  /-- The number belongs to the tutorial. -/
  | tutorialIdReused (level : UInt32)
  deriving DecidableEq, Repr

def Fault.message : Fault → String
  | emptyGrid level => s!"level {level} has an empty grid"
  | outsideGrid level feature cell size =>
    s!"level {level} places its {feature.name} at ({cell.x}, {cell.y}), " ++
      s!"outside a {size}x{size} grid"
  | duplicateId level => s!"level id {level} appears more than once"
  | tutorialIdReused level => s!"level id {level} is reserved for the tutorial"

/-- The fault of a cell that the grid does not hold. -/
def cellFault? (l : Level) (feature : Feature) (c : Cell) : Option Fault :=
  if l.contains c then none else some (.outsideGrid l.id feature c l.gridSize)

/-- The first fault that a level has by itself. -/
def levelFault? (l : Level) : Option Fault :=
  if l.gridSize = 0 then some (.emptyGrid l.id)
  else
    (cellFault? l .start l.start).or <|
      (cellFault? l .goal l.goal).or <|
        l.fuel.bind (cellFault? l .fuel)

/-- The first fault of the levels after those with the numbers `seen`. -/
def levelsFault? (tutorial : UInt32) (seen : List UInt32) : List Level → Option Fault
  | [] => none
  | l :: rest =>
    (levelFault? l).or <|
      if l.id = tutorial then some (.tutorialIdReused l.id)
      else if l.id ∈ seen then some (.duplicateId l.id)
      else levelsFault? tutorial (l.id :: seen) rest

/-- The first fault of a catalog. -/
def fault? (c : Curriculum) : Option Fault :=
  (levelFault? c.tutorial).or (levelsFault? c.tutorial.id [] c.levels)

def fieldNames : List String := ["tutorial", "level"]

/-- A curriculum as it is written in a catalog file. -/
def decode : Decoder Curriculum := fun p d => do
  let r ← Record.read fieldNames p d
  return ⟨← r.required "tutorial" Level.decode,
    ← r.optional "level" [] (Decoder.list Level.decode)⟩

end RocketPuzzle.Catalog
