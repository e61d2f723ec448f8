import RocketPuzzle.Catalog.Builtin
import RocketPuzzle.Catalog.Text
import RocketPuzzle.CommandLine.Options
import RocketPuzzle.CommandLine.Play
import RocketPuzzle.ShareCode

/-! # The command line

Levels are listed, programs are played and shared. Files come in as bytes, so what a command does
depends on its words and its files alone. Of several faults the first one is reported in the order
levels, settings, program, choice of level.
-/
namespace RocketPuzzle

namespace CommandLine

/-- How a command ends. -/
structure Result where
  emitted : List Emission := []
  /-- What went wrong. -/
  error : Option String := none
  exitCode : UInt32 := 0
  deriving DecidableEq, Repr

/-- Everything printed, as one text. -/
def Result.output (r : Result) : String :=
  String.join (r.emitted.map fun
    | .print text => text
    | .wait _ => "")

def curriculum (files : Files) : Option String → Except String Curriculum
  | none => (Catalog.checked (some Catalog.builtin)).1.mapError fun _ => "loading built-in levels"
  | some path =>
    (Catalog.ofFile files path).1.mapError fun _ => "loading levels from " ++ path

def config (files : Files) : Option String → Except String Config
  | none => .ok {}
  | some path =>
    (Config.ofFile files path).mapError fun
      | .unreadable => "reading config " ++ path
      | .malformed => "parsing config " ++ path

/-- A program that cannot be understood counts as an empty one. -/
def orEmpty (p : Except Program.Error Program) : Program :=
  match p with
  | .ok p => p
  | .error _ => {}

def program (files : Files) : Input → Except String SharedProgram
  | .file path =>
    match files.text? path with
    | none => .error ("reading program " ++ path)
    | some text => .ok ⟨none, orEmpty (Program.ofJson text)⟩
  | .script text => .ok ⟨none, orEmpty (Script.parse text)⟩
  | .code text =>
    match ShareCode.decode text with
    | .ok s => .ok s
    | .error _ => .error "decoding share code"

/-- A session on the level that was asked for; without a wish, on level 1. -/
def seat (s : Session) (o : RunOptions) (shared : SharedProgram) : Except String Session :=
  if o.tutorial then .ok (s.setTutorial true).session
  else
    let id := (o.level.or shared.level).getD 1
    match s.curriculum.levels.findIdx? (·.id = id) >>= s.select with
    | some e => .ok e.session
    | none => .error s!"level {id} is not in the curriculum"

/-- A remark on a solution with more blocks than needed. -/
def remark (p : Program) (l : Level) : List Emission :=
  if p.exceedsIdeal l then
    [announce s!"Solved with {p.blockCount} blocks; it can be done with {l.idealBlockCount}."]
  else []

/-- Play a program on a session that stands on its level. -/
def play (s : Session) (p : Program) (stepping realtime : Bool) : Result :=
  let ended := (Play.opened s (.program p) stepping realtime).begin.finish
  if ended.session.status = .completed then
    { emitted := ended.emitted ++ remark p ended.session.level, exitCode := 0 }
  else { emitted := ended.emitted, exitCode := 1 }

def run (files : Files) (o : RunOptions) : Except String Result := do
  let c ← curriculum files o.levels
  let settings ← config files o.config
  let shared ← program files o.input
  let s ← seat (.new c settings.pacing) o shared
  return play s shared.program o.step o.realtime

/-- A number on eight columns, to the right. -/
def column (n : UInt32) : String :=
  let digits := toString n
  String.ofList (List.replicate (8 - digits.length) ' ') ++ digits

/-- The line of a level in the list of levels. -/
def listing (l : Level) : String :=
  String.join [column l.id, "  ", l.title, if l.hasFuel then " [fuel]" else "", "  (",
    toString l.idealBlockCount, " blocks: ", ", ".intercalate (l.toolbox.map BlockKind.name), ")"]

def levels (files : Files) (path : Option String) : Except String Result := do
  let c ← curriculum files path
  return { emitted := (("tutorial  " ++ c.tutorial.title) :: c.levels.map listing).map announce }

def share (files : Files) (input : Input) (level : Option UInt32) : Except String Result := do
  let shared ← program files input
  return { emitted := [announce (ShareCode.encode { shared with level := level.or shared.level })] }

/-- What greets the player. -/
def welcome : String := "Welcome to Code Craft."

/-- The name and the version of the program. -/
def versionLine : String := "codecraft 0.1.0"

def perform (files : Files) : Action → Except String Result
  | .version => .ok { emitted := [announce versionLine] }
  | .levels path => levels files path
  | .run options => run files options
  | .share input level => share files input level

/-- Carry out a command. -/
def execute (files : Files) (a : Action) : Result :=
  match perform files a with
  | .ok r => r
  | .error e => { error := some e, exitCode := 1 }

/-- The files that a command may read. -/
def Action.paths : Action → List String
  | version => []
  | levels path => path.toList
  | run o => o.levels.toList ++ o.config.toList ++ inputPath o.input
  | share input _ => inputPath input
where
  inputPath : Input → List String
    | .file path => [path]
    | _ => []

end CommandLine

end RocketPuzzle
