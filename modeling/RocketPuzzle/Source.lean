import RocketPuzzle.Codec.Program
import RocketPuzzle.Json
import RocketPuzzle.Program.Expansion
import RocketPuzzle.Script.Parser

/-! # Sources of commands

What can be handed to a session to run. A source that cannot be compiled counts as one without
commands.
-/
namespace RocketPuzzle

/-- The program that a text in the exchange format describes. -/
def Program.ofJson (text : String) : Except Program.Error Program :=
  match Json.ofText? Program.decode text with
  | some p => .ok p
  | none => .error .malformedJson

inductive Source where
  | script (text : String)
  | json (text : String)
  | program (p : Program)
  | commands (cs : List Command)
  deriving Repr

namespace Source

def compile : Source → Except Program.Error (List Command)
  | script text => Script.parse text >>= Program.compile
  | json text => Program.ofJson text >>= Program.compile
  | program p => p.compile
  | commands cs => .ok cs

/-- The commands to run; none where the source is faulty. -/
def queue (s : Source) : List Command :=
  match s.compile with
  | .ok cs => cs
  | .error _ => []

def fault? (s : Source) : Option Program.Error :=
  match s.compile with
  | .ok _ => none
  | .error e => some e

end Source

end RocketPuzzle
