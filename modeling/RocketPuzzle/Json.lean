import RocketPuzzle.Datum.Record
import RocketPuzzle.Json.Reader
import RocketPuzzle.Json.Writer

/-! # Values in the exchange format

A record is read at a place where at most 127 lists and tables may be open at once. An alternative
that carries nothing stands beside null.
-/
namespace RocketPuzzle.Json

/-- The most lists and tables that may be open at once where values are read. -/
def maxNesting : Nat := 127

def dialect : Dialect where
  isBlank d := match d with
    | .null => true
    | _ => false
  longLists := false

def place : Place := ⟨dialect, maxNesting⟩

/-- The value that a row of pieces spells. -/
def decode? {α : Type} (value : Decoder α) (ps : List Text.Piece) : Option α := do
  value place (← read? ps)

/-- The value that a text spells. -/
def ofText? {α : Type} (value : Decoder α) (text : String) : Option α :=
  decode? value (Text.ofChars text.toList)

end RocketPuzzle.Json
