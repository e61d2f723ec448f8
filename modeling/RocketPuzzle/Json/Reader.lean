import RocketPuzzle.Json.Token

/-! # Reading the exchange format

A machine with a stack takes one token at a time. The stack holds the lists and tables that are
open, innermost first, so nesting is bounded by the length of the text alone.
-/
namespace RocketPuzzle.Json

/-- A list or table that waits for a value; what it holds so far is in reverse. -/
inductive Frame where
  | list (items : List Datum)
  | table (fields : List (Option String × Datum)) (name : Option String)
  deriving Repr

/-- What is due next, over the stack of open frames. -/
inductive Reader where
  | value (stack : List Frame)
  /-- After an opening bracket. -/
  | firstItem (stack : List Frame)
  | afterItem (stack : List Frame) (items : List Datum)
  /-- After an opening brace. -/
  | firstName (stack : List Frame)
  | name (stack : List Frame) (fields : List (Option String × Datum))
  | colon (stack : List Frame) (fields : List (Option String × Datum)) (name : Option String)
  | afterField (stack : List Frame) (fields : List (Option String × Datum))
  | finished (d : Datum)
  deriving Repr

namespace Reader

/-- A value that is complete goes to the innermost frame. -/
def resume : List Frame → Datum → Reader
  | [], d => finished d
  | .list items :: stack, d => afterItem stack (d :: items)
  | .table fields n :: stack, d => afterField stack ((n, d) :: fields)

/-- A token where a value is due. -/
def start (stack : List Frame) : Token → Option Reader
  | .leaf d => some (resume stack d)
  | .text (some s) => some (resume stack (.text s))
  | .text none => some (resume stack .broken)
  | .openList => some (firstItem stack)
  | .openTable => some (firstName stack)
  | _ => none

def next : Reader → Token → Option Reader
  | value stack, t => start stack t
  | firstItem stack, .closeList => some (resume stack (.list []))
  | firstItem stack, t => start (.list [] :: stack) t
  | afterItem stack items, .comma => some (value (.list items :: stack))
  | afterItem stack items, .closeList => some (resume stack (.list items.reverse))
  | firstName stack, .closeTable => some (resume stack (.table []))
  | firstName stack, .text n => some (colon stack [] n)
  | name stack fields, .text n => some (colon stack fields n)
  | colon stack fields n, .colon => some (value (.table fields n :: stack))
  | afterField stack fields, .comma => some (name stack fields)
  | afterField stack fields, .closeTable => some (resume stack (.table fields.reverse))
  | _, _ => none

def result? : Reader → Option Datum
  | finished d => some d
  | _ => none

end Reader

/-- The datum that a row of tokens spells. -/
def assemble? (ts : List Token) : Option Datum :=
  ts.foldlM Reader.next (.value []) >>= Reader.result?

/-- The datum that a text spells. -/
def read? (ps : List Text.Piece) : Option Datum := tokens? ps >>= assemble?

end RocketPuzzle.Json
