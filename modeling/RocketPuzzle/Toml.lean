import RocketPuzzle.Datum.Record
import RocketPuzzle.Toml.Value

/-! # TOML texts

A text is a row of statements, each on lines of its own: a key with its value, the header of a
table, or the header of one more table of a row. The statements build one tree.
-/
namespace RocketPuzzle.Toml

open Scanner

inductive Statement where
  | assign (key : List String) (d : Datum)
  | define (key : List String)
  | extend (key : List String)
  deriving Repr

def header : Scanner Statement := do
  char '['
  let k ← key
  char ']'
  lineEnd
  return .define k

def rowHeader : Scanner Statement := do
  exactly ['[', '[']
  let k ← key
  exactly [']', ']']
  lineEnd
  return .extend k

def pair : Scanner Statement := do
  let (k, d) ← assignment (value maxNesting)
  lineEnd
  return .assign k d

/-- A line: a statement, or nothing but blanks and a comment. -/
def line : Scanner (Option Statement) := do
  blanks
  (do newline; return none) <|> (do comment; lineEnd; return none) <|>
    some <$> rowHeader <|> some <$> header <|> some <$> pair

def statements : Scanner (List Statement) := do
  let _ ← optional (char '\ufeff')
  let lines ← repeated line
  blanks
  ended
  return lines.filterMap id

/-- A tree that is being built, and the path of the header that its lines stand under. -/
structure Builder where
  entries : Entries := []
  path : List String := []

def Builder.add (b : Builder) : Statement → Option Builder
  | .assign k d => do
    return { b with
      entries := ← Entries.change false (Entries.assign k d) b.path .defined b.entries }
  | .define k => do return ⟨← b.entries.define k, k⟩
  | .extend k => do return ⟨← b.entries.extend k, k⟩

/-- The datum that a text spells. -/
def read? (text : List Char) : Option Datum := do
  let (ss, _) ← statements text
  let b ← ss.foldlM Builder.add {}
  return (Node.table .defined b.entries).datum

/-- An alternative that carries nothing stands beside an empty table or list. A list that stands for
a record may be longer than the record. -/
def dialect : Dialect where
  isBlank d := match d with
    | .table [] => true
    | .list [] => true
    | _ => false
  longLists := true

/-- No record of this library nests as deep as this. -/
def place : Place := ⟨dialect, 127⟩

/-- The value that a text spells. -/
def ofText? {α : Type} (value : Decoder α) (text : String) : Option α := do
  value place (← read? text.toList)

end RocketPuzzle.Toml
