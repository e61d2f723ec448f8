import RocketPuzzle.Datum

/-! # Trees of a TOML text

Tables grow as a text is read. A table is defined once, by a header, by a dotted key or as a value;
one that only stands on the way to another may still be defined by a header of its own.
-/
namespace RocketPuzzle.Toml

/-- How a table came about. -/
inductive Origin where
  /-- A header, or the text itself. -/
  | defined
  /-- On the way to a header. -/
  | implied
  /-- On the way to a dotted key. -/
  | dotted
  deriving DecidableEq, Repr

inductive Node where
  | value (d : Datum)
  | table (origin : Origin) (entries : List (String × Node))
  /-- A row of tables, the latest apart and the earlier ones in reverse. -/
  | row (latest : List (String × Node)) (earlier : List (List (String × Node)))
  deriving Repr

abbrev Entries := List (String × Node)

namespace Entries

/-- The entries with another node under a name that they have. -/
def replace (es : Entries) (name : String) (n : Node) : Entries :=
  es.map fun e => if e.1 = name then (name, n) else e

/-- Change the table at the end of a path. Tables on the way are made where they are missing. A
dotted key does not enter a table that has been defined, and nothing enters a value. -/
def change (dotted : Bool) (f : Origin → Entries → Option Entries) :
    List String → Origin → Entries → Option Entries
  | [], origin, es => f origin es
  | name :: path, _, es =>
    match es.lookup name with
    | none => do
      let origin := if dotted then Origin.dotted else Origin.implied
      return es ++ [(name, .table origin (← change dotted f path origin []))]
    | some (.value _) => none
    | some (.table origin sub) =>
      if dotted ∧ origin = .defined then none
      else do return replace es name (.table origin (← change dotted f path origin sub))
    | some (.row latest earlier) => do
      return replace es name (.row (← change dotted f path .defined latest) earlier)

/-- Put a value under a key. -/
def assign (key : List String) (d : Datum) : Origin → Entries → Option Entries :=
  change true
    (fun origin es => do
      let name ← key.getLast?
      if (origin == .dotted) == key.dropLast.isEmpty ∨ (es.lookup name).isSome then none
      else return es ++ [(name, .value d)])
    key.dropLast

/-- Define the table of a header. -/
def define (key : List String) (es : Entries) : Option Entries :=
  change false
    (fun _ es => do
      let name ← key.getLast?
      match es.lookup name with
      | none => return es ++ [(name, .table .defined [])]
      | some (.table .implied sub) => return replace es name (.table .defined sub)
      | _ => none)
    key.dropLast .defined es

/-- Begin another table of a row. -/
def extend (key : List String) (es : Entries) : Option Entries :=
  change false
    (fun _ es => do
      let name ← key.getLast?
      match es.lookup name with
      | none => return es ++ [(name, .row [] [])]
      | some (.row latest earlier) => return replace es name (.row [] (latest :: earlier))
      | _ => none)
    key.dropLast .defined es

end Entries

mutual

/-- The datum that a finished tree holds. -/
def Node.datum : Node → Datum
  | .value d => d
  | .table _ entries => .table (fieldsOf entries)
  | .row latest earlier => .list ((Datum.table (fieldsOf latest) :: tablesOf earlier).reverse)

def fieldsOf : List (String × Node) → List (Option String × Datum)
  | [] => []
  | (name, n) :: rest => (some name, n.datum) :: fieldsOf rest

def tablesOf : List (List (String × Node)) → List Datum
  | [] => []
  | es :: rest => .table (fieldsOf es) :: tablesOf rest

end

end RocketPuzzle.Toml
