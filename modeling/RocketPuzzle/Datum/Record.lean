import RocketPuzzle.Datum
import RocketPuzzle.Text.Numeral

/-! # Records from data

A record is written as a table, or as a list of its fields in their order. In a table, fields that
the record does not have are passed over, and a field that it has may be given only once. A date is
a table of parts that no record has, so it gives a record none of its fields.
-/
namespace RocketPuzzle

/-- What the formats settle in different ways. -/
structure Dialect where
  /-- What stands beside the name of an alternative that carries nothing. -/
  isBlank : Datum → Bool
  /-- A list that stands for a record may have more items than the record has fields. -/
  longLists : Bool

/-- The place of a datum: its format, and how many more lists and tables may be opened there. -/
structure Place where
  dialect : Dialect
  room : Nat

abbrev Decoder (α : Type) := Place → Datum → Option α

namespace Decoder

variable {α : Type}

/-- The place of what is inside a list or table. -/
def inside (p : Place) : Option Place :=
  match p.room with
  | 0 => none
  | room + 1 => some { p with room }

def word32 : Decoder UInt32
  | _, .natural n => Text.word32? n
  | _, _ => none

def word64 : Decoder UInt64
  | _, .natural n => Text.word64? n
  | _, _ => none

def text : Decoder String
  | _, .text s => some s
  | _, _ => none

/-- A value or null. -/
def nullable (value : Decoder α) : Decoder (Option α)
  | _, .null => some none
  | p, d => (value p d).map some

def list (item : Decoder α) : Decoder (List α)
  | p, .list items => do items.mapM (item (← inside p))
  | _, _ => none

/-- One of several named alternatives that carry nothing: its name alone, or beside a blank. -/
def choice (names : List (String × α)) : Decoder α
  | _, .text s => names.lookup s
  | p, .table [(some s, d)] => do
    let _ ← inside p
    if p.dialect.isBlank d then names.lookup s else none
  | _, _ => none

end Decoder

/-- The fields of a record that are given. -/
structure Record where
  place : Place
  fields : List (String × Datum)

namespace Record

variable {α : Type}

/-- The field, where its name is one of `names`. -/
def known? (names : List String) : Option String × Datum → Option (String × Datum)
  | (some name, d) => if name ∈ names then some (name, d) else none
  | (none, _) => none

def read (names : List String) : Decoder Record
  | p, .table fields => do
    let place ← Decoder.inside p
    let known := fields.filterMap (known? names)
    if fields.all (·.1.isSome) ∧ (known.map (·.1)).Nodup then return ⟨place, known⟩ else none
  | p, .list items => do
    let place ← Decoder.inside p
    if items.length ≤ names.length ∨ p.dialect.longLists then return ⟨place, names.zip items⟩
    else none
  | p, .date => do return ⟨← Decoder.inside p, []⟩
  | _, _ => none

/-- A field that has to be given. -/
def required (r : Record) (name : String) (value : Decoder α) : Option α := do
  value r.place (← r.fields.lookup name)

/-- A field with a default. -/
def optional (r : Record) (name : String) (default : α) (value : Decoder α) : Option α :=
  match r.fields.lookup name with
  | none => some default
  | some d => value r.place d

end Record

end RocketPuzzle
