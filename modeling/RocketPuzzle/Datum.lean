/-! # Data

What a structured text holds, whichever format it is written in. The records of this library are
made of natural numbers, texts, lists and tables, so other scalars are told apart only as far as
reading past them requires.
-/
namespace RocketPuzzle

inductive Datum where
  | null
  | natural (n : Nat)
  | text (s : String)
  /-- A scalar that no record has a use for: a truth value, a fraction. -/
  | scalar
  /-- A date, a time or both. It has parts of its own, none of which is a field of a record. -/
  | date
  /-- Well written, but without a value: a text that is not Unicode, a number beyond measure. -/
  | broken
  | list (items : List Datum)
  /-- The fields in the order in which they were written; a name may lack a value, too. -/
  | table (fields : List (Option String × Datum))
  deriving Repr

end RocketPuzzle
