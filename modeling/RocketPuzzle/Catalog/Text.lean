import RocketPuzzle.Catalog
import RocketPuzzle.Config
import RocketPuzzle.Note
import RocketPuzzle.Text.Utf8
import RocketPuzzle.Toml

/-! # Catalog and settings files

Both are TOML texts in UTF-8. Files come in as bytes, so what is read from them depends on nothing
else.
-/
namespace RocketPuzzle

/-- The bytes of the files that can be read. -/
abbrev Files := String → Option (List UInt8)

/-- The text of a file that holds one. -/
def Files.text? (files : Files) (path : String) : Option String := do
  return String.ofList (← Text.decode? (← files path))

namespace Catalog

/-- Why there is no curriculum. -/
inductive Error where
  | unreadable (path : String)
  | malformed
  | faulty (fault : Fault)
  deriving DecidableEq, Repr

def Error.message : Error → String
  | unreadable path => "failed to read level catalog " ++ path
  | malformed => "malformed level catalog"
  | faulty fault => fault.message

/-- The curriculum of a catalog text, not yet checked. -/
def parse? (text : String) : Option Curriculum := Toml.ofText? decode text

/-- A curriculum that is checked, with what the check leaves in the log. -/
def checked : Option Curriculum → Except Error Curriculum × List Note
  | none => (.error .malformed, [])
  | some c =>
    match fault? c with
    | some f => (.error (.faulty f), [.catalogRejected f.message])
    | none => (.ok c, [.catalogLoaded c.size])

def ofText (text : String) : Except Error Curriculum × List Note := checked (parse? text)

def ofFile (files : Files) (path : String) : Except Error Curriculum × List Note :=
  match files.text? path with
  | none => (.error (.unreadable path), [])
  | some text => ofText text

end Catalog

namespace Config

inductive Error where
  | unreadable
  | malformed
  deriving DecidableEq, Repr

def ofText (text : String) : Except Error Config :=
  match Toml.ofText? decode text with
  | none => .error .malformed
  | some c => .ok c

def ofFile (files : Files) (path : String) : Except Error Config :=
  match files.text? path with
  | none => .error .unreadable
  | some text => ofText text

end Config

end RocketPuzzle
