import RocketPuzzle.Codec.Program
import RocketPuzzle.Json
import RocketPuzzle.Text.Base64
import RocketPuzzle.Text.Blank

/-! # Share codes

A program on one line, for copying: a domain, a version and a payload between colons. The payload is
the program in the exchange format, in base64. Blanks around a code are not part of it.
-/
namespace RocketPuzzle

/-- A program with the level it was written for, if that is known. -/
structure SharedProgram where
  level : Option UInt32
  program : Program
  deriving DecidableEq, Repr

namespace SharedProgram

def fieldNames : List String := ["level", "program"]

def decode : Decoder SharedProgram := fun p d => do
  let r ← Record.read fieldNames p d
  return ⟨← r.optional "level" none (Decoder.nullable Decoder.word32),
    ← r.required "program" Program.decode⟩

def datum (s : SharedProgram) : Datum :=
  .table [(some "level", s.level.elim .null fun n => .natural n.toNat),
    (some "program", s.program.datum)]

end SharedProgram

namespace ShareCode

def domain : String := "kru"

def version : String := "v1"

/-- What every code begins with. -/
def header : String := domain ++ ":" ++ version

inductive Error where
  | emptyPayload
  | missingVersion
  | missingPayload
  | invalidPrefix (domain : String)
  | unsupportedVersion (version : String)
  /-- The payload is not base64. -/
  | invalidEncoding
  /-- The payload is not a program. -/
  | invalidPayload
  deriving DecidableEq, Repr

def Error.message : Error → String
  | emptyPayload => "share code was empty"
  | missingVersion => "share code is missing the version"
  | missingPayload => "share code is missing the payload"
  | invalidPrefix domain => s!"share prefix '{domain}' is not supported"
  | unsupportedVersion version => s!"share code version '{version}' is not supported"
  | invalidEncoding => "could not decode share payload"
  | invalidPayload => "could not parse share payload"

/-- The text before the first colon, and the text after it if there is one. -/
def cut (text : List Char) : List Char × Option (List Char) :=
  (text.takeWhile (· ≠ ':'), (text.dropWhile (· ≠ ':')).tail?)

/-- The bytes of a text in ASCII. -/
def asciiBytes (text : List Char) : List UInt8 := text.map fun c => UInt8.ofNat c.toNat

/-- The payload of a program; all of it is ASCII. -/
def payload (s : SharedProgram) : List UInt8 := asciiBytes (Json.write s.datum)

def encode (s : SharedProgram) : String :=
  header ++ ":" ++ String.ofList (Text.Base64.encode (payload s))

def ofPayload (text : List Char) : Except Error SharedProgram :=
  match Text.Base64.decode? text with
  | none => .error .invalidEncoding
  | some bytes =>
    match Json.decode? SharedProgram.decode (Text.pieces bytes) with
    | none => .error .invalidPayload
    | some s => .ok s

/-- The program that a code stands for. The parts are counted before they are read. -/
def decode (code : String) : Except Error SharedProgram :=
  match Text.trim code.toList with
  | [] => .error .emptyPayload
  | text =>
    match cut text with
    | (_, none) => .error .missingVersion
    | (first, some rest) =>
      match cut rest with
      | (_, none) => .error .missingPayload
      | (second, some body) =>
        if String.ofList first ≠ domain then .error (.invalidPrefix (String.ofList first))
        else if String.ofList second ≠ version then
          .error (.unsupportedVersion (String.ofList second))
        else ofPayload body

end ShareCode

end RocketPuzzle
