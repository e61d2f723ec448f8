import RocketPuzzle.Text.Numeral
import RocketPuzzle.Toml.Scanner

/-! # Layout of TOML texts

Blanks, line ends, comments, quoted texts and keys.
-/
namespace RocketPuzzle.Toml

open Scanner

def isBlank (c : Char) : Bool := c == ' ' || c == '\t'

def isNonAscii (c : Char) : Bool := 0x80 ≤ c.toNat

/-- Printable ASCII, blanks and everything beyond ASCII. -/
def isPrintable (c : Char) : Bool :=
  c == '\t' || (0x20 ≤ c.toNat && c.toNat ≤ 0x7E) || isNonAscii c

def blanks : Scanner Unit := do
  let _ ← takeWhile isBlank

def newline : Scanner Unit := char '\n' <|> exactly ['\r', '\n']

def comment : Scanner Unit := do
  char '#'
  let _ ← takeWhile isPrintable

/-- Blanks and perhaps a comment, to the end of the line. -/
def lineEnd : Scanner Unit := do
  blanks
  let _ ← optional comment
  newline <|> ended

/-- Blanks, comments and line ends, inside an array. -/
def filler : Scanner Unit := do
  let _ ← repeated do
    (do let _ ← takeWhile1 isBlank) <|> newline <|> (do comment; newline)

/-- The value of a row of digits in a base up to sixteen. -/
def valueIn (base : Nat) (digits : List Char) : Nat :=
  digits.foldl (fun n d => base * n + (Text.hexValue? d).getD 0) 0

/-- A character by its number; surrogates are none. -/
def scalarChar (digits : Nat) : Scanner Char := do
  let n := valueIn 16 (← count (fun c => (Text.hexValue? c).isSome) digits)
  if h : n.isValidChar then return Char.ofNatAux n h else failure

/-- What follows a backslash. -/
def escaped : Scanner Char := do
  match ← satisfy fun _ => true with
  | 'b' => return '\x08'
  | 't' => return '\t'
  | 'n' => return '\n'
  | 'f' => return '\x0c'
  | 'r' => return '\r'
  | '"' => return '"'
  | '\\' => return '\\'
  | 'u' => scalarChar 4
  | 'U' => scalarChar 8
  | _ => failure

def isBasic (c : Char) : Bool := isPrintable c && c != '"' && c != '\\'

def isLiteral (c : Char) : Bool := isPrintable c && c != '\''

def escape : Scanner (List Char) := do
  char '\\'
  return [← escaped]

/-- A backslash at the end of a line joins the next text to it. -/
def joinedLines : Scanner (List Char) := do
  char '\\'
  blanks
  newline
  let _ ← repeated ((do let _ ← takeWhile1 isBlank) <|> newline)
  return []

def plainNewline : Scanner (List Char) := do
  newline
  return ['\n']

/-- One or two quotation marks that do not end a text. -/
def innerQuotes (q : Char) : Scanner (List Char) := fun s =>
  let run := s.takeWhile (· == q)
  if run.length = 1 ∨ run.length = 2 then some (run, s.drop run.length) else none

/-- Three quotation marks, with up to two before them that belong to the text. -/
def closingQuotes (q : Char) : Scanner (List Char) := fun s =>
  let run := (s.takeWhile (· == q)).take 5
  if 3 ≤ run.length then some (run.drop 3, s.drop run.length) else none

/-- The text between opening quotation marks and closing ones, over several lines. -/
def multiline (q : Char) (part : Scanner (List Char)) : Scanner (List Char) := do
  exactly [q, q, q]
  let _ ← optional newline
  let parts ← repeated (part <|> innerQuotes q <|> plainNewline)
  return parts.flatten ++ (← closingQuotes q)

def basicText : Scanner (List Char) := do
  char '"'
  let parts ← repeated (takeWhile1 isBasic <|> escape)
  char '"'
  return parts.flatten

def literalText : Scanner (List Char) := do
  char '\''
  let body ← takeWhile isLiteral
  char '\''
  return body

def quotedText : Scanner (List Char) :=
  multiline '"' (takeWhile1 isBasic <|> joinedLines <|> escape) <|>
    multiline '\'' (takeWhile1 isLiteral) <|> basicText <|> literalText

def isBareKey (c : Char) : Bool :=
  c.isAlphanum || c == '_' || c == '-'

def simpleKey : Scanner String := do
  blanks
  let name ← takeWhile1 isBareKey <|> basicText <|> literalText
  blanks
  return String.ofList name

/-- The most names that a dotted key may have. -/
def maxKeyLength : Nat := 79

/-- A key: names with dots between them. -/
def key : Scanner (List String) := do
  let names ← separated1 simpleKey (char '.')
  if names.length ≤ maxKeyLength then return names else failure

end RocketPuzzle.Toml
