import RocketPuzzle.Datum

/-! # Writing the exchange format

Compact JSON: no blanks, fields in their order. Quotation marks, backslashes and control
characters are escaped and everything else is written as it is.
-/
namespace RocketPuzzle.Json

def hexDigit (n : Nat) : Char := if n < 10 then Char.ofNat (48 + n) else Char.ofNat (87 + n)

/-- A character inside quotes. -/
def escape (c : Char) : List Char :=
  if c == '"' then ['\\', '"']
  else if c == '\\' then ['\\', '\\']
  else if c == '\x08' then ['\\', 'b']
  else if c == '\x0c' then ['\\', 'f']
  else if c == '\n' then ['\\', 'n']
  else if c == '\r' then ['\\', 'r']
  else if c == '\t' then ['\\', 't']
  else if c.toNat < 0x20 then ['\\', 'u', '0', '0', hexDigit (c.toNat / 16), hexDigit (c.toNat % 16)]
  else [c]

def quote (s : String) : List Char := '"' :: s.toList.flatMap escape ++ ['"']

mutual

/-- A datum as text. What has no form in the format is written as null. -/
def write : Datum → List Char
  | .null | .scalar | .date | .broken => "null".toList
  | .natural n => (toString n).toList
  | .text s => quote s
  | .list items => '[' :: writeItems items ++ [']']
  | .table fields => '\x7b' :: writeFields fields ++ ['\x7d']

def writeItems : List Datum → List Char
  | [] => []
  | [d] => write d
  | d :: rest => write d ++ ',' :: writeItems rest

def writeFields : List (Option String × Datum) → List Char
  | [] => []
  | [(name, d)] => quote (name.getD "") ++ ':' :: write d
  | (name, d) :: rest => quote (name.getD "") ++ ':' :: write d ++ ',' :: writeFields rest

end

end RocketPuzzle.Json
