import RocketPuzzle.Json.Number
import RocketPuzzle.Text.Utf8

/-! # Tokens of the exchange format

The lexer of JSON texts reads one piece at a time. Escapes that name half a surrogate pair and stray
bytes leave a text token without a value: it may be read past, not used.
-/
namespace RocketPuzzle.Json

open Text (Piece)

inductive Token where
  | openList
  | closeList
  | openTable
  | closeTable
  | comma
  | colon
  | text (value : Option String)
  | leaf (value : Datum)
  deriving Repr

/-- A part of a quoted text. -/
inductive Fragment where
  | char (c : Char)
  /-- A unit of UTF-16 from an escape. -/
  | unit (n : Nat)
  | stray
  deriving DecidableEq, Repr

def isHighSurrogate (n : Nat) : Bool := 0xD800 ≤ n && n ≤ 0xDBFF

def isLowSurrogate (n : Nat) : Bool := 0xDC00 ≤ n && n ≤ 0xDFFF

/-- The characters of a quoted text, if all of it is Unicode. -/
def join : List Fragment → Option (List Char)
  | [] => some []
  | .char c :: rest => (join rest).map (c :: ·)
  | .stray :: _ => none
  | .unit n :: rest =>
    if isHighSurrogate n then
      match rest with
      | .unit m :: rest₂ =>
        if isLowSurrogate m then
          (join rest₂).map (Char.ofNat (0x10000 + (n - 0xD800) * 0x400 + (m - 0xDC00)) :: ·)
        else none
      | _ => none
    else if isLowSurrogate n then none
    else (join rest).map (Char.ofNat n :: ·)

/-- Where the lexer stands; what has been read is in reverse. -/
inductive Mode where
  | gap
  /-- In a literal or a number. -/
  | bare (read : List Char)
  | quoted (read : List Fragment)
  /-- After a backslash. -/
  | escape (read : List Fragment)
  /-- In a `\u` escape, with `left` digits to come. -/
  | hex (read : List Fragment) (left : Nat) (value : Nat)
  deriving DecidableEq, Repr

def isSpace (c : Char) : Bool := c == ' ' || c == '\t' || c == '\n' || c == '\r'

/-- The value of an unquoted word. -/
def bare? (word : List Char) : Option Datum :=
  if word = "null".toList then some .null
  else if word = "true".toList ∨ word = "false".toList then some .scalar
  else (numeral? word).map Numeral.datum

/-- The token that a character is on its own. -/
def punctuation? (c : Char) : Option Token :=
  if c == '[' then some .openList
  else if c == ']' then some .closeList
  else if c == '\x7b' then some .openTable
  else if c == '\x7d' then some .closeTable
  else if c == ',' then some .comma
  else if c == ':' then some .colon
  else none

/-- The character that a one-letter escape names. -/
def escaped? (c : Char) : Option Char :=
  if c == '"' || c == '\\' || c == '/' then some c
  else if c == 'b' then some '\x08'
  else if c == 'f' then some '\x0c'
  else if c == 'n' then some '\n'
  else if c == 'r' then some '\r'
  else if c == 't' then some '\t'
  else none

/-- A lexer between two pieces, with the tokens so far in reverse. -/
structure Lexer where
  mode : Mode := .gap
  tokens : List Token := []
  deriving Repr

namespace Lexer

def emit (l : Lexer) (t : Token) : Lexer := ⟨.gap, t :: l.tokens⟩

/-- The end of an unquoted word, if the lexer is in one. -/
def endWord (l : Lexer) : Option Lexer :=
  match l.mode with
  | .gap => some l
  | .bare read => (bare? read.reverse).map fun d => l.emit (.leaf d)
  | _ => none

/-- A character outside quotes. -/
def outside (l : Lexer) (c : Char) : Option Lexer :=
  if isSpace c then l.endWord
  else if c == '"' then l.endWord.map fun k => { k with mode := .quoted [] }
  else
    match punctuation? c with
    | some t => l.endWord.map (·.emit t)
    | none =>
      match l.mode with
      | .bare read => some { l with mode := .bare (c :: read) }
      | _ => some { l with mode := .bare [c] }

def quoted (l : Lexer) (read : List Fragment) (c : Char) : Option Lexer :=
  if c == '"' then some (l.emit (.text ((join read.reverse).map String.ofList)))
  else if c == '\\' then some { l with mode := .escape read }
  else if c.toNat < 0x20 then none
  else some { l with mode := .quoted (.char c :: read) }

def escape (l : Lexer) (read : List Fragment) (c : Char) : Option Lexer :=
  if c == 'u' then some { l with mode := .hex read 4 0 }
  else (escaped? c).map fun e => { l with mode := .quoted (.char e :: read) }

def hex (l : Lexer) (read : List Fragment) (left value : Nat) (c : Char) : Option Lexer := do
  let digit ← Text.hexValue? c
  let more := 16 * value + digit
  if left ≤ 1 then return { l with mode := .quoted (.unit more :: read) }
  else return { l with mode := .hex read (left - 1) more }

def next (l : Lexer) : Piece → Option Lexer
  | .char c =>
    match l.mode with
    | .gap | .bare _ => l.outside c
    | .quoted read => l.quoted read c
    | .escape read => l.escape read c
    | .hex read left value => l.hex read left value c
  | .stray _ =>
    match l.mode with
    | .quoted read => some { l with mode := .quoted (.stray :: read) }
    | _ => none

end Lexer

/-- The tokens of a text, or nothing where a part of it is no token. -/
def tokens? (ps : List Piece) : Option (List Token) := do
  let l ← ps.foldlM Lexer.next {}
  let l ← l.endWord
  return l.tokens.reverse

end RocketPuzzle.Json
