import RocketPuzzle.Text.Blank

/-! # Tokens of a script

A script is words and braces. Blanks, semicolons and commas separate words; a comment runs from
`#` to the end of its line. The lexer reads one character at a time, so what it does with a text
follows from what it does with the text's parts. Offsets count bytes of UTF-8.
-/
namespace RocketPuzzle.Script

inductive Symbol where
  | word (text : String)
  | opening
  | closing
  deriving DecidableEq, Repr

structure Token where
  symbol : Symbol
  offset : Nat
  deriving DecidableEq, Repr

def isSeparator (c : Char) : Bool := Text.isBlank c || c == ';' || c == ','

/-- What ends a word. -/
def isDelimiter (c : Char) : Bool := isSeparator c || c == '{' || c == '}' || c == '#'

/-- Where the lexer stands between two characters. -/
inductive Mode where
  | gap
  | comment
  /-- Inside a word that began at byte `start`; its characters so far are in reverse. -/
  | word (start : Nat) (read : List Char)
  deriving DecidableEq, Repr

/-- The word that is complete when the mode is left. -/
def Mode.flush : Mode → List Token
  | word start read => [⟨.word (String.ofList read.reverse), start⟩]
  | _ => []

/-- A character outside words and comments. -/
def enter (offset : Nat) (c : Char) : Mode × List Token :=
  if c == '#' then (.comment, [])
  else if c == '{' then (.gap, [⟨.opening, offset⟩])
  else if c == '}' then (.gap, [⟨.closing, offset⟩])
  else if isSeparator c then (.gap, [])
  else (.word offset [c], [])

/-- One character, at byte `offset`: the mode after it and the tokens that it completes. -/
def Mode.next (m : Mode) (offset : Nat) (c : Char) : Mode × List Token :=
  match m with
  | gap => enter offset c
  | comment => if c == '\n' then (.gap, []) else (.comment, [])
  | word start read =>
    if isDelimiter c then
      let (after, tokens) := enter offset c
      (after, m.flush ++ tokens)
    else (.word start (c :: read), [])

def tokensFrom : Mode → Nat → List Char → List Token
  | m, _, [] => m.flush
  | m, offset, c :: rest =>
    let (after, tokens) := m.next offset c
    tokens ++ tokensFrom after (offset + c.utf8Size) rest

/-- The tokens of a text. -/
def tokens (text : List Char) : List Token := tokensFrom .gap 0 text

end RocketPuzzle.Script
