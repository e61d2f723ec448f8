/-! # Scanners

A scanner reads from the front of a text and leaves the rest, or refuses. Repetition stops at the
first item that is refused or reads nothing, so it always ends.
-/
namespace RocketPuzzle.Toml

abbrev Scanner := StateT (List Char) Option

namespace Scanner

variable {α : Type}

def satisfy (p : Char → Bool) : Scanner Char
  | c :: rest => if p c then some (c, rest) else none
  | [] => none

def char (c : Char) : Scanner Unit := do
  let _ ← satisfy (· == c)

/-- The given characters, in their order. -/
def exactly : List Char → Scanner Unit
  | [] => pure ()
  | c :: rest => do
    char c
    exactly rest

def takeWhile (p : Char → Bool) : Scanner (List Char) :=
  fun s => some (s.takeWhile p, s.dropWhile p)

def takeWhile1 (p : Char → Bool) : Scanner (List Char) := do
  let first ← satisfy p
  return first :: (← takeWhile p)

/-- As many as `n` characters, each of which satisfies `p`. -/
def count (p : Char → Bool) : Nat → Scanner (List Char)
  | 0 => pure []
  | n + 1 => do return (← satisfy p) :: (← count p n)

/-- The end of the text. -/
def ended : Scanner Unit
  | [] => some ((), [])
  | _ => none

def many (item : Scanner α) (s : List Char) : Option (List α × List Char) :=
  match item s with
  | none => some ([], s)
  | some (a, rest) =>
    if rest.length < s.length then do
      let (items, left) ← many item rest
      return (a :: items, left)
    else some ([], s)
termination_by s.length

def repeated (item : Scanner α) : Scanner (List α) := many item

/-- Items with a separator between each two of them, at least one. -/
def separated1 (item : Scanner α) (separator : Scanner Unit) : Scanner (List α) := do
  let first ← item
  let more ← repeated do
    separator
    item
  return first :: more

def separated (item : Scanner α) (separator : Scanner Unit) : Scanner (List α) :=
  separated1 item separator <|> pure []

end Scanner

end RocketPuzzle.Toml
