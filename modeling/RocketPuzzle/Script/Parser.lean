import RocketPuzzle.Program
import RocketPuzzle.Script.Token
import RocketPuzzle.Text.Numeral

/-! # Reading a script

The reader takes one token at a time. It keeps the repeats that are open, innermost first, and
what is due next: a block, the count of a repeat, or the brace that opens its body.
-/
namespace RocketPuzzle.Script

/-- What a word means where a block is due. -/
inductive Keyword where
  | simple (block : Block)
  | repeats
  deriving DecidableEq, Repr

/-- The keyword that a word spells, in upper or lower case of ASCII. -/
def keyword? (word : String) : Option Keyword :=
  match word.map Char.toLower with
  | "start" => some (.simple .start)
  | "move" | "forward" => some (.simple .move)
  | "left" | "turn_left" => some (.simple .turnLeft)
  | "right" | "turn_right" => some (.simple .turnRight)
  | "collect" | "refuel" => some (.simple .collect)
  | "repeat" => some .repeats
  | _ => none

/-- A count is a decimal numeral below `2 ^ 32`, perhaps after one plus sign. -/
def count? (word : String) : Option UInt32 :=
  match word.toList with
  | '+' :: digits => Text.natural? digits >>= Text.word32?
  | digits => Text.natural? digits >>= Text.word32?

/-- A repeat whose body is being read. -/
structure OpenRepeat where
  times : UInt32
  /-- The offset of its opening brace. -/
  openedAt : Nat
  /-- The blocks that stand before it, in reverse. -/
  before : List Block
  deriving DecidableEq, Repr

/-- What is due next; the offsets are those of the word `repeat`. -/
inductive Due where
  | block
  | count (repeatAt : Nat)
  | body (repeatAt : Nat) (times : UInt32)
  deriving DecidableEq, Repr

structure Reader where
  /-- Innermost first. -/
  opened : List OpenRepeat := []
  /-- The blocks of the innermost body so far, in reverse. -/
  blocks : List Block := []
  due : Due := .block
  deriving DecidableEq, Repr

namespace Reader

def push (r : Reader) (b : Block) : Reader := { r with blocks := b :: r.blocks, due := .block }

/-- A closing brace where a block was due. -/
def close (r : Reader) (offset : Nat) : Except Program.Error Reader :=
  match r.opened with
  | [] => .error (.unmatchedBrace offset)
  | o :: outer =>
    .ok { opened := outer, blocks := .repeated o.times r.blocks.reverse :: o.before }

/-- A word where a block was due. -/
def word (r : Reader) (text : String) (offset : Nat) : Except Program.Error Reader :=
  match keyword? text with
  | some (.simple b) => .ok (r.push b)
  | some .repeats => .ok { r with due := .count offset }
  | none => .error (.unexpectedToken text offset)

/-- The opening brace of a body, at byte `offset`. -/
def openBody (r : Reader) (repeatAt : Nat) (times : UInt32) (offset : Nat) :
    Except Program.Error Reader :=
  if r.opened.length = Program.maxDepth then .error (.nestingTooDeep repeatAt Program.maxDepth)
  else .ok { opened := ⟨times, offset, r.blocks⟩ :: r.opened }

def next (r : Reader) (t : Token) : Except Program.Error Reader :=
  match r.due, t.symbol with
  | .block, .closing => r.close t.offset
  | .block, .opening => .error (.unexpectedToken "\x7b" t.offset)
  | .block, .word text => r.word text t.offset
  | .count repeatAt, .word text =>
    match count? text with
    | some times => .ok { r with due := .body repeatAt times }
    | none => .error (.missingRepeatCount repeatAt)
  | .count repeatAt, _ => .error (.missingRepeatCount repeatAt)
  | .body repeatAt times, .opening => r.openBody repeatAt times t.offset
  | .body repeatAt _, _ => .error (.missingRepeatBody repeatAt)

/-- The blocks that have been read when the tokens end. -/
def finish (r : Reader) : Except Program.Error (List Block) :=
  match r.due, r.opened with
  | .count repeatAt, _ => .error (.missingRepeatCount repeatAt)
  | .body repeatAt _, _ => .error (.missingRepeatBody repeatAt)
  | .block, o :: _ => .error (.unclosedRepeat o.openedAt)
  | .block, [] => .ok r.blocks.reverse

end Reader

/-- The blocks of a row of tokens. -/
def blocks (ts : List Token) : Except Program.Error (List Block) :=
  ts.foldlM Reader.next {} >>= Reader.finish

/-- The program that a script describes. -/
def parse (text : String) : Except Program.Error Program :=
  (blocks (tokens text.toList)).map Program.mk

end RocketPuzzle.Script
