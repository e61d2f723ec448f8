import RocketPuzzle.Level

/-! # Programs

A program is a tree of blocks. The toolbox of a level and the size of its reference solution are
compared with the blocks as they were placed, nested ones and the start block included.
-/
namespace RocketPuzzle

inductive Block where
  /-- Anchors a program and does nothing. -/
  | start
  | move
  | turnLeft
  | turnRight
  | collect
  /-- The body, `times` times over. -/
  | repeated (times : UInt32) (body : List Block)
  deriving Repr

namespace Block

def kind : Block → BlockKind
  | start => .start
  | move => .move
  | turnLeft => .turnLeft
  | turnRight => .turnRight
  | collect => .collect
  | repeated .. => .repeated

mutual

/-- Equality of trees, decided branch by branch. -/
def decEq : (a b : Block) → Decidable (a = b)
  | start, b | move, b | turnLeft, b | turnRight, b | collect, b => by
    cases b <;> first | exact isTrue rfl | exact isFalse nofun
  | repeated m xs, b =>
    match b with
    | repeated n ys =>
      match decEqAll xs ys with
      | isTrue h =>
        if k : m = n then isTrue (by rw [h, k]) else isFalse fun e => k (by injection e)
      | isFalse h => isFalse fun e => h (by injection e)
    | start | move | turnLeft | turnRight | collect => isFalse nofun

def decEqAll : (a b : List Block) → Decidable (a = b)
  | [], [] => isTrue rfl
  | [], _ :: _ => isFalse nofun
  | _ :: _, [] => isFalse nofun
  | x :: xs, y :: ys =>
    match decEq x y with
    | isFalse h => isFalse fun e => h (by injection e)
    | isTrue h =>
      match decEqAll xs ys with
      | isTrue k => isTrue (by rw [h, k])
      | isFalse k => isFalse fun e => k (by injection e)

end

instance : DecidableEq Block := decEq

mutual

/-- The number of blocks in a tree. -/
def size : Block → Nat
  | repeated _ body => 1 + sizeAll body
  | _ => 1

def sizeAll : List Block → Nat
  | [] => 0
  | b :: rest => b.size + sizeAll rest

end

mutual

/-- Some block of the tree is of kind `k`. -/
def uses (k : BlockKind) : Block → Bool
  | repeated _ body => k = .repeated || usesAll k body
  | b => k = b.kind

def usesAll (k : BlockKind) : List Block → Bool
  | [] => false
  | b :: rest => b.uses k || usesAll k rest

end

end Block

structure Program where
  blocks : List Block := []
  deriving DecidableEq, Repr

namespace Program

/-- No program expands to more commands than this. -/
def maxCommands : Nat := 10000

/-- No repeat of a script stands inside more repeats than this. -/
def maxDepth : Nat := 64

def blockCount (p : Program) : Nat := Block.sizeAll p.blocks

/-- The kinds of block that occur anywhere in the program, in the order of the toolbox. -/
def kinds (p : Program) : List BlockKind :=
  BlockKind.all.filter fun k => Block.usesAll k p.blocks

/-- The kinds in use that the level does not offer. -/
def disallowed (p : Program) (l : Level) : List BlockKind :=
  p.kinds.filter fun k => !l.allows k

/-- More blocks than the reference solution has, where its size is known. -/
def exceedsIdeal (p : Program) (l : Level) : Bool :=
  0 < l.idealBlockCount && l.idealBlockCount.toNat < p.blockCount

/-- Why a text or a tree of blocks gives no commands. Offsets count bytes. -/
inductive Error where
  /-- The text is not a program in the exchange format. -/
  | malformedJson
  /-- A word that names no block, or a brace where a block was due. -/
  | unexpectedToken (token : String) (offset : Nat)
  /-- The offset is that of the word `repeat`. -/
  | missingRepeatCount (offset : Nat)
  /-- The offset is that of the word `repeat`. -/
  | missingRepeatBody (offset : Nat)
  /-- The offset is that of the opening brace. -/
  | unclosedRepeat (offset : Nat)
  | unmatchedBrace (offset : Nat)
  /-- The offset is that of the word `repeat`. -/
  | nestingTooDeep (offset limit : Nat)
  | tooManyCommands (limit : Nat)
  deriving DecidableEq, Repr

namespace Error

def message : Error → String
  | malformedJson => "malformed program json"
  | unexpectedToken token offset =>
    String.join ["unexpected `", token, "` at byte ", toString offset]
  | missingRepeatCount offset => s!"repeat at byte {offset} is missing its count"
  | missingRepeatBody offset => s!"repeat at byte {offset} is missing its opening brace"
  | unclosedRepeat offset => s!"repeat body opened at byte {offset} is never closed"
  | unmatchedBrace offset => s!"unmatched closing brace at byte {offset}"
  | nestingTooDeep offset limit =>
    s!"repeat at byte {offset} is nested deeper than {limit} levels"
  | tooManyCommands limit => s!"program expands to more than {limit} commands"

end Error

end Program

end RocketPuzzle
