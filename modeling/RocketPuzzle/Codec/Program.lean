import RocketPuzzle.Codec.Words
import RocketPuzzle.Program

/-! # Programs as data

A block is a table with its kind under `type`, or a list that begins with its kind. A block is read
whole before it is understood, so all that it holds has to be sound and counts as nesting, even
fields that its kind does not have.
-/
namespace RocketPuzzle

namespace Datum

mutual

/-- No more than `room` lists and tables are open at once, and every value can be used. -/
def isSound (room : Nat) : Datum → Bool
  | .broken => false
  | .list items => 0 < room && areSound (room - 1) items
  | .table fields => 0 < room && haveSound (room - 1) fields
  | _ => true

def areSound (room : Nat) : List Datum → Bool
  | [] => true
  | d :: rest => isSound room d && areSound room rest

def haveSound (room : Nat) : List (Option String × Datum) → Bool
  | [] => true
  | (name, d) :: rest => name.isSome && isSound room d && haveSound room rest

end

end Datum

namespace Block

/-- The kind that a datum names. Inside another block its place in the toolbox will do. -/
def kind? (nested : Bool) : Datum → Option BlockKind
  | .text s => BlockKind.names.lookup s
  | .natural n => if nested then BlockKind.all[n]? else none
  | _ => none

/-- The block of a kind that has no fields. -/
def plain? : BlockKind → Option Block
  | .start => some start
  | .move => some move
  | .turnLeft => some turnLeft
  | .turnRight => some turnRight
  | .collect => some collect
  | .repeated => none

/-- The fields of a table that matter to a block, each with all values that are given. -/
structure Parts where
  kinds : List Datum := []
  times : List Datum := []
  bodies : List (Option (List Block)) := []

def times? : Datum → Option UInt32
  | .natural n => Text.word32? n
  | _ => none

/-- The block that the fields make up, where none that it needs is repeated or missing. -/
def ofParts? (nested : Bool) (parts : Parts) : Option Block := do
  let [kind] := parts.kinds | none
  match plain? (← kind? nested kind) with
  | some b => return b
  | none =>
    let [times] := parts.times | none
    match parts.bodies with
    | [] => return repeated (← times? times) []
    | [body] => return repeated (← times? times) (← body)
    | _ => none

/-- The block of a list that has more items than its kind, which only a repeat has. -/
def ofItems? (times : Datum) (body : Option (List Block)) (kind : BlockKind) : Option Block :=
  match plain? kind with
  | some _ => none
  | none => do return repeated (← times? times) (← body)

mutual

/-- The block that a datum describes. -/
def ofDatum? (nested : Bool) : Datum → Option Block
  | .table fields => ofParts? nested (partsOf fields)
  | .list [kind] => kind? nested kind >>= plain?
  | .list [kind, times] => kind? nested kind >>= ofItems? times (some [])
  | .list [kind, times, body] => kind? nested kind >>= ofItems? times (bodyOf? body)
  | _ => none

/-- A body is a list of blocks. -/
def bodyOf? : Datum → Option (List Block)
  | .list items => blocksOf? items
  | _ => none

def blocksOf? : List Datum → Option (List Block)
  | [] => some []
  | d :: rest => do return (← ofDatum? true d) :: (← blocksOf? rest)

def partsOf : List (Option String × Datum) → Parts
  | [] => {}
  | (name, d) :: rest =>
    let parts := partsOf rest
    if name = some "type" then { parts with kinds := d :: parts.kinds }
    else if name = some "times" then { parts with times := d :: parts.times }
    else if name = some "body" then { parts with bodies := bodyOf? d :: parts.bodies }
    else parts

end

def decode : Decoder Block := fun p d => if d.isSound p.room then ofDatum? false d else none

mutual

def datum : Block → Datum
  | repeated times body =>
    .table [(some "type", .text BlockKind.repeated.name), (some "times", .natural times.toNat),
      (some "body", .list (dataOf body))]
  | b => .table [(some "type", .text b.kind.name)]

def dataOf : List Block → List Datum
  | [] => []
  | b :: rest => b.datum :: dataOf rest

end

end Block

namespace Program

def fieldNames : List String := ["blocks"]

def decode : Decoder Program := fun p d => do
  let r ← Record.read fieldNames p d
  return ⟨← r.optional "blocks" [] (Decoder.list Block.decode)⟩

def datum (p : Program) : Datum := .table [(some "blocks", .list (Block.dataOf p.blocks))]

end Program

end RocketPuzzle
