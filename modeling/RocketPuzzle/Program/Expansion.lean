import RocketPuzzle.Program

/-! # Expansion

The commands that a program stands for. `Block.expansion` is the meaning of a tree of blocks;
`Program.compile` writes the commands into one buffer, which holds no more than `maxCommands`. A
loop is given up after a pass that writes nothing, so a repeat count in the billions costs nothing.
-/
namespace RocketPuzzle

namespace Block

mutual

/-- The commands of a tree: a repeat stands for as many copies of its body. -/
def expansion : Block → List Command
  | start => []
  | move => [.move]
  | turnLeft => [.turnLeft]
  | turnRight => [.turnRight]
  | collect => [.collect]
  | repeated times body => (List.replicate times.toNat (expansionAll body)).flatten

def expansionAll : List Block → List Command
  | [] => []
  | b :: rest => b.expansion ++ expansionAll rest

end

/-- One more command, as long as the buffer has room for it. -/
def put (c : Command) (out : Array Command) : Except Program.Error (Array Command) :=
  if Program.maxCommands ≤ out.size then .error (.tooManyCommands Program.maxCommands)
  else .ok (out.push c)

/-- The pass, so many times over. Every pass writes the same, so an empty one ends the loop. -/
def passes (pass : Array Command → Except Program.Error (Array Command)) :
    Nat → Array Command → Except Program.Error (Array Command)
  | 0, out => .ok out
  | n + 1, out => do
    let written ← pass out
    if written.size = out.size then return written else passes pass n written

mutual

/-- The commands of a tree, written at the end of the buffer. -/
def emit : Block → Array Command → Except Program.Error (Array Command)
  | start, out => .ok out
  | move, out => put .move out
  | turnLeft, out => put .turnLeft out
  | turnRight, out => put .turnRight out
  | collect, out => put .collect out
  | repeated times body, out => passes (emitAll body) times.toNat out

def emitAll : List Block → Array Command → Except Program.Error (Array Command)
  | [], out => .ok out
  | b :: rest, out => do emitAll rest (← b.emit out)

end

end Block

namespace Program

/-- The commands that the program stands for. -/
def expansion (p : Program) : List Command := Block.expansionAll p.blocks

/-- The commands of the program, unless there are too many. -/
def compile (p : Program) : Except Error (List Command) :=
  (Block.emitAll p.blocks #[]).map Array.toList

end Program

end RocketPuzzle
