import RocketPuzzle.Codec.Words
import RocketPuzzle.Pacing

/-! # Levels as data

The fields of levels, curricula and pacings, with their order and their defaults.
-/
namespace RocketPuzzle

namespace Cell

def fieldNames : List String := ["x", "y"]

def decode : Decoder Cell := fun p d => do
  let r ← Record.read fieldNames p d
  return ⟨← r.required "x" Decoder.word32, ← r.required "y" Decoder.word32⟩

def datum (c : Cell) : Datum :=
  .table [(some "x", .natural c.x.toNat), (some "y", .natural c.y.toNat)]

end Cell

namespace Level

def fieldNames : List String :=
  ["id", "title", "description", "hint", "grid_size", "start", "start_heading", "goal", "fuel",
    "obstacles", "toolbox", "ideal_block_count"]

def decode : Decoder Level := fun p d => do
  let r ← Record.read fieldNames p d
  return {
    id := ← r.required "id" Decoder.word32
    title := ← r.optional "title" "" Decoder.text
    description := ← r.optional "description" "" Decoder.text
    hint := ← r.optional "hint" "" Decoder.text
    gridSize := ← r.required "grid_size" Decoder.word32
    start := ← r.required "start" Cell.decode
    startHeading := ← r.required "start_heading" (Decoder.choice Heading.names)
    goal := ← r.required "goal" Cell.decode
    fuel := ← r.optional "fuel" none (Decoder.nullable Cell.decode)
    obstacles := ← r.optional "obstacles" [] (Decoder.list Cell.decode)
    toolbox := ← r.optional "toolbox" BlockKind.all
      (Decoder.list (Decoder.choice BlockKind.names))
    idealBlockCount := ← r.optional "ideal_block_count" 0 Decoder.word32 }

def datum (l : Level) : Datum :=
  .table [
    (some "id", .natural l.id.toNat),
    (some "title", .text l.title),
    (some "description", .text l.description),
    (some "hint", .text l.hint),
    (some "grid_size", .natural l.gridSize.toNat),
    (some "start", l.start.datum),
    (some "start_heading", .text (spelling Heading.names l.startHeading)),
    (some "goal", l.goal.datum),
    (some "fuel", l.fuel.elim .null Cell.datum),
    (some "obstacles", .list (l.obstacles.map Cell.datum)),
    (some "toolbox", .list (l.toolbox.map fun k => .text k.name)),
    (some "ideal_block_count", .natural l.idealBlockCount.toNat)]

end Level

namespace Curriculum

def fieldNames : List String := ["tutorial", "levels"]

def decode : Decoder Curriculum := fun p d => do
  let r ← Record.read fieldNames p d
  return ⟨← r.required "tutorial" Level.decode, ← r.required "levels" (Decoder.list Level.decode)⟩

def datum (c : Curriculum) : Datum :=
  .table [(some "tutorial", c.tutorial.datum), (some "levels", .list (c.levels.map Level.datum))]

end Curriculum

namespace Pacing

def fieldNames : List String :=
  ["command_interval_ms", "settle_delay_ms", "first_step_delay_ms", "curriculum_delay_ms"]

def decode : Decoder Pacing := fun p d => do
  let r ← Record.read fieldNames p d
  let standard : Pacing := {}
  return {
    commandInterval :=
      ← r.optional "command_interval_ms" standard.commandInterval Decoder.word64
    settleDelay := ← r.optional "settle_delay_ms" standard.settleDelay Decoder.word64
    firstStepDelay := ← r.optional "first_step_delay_ms" standard.firstStepDelay Decoder.word64
    curriculumDelay :=
      ← r.optional "curriculum_delay_ms" standard.curriculumDelay Decoder.word64 }

end Pacing

end RocketPuzzle
