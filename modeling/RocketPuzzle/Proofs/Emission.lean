import RocketPuzzle.Program.Expansion
import RocketPuzzle.Source

/-! # Programs are written whole or not at all

What the loops of a program write into the one buffer is the expansion of the program, as long as
all of it fits; otherwise nothing is left of it. So a source gives the commands of the whole
program that it describes or none.
-/
namespace RocketPuzzle

namespace Block

/-- A row of commands at the end of the buffer, where there is room for all of it. -/
def write (cs : List Command) (out : Array Command) :
    Except Program.Error (Array Command) :=
  if out.size + cs.length ≤ Program.maxCommands then .ok (out ++ cs.toArray)
  else .error (.tooManyCommands Program.maxCommands)

variable {out : Array Command} {cs : List Command}

theorem write_nil (room : out.size ≤ Program.maxCommands) : write [] out = .ok out := by
  simp [write, room]

theorem write_ok (room : out.size + cs.length ≤ Program.maxCommands) :
    write cs out = .ok (out ++ cs.toArray) := if_pos room

theorem write_error (full : ¬ out.size + cs.length ≤ Program.maxCommands) :
    write cs out = .error (.tooManyCommands Program.maxCommands) := if_neg full

theorem size_append_le (room : out.size + cs.length ≤ Program.maxCommands) :
    (out ++ cs.toArray).size ≤ Program.maxCommands := by
  simpa using room

/-- Two rows fit where the first fits and the second fits after it. -/
theorem write_append (cs ds : List Command) (out : Array Command) :
    write cs out >>= write ds = write (cs ++ ds) out := by
  by_cases room : out.size + cs.length ≤ Program.maxCommands
  · rw [write_ok room]
    change write ds (out ++ cs.toArray) = _
    simp [write, Nat.add_assoc]
  · have full : ¬ out.size + (cs ++ ds).length ≤ Program.maxCommands := by
      rw [List.length_append]
      omega
    rw [write_error room, write_error full]
    rfl

theorem put_eq (c : Command) (out : Array Command) : put c out = write [c] out := by
  unfold put write
  by_cases full : Program.maxCommands ≤ out.size
  · have : ¬ out.size + [c].length ≤ Program.maxCommands := by
      rw [List.length_singleton]
      omega
    rw [if_pos full, if_neg this]
  · have : out.size + [c].length ≤ Program.maxCommands := by
      rw [List.length_singleton]
      omega
    rw [if_neg full, if_pos this]
    simp

/-- The induction is on the number of passes. A pass that writes nothing ends the loop, and the
passes left out would have written nothing either. -/
theorem passes_eq {pass : Array Command → Except Program.Error (Array Command)}
    (h : ∀ out, out.size ≤ Program.maxCommands → pass out = write cs out) (n : Nat)
    (room : out.size ≤ Program.maxCommands) :
    passes pass n out = write (List.replicate n cs).flatten out := by
  induction n generalizing out with
  | zero => exact (write_nil room).symm
  | succ n ih =>
    rw [passes, h out room, List.replicate_succ, List.flatten_cons, ← write_append]
    by_cases fits : out.size + cs.length ≤ Program.maxCommands
    · rw [write_ok fits]
      by_cases same : (out ++ cs.toArray).size = out.size
      · obtain rfl : cs = [] := by simpa using same
        have hnone : (List.replicate n ([] : List Command)).flatten = [] := by simp
        rw [hnone]
        change (if _ then _ else _) = write [] (out ++ #[])
        rw [if_pos same, write_nil (size_append_le fits)]
        rfl
      · change (if _ then _ else _) = write _ (out ++ cs.toArray)
        rw [if_neg same]
        exact ih (size_append_le fits)
    · rw [write_error fits]
      rfl

mutual

theorem emit_eq : (b : Block) → {out : Array Command} → out.size ≤ Program.maxCommands →
    b.emit out = write b.expansion out
  | start, _, room => (write_nil room).symm
  | move, _, _ | turnLeft, _, _ | turnRight, _, _ | collect, _, _ => put_eq ..
  | repeated times body, _, room => passes_eq (fun _ k => emitAll_eq body k) times.toNat room

theorem emitAll_eq : (bs : List Block) → {out : Array Command} →
    out.size ≤ Program.maxCommands → emitAll bs out = write (expansionAll bs) out
  | [], _, room => (write_nil room).symm
  | b :: rest, out, room => by
    rw [emitAll, emit_eq b room, expansionAll, ← write_append]
    by_cases fits : out.size + b.expansion.length ≤ Program.maxCommands
    · rw [write_ok fits]
      exact emitAll_eq rest (size_append_le fits)
    · rw [write_error fits]
      rfl

end

end Block

theorem Program.compile_eq_expansion (p : Program) :
    p.compile =
      if p.expansion.length ≤ maxCommands then .ok p.expansion
      else .error (.tooManyCommands maxCommands) := by
  have hroom : (#[] : Array Command).size ≤ maxCommands := Nat.zero_le _
  rw [compile, Block.emitAll_eq p.blocks hroom]
  by_cases fits : p.expansion.length ≤ maxCommands
  · have : (#[] : Array Command).size + p.expansion.length ≤ maxCommands := by simpa using fits
    rw [if_pos fits, ← expansion, Block.write_ok this]
    simp [Except.map]
  · have : ¬ (#[] : Array Command).size + p.expansion.length ≤ maxCommands := by
      simpa using fits
    rw [if_neg fits, ← expansion, Block.write_error this]
    rfl

/-- A program without commands is compiled in no time, however often it repeats them. -/
example : (Program.mk [.repeated 4294967295 [.repeated 4294967295 [.start]]]).compile = .ok [] :=
  rfl

/-- The commands are those of the whole program that was described, or there are none. -/
structure WholeOrNone (described : Except Program.Error Program) (queue : List Command) : Prop where
  whole : ∀ p, described = .ok p → p.expansion.length ≤ Program.maxCommands → queue = p.expansion
  none : (∀ p, described = .ok p → Program.maxCommands < p.expansion.length) → queue = []
  bounded : queue.length ≤ Program.maxCommands

/-- What follows for every source that describes a program first and compiles it then. -/
theorem Source.wholeOrNone_queue {s : Source} {described : Except Program.Error Program}
    (h : s.compile = described >>= Program.compile) : WholeOrNone described s.queue := by
  cases described with
  | error e =>
    have hfault : s.compile = .error e := h
    rw [queue, hfault]
    constructor
    · simp
    · exact fun _ => rfl
    · exact Nat.zero_le _
  | ok p =>
    have hcompile : s.compile = p.compile := h
    rw [queue, hcompile, p.compile_eq_expansion]
    by_cases fits : p.expansion.length ≤ Program.maxCommands
    · rw [if_pos fits]
      constructor
      · rintro _ ⟨⟩ _
        rfl
      · intro hlong
        exact absurd fits (Nat.not_le.mpr (hlong p rfl))
      · exact fits
    · rw [if_neg fits]
      constructor
      · rintro _ ⟨⟩ hfits
        exact absurd hfits fits
      · exact fun _ => rfl
      · exact Nat.zero_le _

/-- Compiling is expanding, up to the limit and not a command beyond it, and no source of programs
ever gives a part of one. -/
theorem compile_expands (p : Program) :
    p.compile =
        (if p.expansion.length ≤ Program.maxCommands then .ok p.expansion
        else .error (.tooManyCommands Program.maxCommands)) ∧
      WholeOrNone (.ok p) (Source.program p).queue ∧
      (∀ text, WholeOrNone (Script.parse text) (Source.script text).queue) ∧
      ∀ text, WholeOrNone (Program.ofJson text) (Source.json text).queue := by
  refine ⟨p.compile_eq_expansion, ?_, ?_, ?_⟩
  · exact Source.wholeOrNone_queue rfl
  · exact fun text => Source.wholeOrNone_queue rfl
  · exact fun text => Source.wholeOrNone_queue rfl

end RocketPuzzle
