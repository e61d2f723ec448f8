import RocketPuzzle.CommandLine

/-! # The program

Reads the words and the files, and carries out what the command line decides.
-/
namespace RocketPuzzle.CommandLine

/-- The bytes of a file, if it can be read. -/
def fileBytes (path : String) : IO (Option (List UInt8)) := do
  try
    return some (← IO.FS.readBinFile path).toList
  catch _ => return none

/-- Sleep for a number of milliseconds, in pieces of eleven days at most. -/
def pause (millis : Nat) : IO Unit := do
  for _ in [0:millis / 1000000000] do
    IO.sleep 1000000000
  IO.sleep (UInt32.ofNat (millis % 1000000000))

def emit (out : IO.FS.Stream) : Emission → IO Unit
  | .print text => do
    out.putStr text
    out.flush
  | .wait time => pause (time.nanos / 1000000)

def runMain (words : List String) : IO UInt32 := do
  match action? words with
  | none =>
    IO.eprintln "error: the command line was not understood"
    return 2
  | some action =>
    let mut files : List (String × List UInt8) := []
    for path in action.paths do
      if let some bytes ← fileBytes path then
        files := (path, bytes) :: files
    let result := execute (files.lookup ·) action
    let out ← IO.getStdout
    for e in result.emitted do
      emit out e
    if let some text := result.error then
      IO.eprintln s!"Error: {text}"
    return result.exitCode

end RocketPuzzle.CommandLine

def main (words : List String) : IO UInt32 :=
  RocketPuzzle.CommandLine.runMain words
