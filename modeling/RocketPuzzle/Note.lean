import RocketPuzzle.Codec.Words
import RocketPuzzle.Program

/-! # Notes

The diagnostic record that goes beside the events: what was rejected, what was started and which
timers fired.
-/
namespace RocketPuzzle

/-- What a timer of a session does when it fires. -/
inductive Continuation where
  /-- Apply the next command of a paced run. -/
  | applyNext
  /-- Take the delayed first step of a stepped run. -/
  | step
  /-- Judge a paced run. -/
  | evaluate
  /-- Announce that the last level is solved. -/
  | curriculumCompleted
  deriving DecidableEq, Repr

def Continuation.name : Continuation → String
  | applyNext => "ApplyNext"
  | step => "Step"
  | evaluate => "Evaluate"
  | curriculumCompleted => "CurriculumCompleted"

def Command.name : Command → String
  | move => "Move"
  | turnLeft => "TurnLeft"
  | turnRight => "TurnRight"
  | collect => "Collect"

inductive Severity where
  | warn
  | info
  | debug
  deriving DecidableEq, Repr

def Severity.name : Severity → String
  | warn => "WARN"
  | info => "INFO"
  | debug => "DEBUG"

inductive Note where
  | compilationFailed (error : Program.Error)
  | catalogRejected (reason : String)
  | catalogLoaded (levels : Nat)
  | timersCancelled (count : Nat)
  | paceIgnored
  | stepIgnored
  | programEmpty (level : UInt32)
  | runStarting (level : UInt32) (mode : RunMode) (commands : Nat)
  | timerFired (id : Nat) (continuation : Continuation)
  | commandApplied (index : Nat) (command : Command) (outcome : Outcome)
  | runEnded (level : UInt32) (verdict : Verdict)
  | curriculumComplete
  deriving DecidableEq, Repr

namespace Note

def severity : Note → Severity
  | compilationFailed _ | catalogRejected _ => .warn
  | programEmpty _ | runStarting .. | runEnded .. | curriculumComplete => .info
  | catalogLoaded _ | timersCancelled _ | paceIgnored | stepIgnored | timerFired ..
  | commandApplied .. => .debug

def message : Note → String
  | compilationFailed error => "program failed to compile: " ++ error.message
  | catalogRejected reason => "rejected level catalog: " ++ reason
  | catalogLoaded levels => s!"loaded curriculum with {levels} levels"
  | timersCancelled count => s!"reset cancelled {count} pending continuations"
  | paceIgnored => "run request ignored: a run is already in progress"
  | stepIgnored => "step request ignored: a paced run is in progress"
  | programEmpty level => s!"level {level}: program is empty"
  | runStarting level mode commands =>
    s!"level {level}: starting {spelling RunMode.names mode} run with {commands} commands"
  | timerFired id continuation => s!"timer {id} fired: {continuation.name}"
  | commandApplied index command outcome =>
    s!"command #{index} {command.name}: {spelling Outcome.names outcome}"
  | runEnded level verdict => s!"level {level}: run ended with {spelling Verdict.names verdict}"
  | curriculumComplete => "final level solved; curriculum complete"

/-- The note as a line of a log. -/
def line (n : Note) : String := n.severity.name ++ " " ++ n.message

end Note

end RocketPuzzle
