import RocketPuzzle.Frame
import RocketPuzzle.Session.Request

/-! # Playing a program

A program is played by asking a session again and again: for the next step while a stepped run
waits for one, else for the time until the next timer. Each round first tells what has happened and
draws a frame where the picture may have changed. The play is over when no timer is left.
-/
namespace RocketPuzzle.CommandLine

/-- What reaches the player. -/
inductive Emission where
  | print (text : String)
  /-- A pause, where delays are waited out. -/
  | wait (time : Duration)
  deriving DecidableEq, Repr

/-- The line that announces an event, if it is a milestone. -/
def announcement? : Event → Option String
  | .levelCompleted level => some s!"Level {level} complete!"
  | .curriculumCompleted => some "Every level complete. Certificate earned!"
  | _ => none

/-- The event comes with a change of the picture. -/
def changesPicture : Event → Bool
  | .levelCompleted _ | .curriculumCompleted | .runIgnored | .runStarted .. | .goalEvaluated _ =>
    false
  | _ => true

def announce (text : String) : Emission := .print (text ++ "\n")

/-- The frame of a session. -/
def picture (s : Session) : Frame := .compose s.level s.rocket.snapshot

structure Play where
  session : Session
  source : Source
  /-- Commands are asked for one by one. -/
  stepping : Bool
  /-- Delays are waited out. -/
  realtime : Bool
  /-- The events that have not been told. -/
  untold : List Event := []
  /-- The frame drawn last. -/
  frame : Frame
  emitted : List Emission := []
  deriving Repr

namespace Play

/-- The play before its first request, with the first frame drawn. -/
def opened (s : Session) (source : Source) (stepping realtime : Bool) : Play where
  session := s
  source := source
  stepping := stepping
  realtime := realtime
  frame := picture s
  emitted := [.print (picture s).shown]

/-- Ask the session for something, perhaps after a pause. -/
def ask (p : Play) (pause : Option Duration) (request : Session → Effect) : Play :=
  let e := request p.session
  { p with
    session := e.session
    untold := p.untold ++ e.events
    emitted := p.emitted ++ if p.realtime then pause.toList.map .wait else [] }

/-- Tell the events, and draw a frame if one of them changed the picture. -/
def tell (p : Play) : Play :=
  let lines := (p.untold.filterMap announcement?).map announce
  if p.untold.any changesPicture then
    { p with
      untold := []
      frame := picture p.session
      emitted := p.emitted ++ lines ++ [.print (picture p.session).shown] }
  else { p with untold := [], emitted := p.emitted ++ lines }

/-- A stepped run is in progress and nothing will happen unless it is asked for. -/
def awaitsStep (p : Play) : Bool :=
  p.stepping && p.session.status = .running && p.session.agenda.size == 0

/-- The request of the next round, if there is a next round. -/
def next? (p : Play) : Option Play :=
  if p.awaitsStep then
    some (p.ask (some (.ofMillis p.session.pacing.commandInterval)) (·.step p.source))
  else
    p.session.agenda.nextDue.map fun due =>
      let dt := due - p.session.agenda.now
      p.ask (some dt) (·.advance dt)

/-- What is left to do; every round lowers it. -/
def burden (p : Play) : Nat :=
  p.session.workload + if p.session.status = .running then p.session.run.remaining + 2 else 0

/-- Round after round to the end. A round that lowers nothing would be the last one; no play that
was begun with a request has such a round. -/
def finish (p : Play) : Play :=
  match p.tell.next? with
  | none => p.tell
  | some q => if q.burden < p.burden then finish q else q.tell
termination_by p.burden

/-- The first request. -/
def begin (p : Play) : Play :=
  p.ask none fun s => if p.stepping then s.step p.source else s.runAll p.source

end Play

end RocketPuzzle.CommandLine
