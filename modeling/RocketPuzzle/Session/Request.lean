import RocketPuzzle.Session.Workload
import RocketPuzzle.Source

/-! # Requests

Everything that can be asked of a session. `Session.handle` answers one request; the operations it
is made of can be used on their own.
-/
namespace RocketPuzzle

namespace Session

/-- A run in the given mode with the given queue, from the start of the level. -/
def startRun (s : Session) (mode : RunMode) (queue : List Command) : Effect :=
  s.reset.andThen fun t =>
    { session :=
        { t with
          run := { queue, cursor := 0, collided := false, mode := some mode }
          rocket := t.rocket.beginRun
          status := .running }
      events := [.runStarted mode queue.length]
      notes := [.runStarting t.level.id mode queue.length] }

/-- A request to run what has no commands. Only the report changes. -/
def refuseEmpty (s : Session) : Effect where
  session := { s with rocket := s.rocket.report .emptyProgram }
  events := [.programEmpty]
  notes := [.programEmpty s.level.id]

/-- A run of the source from the start, with its first timer, unless there is nothing to run. -/
def begin (s : Session) (source : Source) (mode : RunMode) (delay : UInt64) (c : Continuation) :
    Effect :=
  let told : Effect := { session := s, notes := source.fault?.toList.map .compilationFailed }
  let queue := source.queue
  told.andThen fun t =>
    if queue.isEmpty then t.refuseEmpty
    else (t.startRun mode queue).andThen fun u => { session := u.schedule delay c }

/-- Run the whole source on the beat of the clock. A run in progress is not disturbed. -/
def runAll (s : Session) (source : Source) : Effect :=
  if s.status = .running then { session := s, events := [.runIgnored], notes := [.paceIgnored] }
  else s.begin source .paced s.pacing.commandInterval .applyNext

/-- The next step of a stepped run in progress. A first step that is still waiting is taken now, in
addition. -/
def stepOn (s : Session) : Effect :=
  if 0 < s.agenda.size then
    (Session.executeStep { s with agenda := s.agenda.cancelAll }).andThen fun t =>
      if t.status = .running then t.executeStep else { session := t }
  else s.executeStep

/-- Apply one command, starting a stepped run of the source when no run is in progress. -/
def step (s : Session) (source : Source) : Effect :=
  if s.status = .running then
    if s.run.mode = some .stepped then s.stepOn
    else { session := s, events := [.runIgnored], notes := [.stepIgnored] }
  else s.begin source .stepped s.pacing.firstStepDelay .step

/-- Fire every timer that is due at `time`, those included that are set on the way, and leave the
clock there. -/
def runTo (time : Duration) (s : Session) : Effect :=
  match _h : s.agenda.popDue time with
  | none => { session := { s with agenda := s.agenda.settle time } }
  | some (t, agenda) =>
    let fired := Session.fire { s with agenda } t.payload
    let rest := runTo time fired.session
    { session := rest.session
      events := fired.events ++ rest.events
      notes := .timerFired t.id t.payload :: fired.notes ++ rest.notes }
termination_by s.workload
decreasing_by exact workload_popDue_fire_lt _h

/-- Let time pass. -/
def advance (s : Session) (dt : Duration) : Effect := s.runTo (s.agenda.now + dt)

/-- Load the catalog level at `index`, if there is one. -/
def select (s : Session) (index : Nat) : Option Effect :=
  if index < s.curriculum.size then some (load { s with inTutorial := false, index })
  else none

/-- Enter or leave the tutorial. Leaving it returns to the catalog level selected before; an empty
catalog keeps it loaded. -/
def setTutorial (s : Session) (enabled : Bool) : Effect :=
  load { s with inTutorial := enabled || s.curriculum.isEmpty }

/-- Go on to the next catalog level, if there is one. -/
def nextLevel (s : Session) : Option Effect :=
  if s.inTutorial || s.curriculum.isFinal s.index then none
  else some (load { s with index := s.index + 1 })

/-- Go back to the catalog level before, if there is one. -/
def previousLevel (s : Session) : Option Effect :=
  if s.inTutorial || s.index == 0 then none
  else some (load { s with index := s.index - 1 })

end Session

inductive Request where
  | runAll (source : Source)
  | step (source : Source)
  | advance (dt : Duration)
  | reset
  | select (index : Nat)
  | setTutorial (enabled : Bool)
  | nextLevel
  | previousLevel
  deriving Repr

/-- What a request returns. -/
inductive Reply where
  | done
  | selected
  | outOfRange (index size : Nat)
  | changed (level : Bool)
  deriving DecidableEq, Repr

/-- Why a selection is refused, in words. -/
def Reply.message? : Reply → Option String
  | outOfRange index size =>
    some s!"level index {index} is outside the curriculum of {size} levels"
  | _ => none

namespace Session

/-- An answer to a request: the session afterwards, what it told the world, and what it returns. -/
structure Answer where
  effect : Effect
  reply : Reply
  deriving DecidableEq, Repr

def answerChange (s : Session) : Option Effect → Answer
  | some e => ⟨e, .changed true⟩
  | none => ⟨{ session := s }, .changed false⟩

def handle (s : Session) : Request → Answer
  | .runAll source => ⟨s.runAll source, .done⟩
  | .step source => ⟨s.step source, .done⟩
  | .advance dt => ⟨s.advance dt, .done⟩
  | .reset => ⟨s.reset, .done⟩
  | .select index =>
    match s.select index with
    | some e => ⟨e, .selected⟩
    | none => ⟨{ session := s }, .outOfRange index s.curriculum.size⟩
  | .setTutorial enabled => ⟨s.setTutorial enabled, .done⟩
  | .nextLevel => s.answerChange s.nextLevel
  | .previousLevel => s.answerChange s.previousLevel

/-- The effect of a row of requests. -/
def handleAll (s : Session) : List Request → Effect
  | [] => { session := s }
  | r :: rest => (s.handle r).effect.andThen fun t => t.handleAll rest

end Session

end RocketPuzzle
