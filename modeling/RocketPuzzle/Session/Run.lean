import RocketPuzzle.Session

/-! # The course of a run

Both modes apply commands through `applyNext` and end in `conclude`; they differ in who asks for
the next command, the clock or the player.
-/
namespace RocketPuzzle.Session

/-- The next command of the queue, applied to the rocket. -/
def applyNext (s : Session) : Effect :=
  match s.run.queue[s.run.cursor]? with
  | none => { session := s }
  | some c =>
    let a := s.rocket.apply s.level c
    { session :=
        { s with
          rocket := a.rocket
          run :=
            { s.run with
              cursor := s.run.cursor + 1
              collided := s.run.collided || a.outcome = .blocked } }
      events := a.events ++ [.commandApplied s.run.cursor c a.outcome]
      notes := [.commandApplied s.run.cursor c a.outcome] }

/-- How the run is judged now that it is over. -/
def verdict (s : Session) : Verdict :=
  s.level.judge
    { position := s.rocket.position
      fuelCollected := s.rocket.fuelCollected
      terminal := true
      collided := s.run.collided }

/-- A solved level goes on record, and after the last one an announcement is due. The tutorial does
not count. -/
def recordCompletion (s : Session) : Effect :=
  if s.inTutorial then { session := s }
  else
    let recorded := { s with progress := s.progress.record s.level.id }
    { session :=
        if s.curriculum.isFinal s.index then
          recorded.schedule s.pacing.curriculumDelay .curriculumCompleted
        else recorded
      events := if s.progress.isCompleted s.level.id then [] else [.levelCompleted s.level.id] }

/-- The end of a run with success. -/
def succeed (s : Session) : Effect :=
  recordCompletion { s with rocket := s.rocket.complete, status := .completed }

/-- The end of a run without success. -/
def fail (s : Session) (v : Verdict) : Session :=
  { s with rocket := s.rocket.halt v.message, status := .halted }

/-- The run is judged and ends. -/
def conclude (s : Session) : Effect :=
  let judged : Effect := { session := s, events := [.goalEvaluated s.verdict] }
  let ended : Session → Effect := fun t =>
    { session := t
      events := [.runHalted]
      notes := [.runEnded s.level.id s.verdict] }
  match s.verdict with
  | .pending => judged
  | .success => (judged.andThen succeed).andThen ended
  | v => (judged.andThen fun t => { session := t.fail v }).andThen ended

/-- One step of a stepped run: the next command, or the judgement when there is none. A collision
is judged at once. -/
def executeStep (s : Session) : Effect :=
  if s.run.isOver then s.conclude
  else s.applyNext.andThen fun t => if t.run.collided then t.conclude else { session := t }

/-- The timer that a paced run sets after a command. -/
def scheduleNext (s : Session) : Session :=
  if s.run.isOver then s.schedule s.pacing.settleDelay .evaluate
  else s.schedule s.pacing.commandInterval .applyNext

/-- What a timer does. -/
def fire (s : Session) : Continuation → Effect
  | .applyNext => s.applyNext.andThen fun t => { session := t.scheduleNext }
  | .step => s.executeStep
  | .evaluate => s.conclude
  | .curriculumCompleted =>
    { session := s, events := [.curriculumCompleted], notes := [.curriculumComplete] }

end RocketPuzzle.Session
