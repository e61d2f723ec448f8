import RocketPuzzle.Proofs.Acts
import RocketPuzzle.Session.Run

/-! # What commands and judgements leave behind

The session after each operation of a run, field by field. What follows about runs cites these
equations and opens the operations no more.
-/
namespace RocketPuzzle

/-- Success is to be on the goal, with the fuel on board if the level has any. -/
theorem Level.judge_eq_success {l : Level} {s : Standing} :
    l.judge s = .success ↔ s.position = l.goal ∧ (l.fuel ≠ none → s.fuelCollected = true) := by
  unfold judge hasFuel
  by_cases hp : s.position = l.goal
  · cases hf : l.fuel <;> cases hc : s.fuelCollected <;> simp [hp]
  · simp only [hp, if_false, false_and, iff_false]
    split
    · simp
    · split <;> simp

theorem Level.judge_ne_pending {l : Level} {s : Standing} (h : s.terminal = true) :
    l.judge s ≠ .pending := by
  unfold judge
  split
  · split <;> simp
  · split <;> simp

namespace Rocket

/-- What a command does has nothing to do with whether a run is on. -/
theorem apply_running (l : Level) (r : Rocket) (c : Command) (b : Bool) :
    Rocket.apply l { r with running := b } c =
      { r.apply l c with rocket := { (r.apply l c).rocket with running := b } } := by
  cases h : r.completed with
  | true => simp [apply, h]
  | false =>
    cases c with
    | move => cases hd : l.destination r.position r.heading <;> simp [apply, h, move, mark, hd]
    | turnLeft | turnRight => simp [apply, h, turn, mark]
    | collect => by_cases hf : l.fuel = some r.position <;> simp [apply, h, collect, mark, hf]

theorem running_apply (l : Level) (r : Rocket) (c : Command) :
    (r.apply l c).rocket.running = r.running := by
  rw [apply_running l r c r.running]

end Rocket

namespace Session

/-- The catalog is in play, and its last level is loaded. -/
def onLastLevel (s : Session) : Bool := !s.inTutorial && s.index + 1 == s.curriculum.size

/-- The level in play counts for progress, and has not been solved before. -/
def onNewLevel (s : Session) : Bool := !s.inTutorial && s.level.id ∉ s.progress.completed

/-- The session when its run has been judged, before any timer is set for it. -/
def closed (s : Session) (v : Verdict) : Session :=
  { s with
    rocket := if v = .success then s.rocket.complete else s.rocket.halt v.message
    status := if v = .success then .completed else .halted
    progress :=
      if v = .success ∧ s.inTutorial = false then s.progress.record s.level.id else s.progress }

/-- What is told when a run is judged. -/
def closing (s : Session) (v : Verdict) : List Event :=
  .goalEvaluated v ::
    ((if v = .success ∧ s.onNewLevel = true then [.levelCompleted s.level.id] else []) ++
      [.runHalted])

theorem verdict_ne_pending (s : Session) : s.verdict ≠ .pending := Level.judge_ne_pending rfl

theorem succeed_eq (s : Session) :
    s.succeed.session =
        (if s.onLastLevel = true then
          (s.closed .success).schedule s.pacing.curriculumDelay .curriculumCompleted
        else s.closed .success) ∧
      s.succeed.events = if s.onNewLevel = true then [.levelCompleted s.level.id] else [] := by
  unfold succeed recordCompletion
  cases ht : s.inTutorial with
  | true => simp [onLastLevel, onNewLevel, closed, ht]
  | false =>
    constructor
    · by_cases hlast : s.index + 1 = s.curriculum.size <;>
        simp [onLastLevel, Curriculum.isFinal, closed, schedule, ht, hlast]
    · by_cases hold : s.level.id ∈ s.progress.completed <;>
        simp [onNewLevel, Progress.isCompleted, ht, hold]

theorem conclude_session (s : Session) :
    s.conclude.session =
      if s.verdict = .success ∧ s.onLastLevel = true then
        (s.closed s.verdict).schedule s.pacing.curriculumDelay .curriculumCompleted
      else s.closed s.verdict := by
  cases hv : s.verdict with
  | pending => exact absurd hv s.verdict_ne_pending
  | success => simpa [conclude, hv, Effect.andThen] using s.succeed_eq.1
  | collided | goalNotReached | missingFuel => simp [conclude, hv, Effect.andThen, fail, closed]

theorem run_conclude (s : Session) : s.conclude.session.run = s.run := by
  rw [conclude_session]
  split <;> rfl

theorem conclude_events (s : Session) : s.conclude.events = s.closing s.verdict := by
  cases hv : s.verdict with
  | pending => exact absurd hv s.verdict_ne_pending
  | success => simp [conclude, hv, Effect.andThen, s.succeed_eq.2, closing]
  | collided | goalNotReached | missingFuel => simp [conclude, hv, Effect.andThen, closing]

theorem applyNext_eq {s : Session} {c : Command} (h : s.run.queue[s.run.cursor]? = some c) :
    s.applyNext.session =
        { s with
          rocket := (s.rocket.apply s.level c).rocket
          run :=
            { s.run with
              cursor := s.run.cursor + 1
              collided := s.run.collided || (s.rocket.apply s.level c).outcome = .blocked } } ∧
      s.applyNext.events = (s.rocket.apply s.level c).events ++
        [.commandApplied s.run.cursor c (s.rocket.apply s.level c).outcome] := by
  unfold applyNext
  simp [h]

theorem agenda_applyNext (s : Session) : s.applyNext.session.agenda = s.agenda := by
  unfold applyNext
  split <;> rfl

theorem mode_applyNext (s : Session) : s.applyNext.session.run.mode = s.run.mode := by
  unfold applyNext
  split <;> rfl

theorem status_applyNext (s : Session) : s.applyNext.session.status = s.status := by
  unfold applyNext
  split <;> rfl

end Session

end RocketPuzzle
