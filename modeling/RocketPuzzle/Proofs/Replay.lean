import Mathlib.Data.List.DropRight
import RocketPuzzle.Proofs.Moves

/-! # What the events leave out

Nothing. An onlooker who knows the level and hears every event can draw the rocket without ever
looking at it. A picture goes back to the start with every reset, so only what was told since the
last one counts.
-/
namespace RocketPuzzle

/-- The level is back in its start configuration. -/
def Event.isReset : Event → Bool
  | levelReset _ => true
  | _ => false

namespace Snapshot

def atStart (l : Level) : Snapshot where
  position := l.start
  heading := l.startHeading
  visited := []
  hasFuel := l.fuel.isSome
  fuelCollected := false
  completed := false
  running := false
  message := none

/-- The present cell joins the trail. -/
def mark (p : Snapshot) : Snapshot := { p with visited := insertCell p.position p.visited }

/-- The picture after one more event. -/
def after (l : Level) (p : Snapshot) : Event → Snapshot
  | .levelReset _ => atStart l
  | .runStarted .. => { p with running := true, message := none }
  | .characterMoved _ target => { p.mark with position := target, message := none }
  | .moveBlocked .. => { p.mark with message := some .collision }
  | .characterTurned _ target => { p.mark with heading := target, message := none }
  | .fuelCollected _ => { p.mark with fuelCollected := true, message := some .fuelCollected }
  | .nothingToCollect _ => { p.mark with message := some .nothingToCollect }
  | .programEmpty => { p with message := some .emptyProgram }
  | .goalEvaluated v =>
    { p with
      running := false
      completed := p.completed || v = .success
      message := v.message.or p.message }
  | .commandApplied .. | .runIgnored | .runHalted | .levelCompleted _ | .curriculumCompleted => p

/-- The picture after a row of events. -/
def replay (l : Level) (p : Snapshot) (es : List Event) : Snapshot := es.foldl (after l) p

variable {l : Level} {p : Snapshot}

theorem replay_append (es fs : List Event) :
    replay l p (es ++ fs) = replay l (replay l p es) fs := List.foldl_append

theorem after_reset {e : Event} (h : e.isReset = true) : after l p e = atStart l := by
  cases e with
  | levelReset => rfl
  | _ => cases h

/-- What was told before a reset is of no account. The induction is from the last event back. -/
theorem replay_since_reset (l : Level) (es : List Event) :
    replay l (atStart l) (es.rtakeWhile fun e => !e.isReset) = replay l (atStart l) es := by
  induction es using List.reverseRecOn with
  | nil => rfl
  | append_singleton es e ih =>
    rw [List.rtakeWhile_concat, replay_append]
    cases he : e.isReset with
    | true => exact (after_reset he).symm
    | false =>
      change replay l (atStart l) (List.rtakeWhile _ es ++ [e]) = _
      rw [replay_append, ih]

end Snapshot

namespace Rocket

/-- A solved level takes no command, and none is told. -/
theorem snapshot_apply (l : Level) (r : Rocket) (c : Command) :
    (r.apply l c).rocket.snapshot = Snapshot.replay l r.snapshot (r.apply l c).events := by
  have h := r.acts l c
  generalize r.apply l c = a at h ⊢
  cases h <;> rfl

end Rocket

/-- The events tell all that becomes of the rocket while its level stays the same. -/
structure Tells (s : Session) (es : List Event) (t : Session) : Prop where
  level : t.level = s.level
  picture : t.rocket.snapshot = Snapshot.replay s.level s.rocket.snapshot es

/-- The rocket looks as the events so far have it. -/
def Pictured (s : Session) (es : List Event) : Prop :=
  s.rocket.snapshot = Snapshot.replay s.level (.atStart s.level) es

variable {s t u : Session} {es fs : List Event}

namespace Tells

theorem refl (s : Session) : Tells s [] s := ⟨rfl, rfl⟩

theorem trans (h : Tells s es t) (k : Tells t fs u) : Tells s (es ++ fs) u where
  level := k.level.trans h.level
  picture := by rw [k.picture, h.level, h.picture, Snapshot.replay_append]

theorem pictured (h : Tells s es t) {before : List Event} (hs : Pictured s before) :
    Pictured t (before ++ es) := by
  unfold Pictured at *
  rw [h.picture, h.level, hs, Snapshot.replay_append]

end Tells

namespace Session

theorem applyNext_tells (s : Session) : Tells s s.applyNext.events s.applyNext.session := by
  cases hc : s.run.queue[s.run.cursor]? with
  | none =>
    simp only [applyNext, hc]
    exact .refl s
  | some c =>
    obtain ⟨hsession, hevents⟩ := applyNext_eq hc
    rw [hsession, hevents]
    refine ⟨rfl, ?_⟩
    rw [Snapshot.replay_append]
    exact s.rocket.snapshot_apply s.level c

/-- Of all that is told when a run is judged, the verdict alone shows. -/
theorem replay_closing (s : Session) (v : Verdict) (p : Snapshot) :
    Snapshot.replay s.level p (s.closing v) = p.after s.level (.goalEvaluated v) := by
  unfold closing
  split <;> rfl

theorem closed_tells (s : Session) (v : Verdict) : Tells s (s.closing v) (s.closed v) := by
  refine ⟨rfl, ?_⟩
  rw [replay_closing]
  by_cases hv : v = .success
  · simp [closed, hv, Rocket.complete, Rocket.snapshot, Snapshot.after, Verdict.message]
  · simp [closed, hv, Rocket.halt, Rocket.snapshot, Snapshot.after]

theorem conclude_tells (s : Session) : Tells s s.conclude.events s.conclude.session := by
  have hclosed := s.closed_tells s.verdict
  rw [conclude_session, conclude_events]
  split
  · exact ⟨hclosed.level, hclosed.picture⟩
  · exact hclosed

theorem executeStep_tells (s : Session) :
    Tells s s.executeStep.events s.executeStep.session := by
  unfold executeStep
  split
  · exact s.conclude_tells
  · apply s.applyNext_tells.trans
    dsimp only [Effect.andThen]
    split
    · exact conclude_tells _
    · exact .refl _

theorem fire_tells (s : Session) (c : Continuation) :
    Tells s (s.fire c).events (s.fire c).session := by
  cases c with
  | applyNext =>
    apply s.applyNext_tells.trans
    dsimp only [fire, Effect.andThen, scheduleNext]
    split <;> exact ⟨rfl, rfl⟩
  | step => exact s.executeStep_tells
  | evaluate => exact s.conclude_tells
  | curriculumCompleted => exact ⟨rfl, rfl⟩

end Session

theorem Turn.tells (h : Turn s es t) : Tells s es t := by
  cases h with
  | @fire _ timer agenda _ =>
    have hfire := Session.fire_tells { s with agenda } timer.payload
    exact ⟨hfire.level, hfire.picture⟩
  | step =>
    have hstep := Session.executeStep_tells { s with agenda := s.agenda.cancelAll }
    exact ⟨hstep.level, hstep.picture⟩
  | settle => exact ⟨rfl, rfl⟩

/-- A level is loaded by a reset only, and a reset is told. -/
theorem Move.pictured (h : Move s es t) {before : List Event} (hs : Pictured s before) :
    Pictured t (before ++ es) := by
  cases h with
  | turn h => exact h.tells.pictured hs
  | reset | load =>
    unfold Pictured
    rw [Snapshot.replay_append]
    rfl
  | ignore =>
    have hsame : Tells s [.runIgnored] s := ⟨rfl, rfl⟩
    exact hsame.pictured hs
  | refuse =>
    have hreport : Tells s [.programEmpty] s.refuseEmpty.session := ⟨rfl, rfl⟩
    exact hreport.pictured hs
  | launch =>
    unfold Pictured
    rw [Snapshot.replay_append]
    rfl

theorem Chain.pictured (h : Chain Move s es t) {before : List Event} (hs : Pictured s before) :
    Pictured t (before ++ es) := by
  induction h generalizing before with
  | refl => rwa [List.append_nil]
  | head h _ ih =>
    rw [← List.append_assoc]
    exact ih (h.pictured hs)

theorem Session.pictured_handleAll (c : Curriculum) (p : Pacing) (rs : List Request) :
    Pictured ((Session.new c p).handleAll rs).session ((Session.new c p).handleAll rs).events := by
  have hnew : Pictured (Session.new c p) [] := rfl
  exact ((Session.new c p).handleAll_moves rs).pictured hnew

/-- What was told since the level was last reset is enough to draw the rocket, and what was told
before it does no harm. -/
theorem Session.snapshot_eq_replay (c : Curriculum) (p : Pacing) (rs : List Request) :
    let played := (Session.new c p).handleAll rs
    let level := played.session.level
    played.session.rocket.snapshot =
        Snapshot.replay level (.atStart level) (played.events.rtakeWhile fun e => !e.isReset) ∧
      played.session.rocket.snapshot = Snapshot.replay level (.atStart level) played.events := by
  intro played level
  have hall : Pictured played.session played.events := pictured_handleAll c p rs
  rw [Snapshot.replay_since_reset]
  exact ⟨hall, hall⟩

end RocketPuzzle
