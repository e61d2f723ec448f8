import RocketPuzzle.Proofs.Firing

/-! # Moves

Every request is a chain of moves, each of which does one thing: a timer fires, a step is taken,
the clock is put on, a level is reset or loaded, a run begins, or a request is turned down. What each
move keeps is kept by all requests in any order.
-/
namespace RocketPuzzle

def RunMode.firstTimer : RunMode → Continuation
  | paced => .applyNext
  | stepped => .step

def Pacing.firstDelay (p : Pacing) : RunMode → UInt64
  | .paced => p.commandInterval
  | .stepped => p.firstStepDelay

namespace Session

/-- A run has begun, and its first timer is set. -/
def launched (s : Session) (mode : RunMode) (queue : List Command) : Session :=
  { s with
    run := { queue, mode := some mode }
    rocket := (Rocket.atStart s.level).beginRun
    status := .running
    agenda := s.agenda.cancelAll.schedule (.ofMillis (s.pacing.firstDelay mode)) mode.firstTimer }

/-- One more step is taken. A first step that still waits is taken in its place. -/
def stepNow (s : Session) : Effect := Session.executeStep { s with agenda := s.agenda.cancelAll }

end Session

/-- The moves that carry a run on. -/
inductive Turn (s : Session) : List Event → Session → Prop where
  | fire {time t agenda} (due : s.agenda.popDue time = some (t, agenda)) :
      Turn s (s.fireTimer t agenda).events (s.fireTimer t agenda).session
  | step (running : s.status = .running) (stepped : s.run.mode = some .stepped) :
      Turn s s.stepNow.events s.stepNow.session
  | settle {time} (rest : s.agenda.popDue time = none) :
      Turn s [] { s with agenda := s.agenda.settle time }

inductive Move (s : Session) : List Event → Session → Prop where
  | turn {es t} (h : Turn s es t) : Move s es t
  | reset : Move s s.reset.events s.reset.session
  | load (inTutorial : Bool) (index : Nat) :
      Move s (Session.load { s with inTutorial, index }).events
        (Session.load { s with inTutorial, index }).session
  | ignore (running : s.status = .running) : Move s [.runIgnored] s
  | refuse (idle : s.status ≠ .running) : Move s [.programEmpty] s.refuseEmpty.session
  | launch (idle : s.status ≠ .running) (mode : RunMode) {queue : List Command}
      (nonempty : queue ≠ []) :
      Move s [.levelReset s.level.id, .runStarted mode queue.length] (s.launched mode queue)

/-- Moves one after another, and what all of them tell. -/
inductive Chain (R : Session → List Event → Session → Prop) :
    Session → List Event → Session → Prop where
  | refl (s) : Chain R s [] s
  | head {s es t fs u} : R s es t → Chain R t fs u → Chain R s (es ++ fs) u

namespace Chain

variable {R : Session → List Event → Session → Prop} {s t u : Session} {es fs : List Event}

theorem single (h : R s es t) : Chain R s es t := by
  simpa using Chain.head h (.refl t)

theorem trans (h : Chain R s es t) (k : Chain R t fs u) : Chain R s (es ++ fs) u := by
  induction h with
  | refl => exact k
  | head h _ ih =>
    rw [List.append_assoc]
    exact .head h (ih k)

theorem preserves {P : Session → Prop} (step : ∀ {s es t}, P s → R s es t → P t)
    (h : Chain R s es t) (hs : P s) : P t := by
  induction h with
  | refl => exact hs
  | head h _ ih => exact ih (step hs h)

theorem mono {S : Session → List Event → Session → Prop}
    (sub : ∀ {s es t}, R s es t → S s es t) (h : Chain R s es t) : Chain S s es t := by
  induction h with
  | refl => exact .refl _
  | head h _ ih => exact .head (sub h) ih

end Chain

namespace Session

theorem runTo_turns (time : Duration) (s : Session) :
    Chain Turn s (s.runTo time).events (s.runTo time).session := by
  fun_induction runTo time s with
  | case1 s h => exact .single (.settle h)
  | case2 s t agenda h fired rest ih => exact .head (.fire h) ih

theorem advance_turns (s : Session) (dt : Duration) :
    Chain Turn s (s.advance dt).events (s.advance dt).session := s.runTo_turns _

theorem mode_conclude (s : Session) : s.conclude.session.run.mode = s.run.mode := by
  rw [run_conclude]

theorem mode_executeStep (s : Session) : s.executeStep.session.run.mode = s.run.mode := by
  unfold executeStep
  split
  · exact s.mode_conclude
  · simp only [Effect.andThen]
    split
    · exact (mode_conclude _).trans s.mode_applyNext
    · exact s.mode_applyNext

theorem mode_fire (s : Session) (c : Continuation) :
    (s.fire c).session.run.mode = s.run.mode := by
  cases c with
  | applyNext =>
    simp only [fire, Effect.andThen, scheduleNext]
    split <;> exact s.mode_applyNext
  | step => exact s.mode_executeStep
  | evaluate => exact s.mode_conclude
  | curriculumCompleted => rfl

/-- A run that has been judged is not running any more. -/
theorem status_conclude_ne (s : Session) : s.conclude.session.status ≠ .running := by
  rw [conclude_session]
  by_cases hv : s.verdict = .success
  · split <;> simp [closed, schedule, hv]
  · simp [closed, hv]

/-- A run that goes on after a step has had its next command applied. -/
theorem executeStep_of_running {s : Session} (h : s.executeStep.session.status = .running) :
    s.run.isOver = false ∧ s.executeStep.session = s.applyNext.session := by
  revert h
  unfold executeStep
  split
  · exact fun h => absurd h s.status_conclude_ne
  · next hover =>
    simp only [Effect.andThen]
    split
    · exact fun h => absurd h (status_conclude_ne _)
    · exact fun _ => ⟨Bool.eq_false_iff.mpr hover, rfl⟩

/-- A run that goes on after a step has set no timer. -/
theorem agenda_executeStep {s : Session} (h : s.executeStep.session.status = .running) :
    s.executeStep.session.agenda = s.agenda := by
  rw [(executeStep_of_running h).2, agenda_applyNext]

theorem pending_stepNow {s : Session} (h : s.stepNow.session.status = .running) :
    s.stepNow.session.agenda.pending = [] := by
  rw [stepNow, agenda_executeStep h]
  rfl

theorem stepNow_of_clear {s : Session} (clear : s.agenda.pending = []) :
    s.stepNow = s.executeStep := by
  have hcancel : s.agenda.cancelAll = s.agenda := by rw [Agenda.cancelAll, ← clear]
  rw [stepNow, hcancel]

theorem stepOn_of_clear {s : Session} (clear : s.agenda.pending = []) :
    s.stepOn = s.executeStep := by
  rw [stepOn, if_neg (by simp [Agenda.size, clear])]

theorem stepOn_of_waiting {s : Session} (waiting : s.agenda.pending ≠ []) :
    s.stepOn = s.stepNow.andThen fun t =>
      if t.status = .running then t.executeStep else { session := t } :=
  if_pos (List.length_pos_iff.mpr waiting)

theorem stepOn_turns {s : Session} (running : s.status = .running)
    (stepped : s.run.mode = some .stepped) : Chain Turn s s.stepOn.events s.stepOn.session := by
  have hnow : Turn s s.stepNow.events s.stepNow.session := .step running stepped
  by_cases hclear : s.agenda.pending = []
  · rw [stepOn_of_clear hclear, ← stepNow_of_clear hclear]
    exact .single hnow
  · rw [stepOn_of_waiting hclear]
    simp only [Effect.andThen]
    split
    · next hrun =>
      have hmode : s.stepNow.session.run.mode = some .stepped :=
        (mode_executeStep _).trans stepped
      -- no timer is left, so that the second step cancels nothing
      rw [← stepNow_of_clear (pending_stepNow hrun)]
      exact .head hnow (.single (.step hrun hmode))
    · rw [List.append_nil]
      exact .single hnow

theorem begin_eq (s : Session) {source : Source} (nonempty : source.queue ≠ []) (mode : RunMode) :
    (s.begin source mode (s.pacing.firstDelay mode) mode.firstTimer).session =
        s.launched mode source.queue ∧
      (s.begin source mode (s.pacing.firstDelay mode) mode.firstTimer).events =
        [.levelReset s.level.id, .runStarted mode source.queue.length] := by
  unfold begin
  cases hq : source.queue with
  | nil => exact absurd hq nonempty
  | cons c rest => exact ⟨rfl, rfl⟩

theorem begin_moves {s : Session} (idle : s.status ≠ .running) (source : Source) (mode : RunMode) :
    Move s (s.begin source mode (s.pacing.firstDelay mode) mode.firstTimer).events
      (s.begin source mode (s.pacing.firstDelay mode) mode.firstTimer).session := by
  by_cases hq : source.queue = []
  · unfold begin
    rw [hq]
    exact .refuse idle
  · rw [(s.begin_eq hq mode).1, (s.begin_eq hq mode).2]
    exact .launch idle mode hq

theorem runAll_moves (s : Session) (source : Source) :
    Move s (s.runAll source).events (s.runAll source).session := by
  unfold runAll
  split
  · next h => exact .ignore h
  · next h => exact begin_moves h source .paced

theorem step_moves (s : Session) (source : Source) :
    Chain Move s (s.step source).events (s.step source).session := by
  unfold step
  split
  · next h =>
    split
    · next hm => exact (stepOn_turns h hm).mono .turn
    · exact .single (.ignore h)
  · next h => exact .single (begin_moves h source .stepped)

/-- Every request is a chain of moves. -/
theorem handle_moves (s : Session) (r : Request) :
    Chain Move s (s.handle r).effect.events (s.handle r).effect.session := by
  cases r with
  | runAll source => exact .single (s.runAll_moves source)
  | step source => exact s.step_moves source
  | advance dt => exact (s.advance_turns dt).mono .turn
  | reset => exact .single .reset
  | select index =>
    simp only [handle, select]
    by_cases h : index < s.curriculum.size
    · simpa only [h, if_true] using Chain.single (.load false index)
    · simpa only [h, if_false] using Chain.refl s
  | setTutorial enabled =>
    exact .single (.load (enabled || s.curriculum.isEmpty) s.index)
  | nextLevel =>
    simp only [handle, nextLevel]
    split
    · exact .refl s
    · exact .single (.load s.inTutorial (s.index + 1))
  | previousLevel =>
    simp only [handle, previousLevel]
    split
    · exact .refl s
    · exact .single (.load s.inTutorial (s.index - 1))

theorem advances_turns (s : Session) (dts : List Duration) :
    Chain Turn s (s.handleAll (dts.map .advance)).events
      (s.handleAll (dts.map .advance)).session := by
  induction dts generalizing s with
  | nil => exact .refl s
  | cons dt rest ih => exact (s.advance_turns dt).trans (ih _)

theorem handleAll_moves (s : Session) (rs : List Request) :
    Chain Move s (s.handleAll rs).events (s.handleAll rs).session := by
  induction rs generalizing s with
  | nil => exact .refl s
  | cons r rest ih => exact (s.handle_moves r).trans (ih _)

end Session

theorem Turn.mode {s t : Session} {es : List Event} (h : Turn s es t) :
    t.run.mode = s.run.mode := by
  cases h with
  | fire => exact Session.mode_fire ..
  | step => exact Session.mode_executeStep _
  | settle => rfl

theorem Chain.mode {s t : Session} {es : List Event} (h : Chain Turn s es t) :
    t.run.mode = s.run.mode :=
  h.preserves (P := fun t => t.run.mode = s.run.mode) (fun k h => h.mode.trans k) rfl

/-- What a new session can become by requests. -/
def Reachable (s : Session) : Prop :=
  ∃ (c : Curriculum) (p : Pacing) (rs : List Request), s = ((Session.new c p).handleAll rs).session

/-- Two moves to the star, for concrete runs. -/
def corridor (id : UInt32) : Level where
  id
  gridSize := 3
  start := ⟨0, 1⟩
  startHeading := .east
  goal := ⟨2, 1⟩

def corridors : Curriculum := ⟨corridor 0, [corridor 1]⟩

end RocketPuzzle
