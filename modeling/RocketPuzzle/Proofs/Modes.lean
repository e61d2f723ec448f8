import RocketPuzzle.Proofs.Course

/-! # The two modes of running

A run is fixed when it begins. Whether the clock or the player carries it on, and however the
requests lie in time, it is the run in one pass that is seen in the end.
-/
namespace RocketPuzzle

/-- The event without the mode of the run that it tells of. -/
def Event.modeless : Event → Event
  | .runStarted _ commands => .runStarted .paced commands
  | e => e

/-- What a player may ask for while a stepped run goes on. -/
def Request.carriesOn : Request → Bool
  | .step _ => true
  | .advance _ => true
  | _ => false

namespace Session

/-- A paced run, and time that passes. -/
def pacedRun (s : Session) (source : Source) (spans : List Duration) : Effect :=
  s.handleAll (.runAll source :: spans.map .advance)

/-- The requests carry a stepped run on, and it is over after the last of them and not before. -/
def EndsRun (s : Session) : List Request → Prop
  | [] => s.status ≠ .running
  | r :: rest =>
    s.status = .running ∧ r.carriesOn = true ∧ (s.handle r).effect.session.EndsRun rest

instance decidableEndsRun : (s : Session) → (rs : List Request) → Decidable (s.EndsRun rs)
  | _, [] => inferInstanceAs (Decidable (_ ≠ _))
  | s, r :: rest =>
    have := decidableEndsRun (s.handle r).effect.session rest
    inferInstanceAs (Decidable (_ ∧ _ ∧ _))

/-- A stepped run carried on by `rs`, and then time that passes. -/
def steppedRun (s : Session) (source : Source) (rs : List Request) (spans : List Duration) :
    Effect :=
  s.handleAll (.step source :: rs ++ spans.map .advance)

variable {s : Session} {source : Source} {rs : List Request} {spans : List Duration}

theorem runAll_eq (idle : s.status ≠ .running) (nonempty : source.queue ≠ []) :
    (s.runAll source).session = s.launched .paced source.queue ∧
      (s.runAll source).events =
        [.levelReset s.level.id, .runStarted .paced source.queue.length] := by
  unfold runAll
  rw [if_neg idle]
  exact s.begin_eq nonempty .paced

theorem step_eq (idle : s.status ≠ .running) (nonempty : source.queue ≠ []) :
    (s.step source).session = s.launched .stepped source.queue ∧
      (s.step source).events =
        [.levelReset s.level.id, .runStarted .stepped source.queue.length] := by
  unfold step
  rw [if_neg idle]
  exact s.begin_eq nonempty .stepped

theorem status_of_paced (h : s.Coherent) (paced : s.run.mode = some .paced)
    (clear : s.agenda.pending = []) : s.status ≠ .running := by
  intro running
  obtain ⟨t, hpending, _⟩ := h.paced running paced
  rw [hpending] at clear
  cases clear

theorem EndsRun.turns (h : s.EndsRun rs) (stepped : s.run.mode = some .stepped) :
    Chain Turn s (s.handleAll rs).events (s.handleAll rs).session ∧
      (s.handleAll rs).session.status ≠ .running := by
  induction rs generalizing s with
  | nil => exact ⟨.refl s, h⟩
  | cons r rest ih =>
    obtain ⟨running, hon, hrest⟩ := h
    have hfirst : Chain Turn s (s.handle r).effect.events (s.handle r).effect.session := by
      cases r with
      | step source =>
        simp only [handle, step, running, stepped, if_true]
        exact stepOn_turns running stepped
      | advance dt => exact s.advance_turns dt
      | runAll | reset | select | setTutorial | nextLevel | previousLevel => cases hon
    have hmode : (s.handle r).effect.session.run.mode = some .stepped :=
      hfirst.preserves (fun k h => h.mode.trans k) stepped
    obtain ⟨hturns, hover⟩ := ih hrest hmode
    exact ⟨hfirst.trans hturns, hover⟩

theorem pacedRun_plays (idle : s.status ≠ .running) (nonempty : source.queue ≠ [])
    (clear : (s.pacedRun source spans).session.agenda.pending = []) :
    (s.playThrough .paced source.queue).session = (s.pacedRun source spans).session.still ∧
      (s.playThrough .paced source.queue).events = (s.pacedRun source spans).events := by
  obtain ⟨hsession, hevents⟩ := runAll_eq idle nonempty
  have hturns := (s.launched .paced source.queue).advances_turns spans
  have hcoherent := s.launched_coherent .paced nonempty
  simp only [pacedRun, handleAll, handle, Effect.andThen, hsession, hevents] at clear ⊢
  have hrest := status_of_paced (hcoherent.turns hturns) hturns.mode clear
  exact playThrough_of_turns nonempty hturns hrest clear

theorem steppedRun_plays (idle : s.status ≠ .running) (nonempty : source.queue ≠ [])
    (ends : (s.step source).session.EndsRun rs)
    (clear : (s.steppedRun source rs spans).session.agenda.pending = []) :
    (s.playThrough .stepped source.queue).session =
        (s.steppedRun source rs spans).session.still ∧
      (s.playThrough .stepped source.queue).events = (s.steppedRun source rs spans).events := by
  obtain ⟨hsession, hevents⟩ := step_eq idle nonempty
  have hcoherent := s.launched_coherent .stepped nonempty
  rw [hsession] at ends
  obtain ⟨hrun, hover⟩ := ends.turns rfl
  have hwait := ((s.launched .stepped source.queue).handleAll rs).session.advances_turns spans
  simp only [steppedRun, List.cons_append, handleAll, handle, handleAll_append, Effect.andThen,
    hsession, hevents] at clear ⊢
  have hrest := (hcoherent.turns hrun).turns_rest hover hwait
  exact playThrough_of_turns nonempty (hrun.trans hwait) hrest clear

/-- A paced run tells and leaves what the run in one pass does, however the time is cut up. -/
theorem runAll_plays_through (s : Session) (source : Source) (idle : s.status ≠ .running)
    (nonempty : source.queue ≠ []) :
    (s.pacedRun source [.longest]).session.agenda.pending = [] ∧
      ∀ spans, (s.pacedRun source spans).session.agenda.pending = [] →
        (s.pacedRun source spans).events = (s.playThrough .paced source.queue).events ∧
          (s.pacedRun source spans).session.still =
            (s.playThrough .paced source.queue).session := by
  constructor
  · exact pending_advance_longest _
  · intro spans clear
    obtain ⟨hsession, hevents⟩ := pacedRun_plays idle nonempty clear
    exact ⟨hevents.symm, hsession.symm⟩

theorem runAll_plays_through_corridor :
    let s := Session.new corridors {}
    let source : Source := .commands [.move, .turnLeft, .turnRight, .move]
    let spans : List Duration := [.ofMillis 1000, .zero, .ofMillis 9000]
    s.status ≠ .running ∧ source.queue ≠ [] ∧
      (s.pacedRun source spans).session.agenda.pending = [] ∧
      (s.pacedRun source spans).events = (s.playThrough .paced source.queue).events ∧
      (s.pacedRun source spans).session.still = (s.playThrough .paced source.queue).session := by
  intro s source spans
  have hidle : s.status ≠ .running := by decide
  have hqueue : source.queue ≠ [] := by decide
  have hclear : (s.pacedRun source spans).session.agenda.pending = [] := by decide +kernel
  exact ⟨hidle, hqueue, hclear, (runAll_plays_through s source hidle hqueue).2 spans hclear⟩

/-- Two runs are the same to everybody who does not ask for their mode. -/
structure SameRun (p q : Effect) : Prop where
  snapshot : p.session.rocket.snapshot = q.session.rocket.snapshot
  status : p.session.status = q.session.status
  queue : p.session.run.queue = q.session.run.queue
  cursor : p.session.run.cursor = q.session.run.cursor
  collided : p.session.run.collided = q.session.run.collided
  progress : p.session.progress = q.session.progress
  events : p.events.map Event.modeless = q.events.map Event.modeless

/-- The clock and the player bring the same run about, in whatever order they take turns. -/
theorem steppedRun_same_pacedRun (s : Session) (source : Source) (idle : s.status ≠ .running)
    (nonempty : source.queue ≠ []) (spans waits : List Duration) (rs : List Request)
    (pacedClear : (s.pacedRun source spans).session.agenda.pending = [])
    (ends : (s.step source).session.EndsRun rs)
    (steppedClear : (s.steppedRun source rs waits).session.agenda.pending = []) :
    SameRun (s.pacedRun source spans) (s.steppedRun source rs waits) := by
  obtain ⟨hpaced, hpacedEvents⟩ := pacedRun_plays idle nonempty pacedClear
  obtain ⟨hstepped, hsteppedEvents⟩ := steppedRun_plays idle nonempty ends steppedClear
  have hsame : ∀ {α : Type} (f : Session → α),
      f (s.playThrough .paced source.queue).session =
        f (s.playThrough .stepped source.queue).session →
      f (s.pacedRun source spans).session.still =
        f (s.steppedRun source rs waits).session.still := by
    intro α f hf
    rw [← hpaced, ← hstepped, hf]
  constructor
  · exact hsame (fun t => t.rocket.snapshot) rfl
  · exact hsame (fun t => t.status) rfl
  · exact hsame (fun t => t.run.queue) rfl
  · exact hsame (fun t => t.run.cursor) rfl
  · exact hsame (fun t => t.run.collided) rfl
  · exact hsame (fun t => t.progress) rfl
  · rw [← hpacedEvents, ← hsteppedEvents]
    rfl

theorem steppedRun_same_pacedRun_corridor :
    let s := Session.new corridors {}
    let source : Source := .commands [.move, .turnLeft, .turnRight, .move]
    let rs : List Request :=
      [.advance (.ofMillis 50), .step source, .advance .zero, .step source, .step source,
        .step source]
    s.status ≠ .running ∧ source.queue ≠ [] ∧ (s.step source).session.EndsRun rs ∧
      SameRun (s.pacedRun source [.longest]) (s.steppedRun source rs [.longest]) := by
  intro s source rs
  have hidle : s.status ≠ .running := by decide
  have hqueue : source.queue ≠ [] := by decide
  have hends : (s.step source).session.EndsRun rs := by decide +kernel
  have hclear : (s.pacedRun source [.longest]).session.agenda.pending = [] := by decide +kernel
  have hrest : (s.steppedRun source rs [.longest]).session.agenda.pending = [] := by decide +kernel
  exact ⟨hidle, hqueue, hends,
    steppedRun_same_pacedRun s source hidle hqueue _ _ rs hclear hends hrest⟩

end Session

end RocketPuzzle
