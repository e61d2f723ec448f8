import RocketPuzzle.Session.Request
import RocketPuzzle.Proofs.Agenda
import RocketPuzzle.Proofs.Run

/-! # Time passes

Time that passes is a chain of timers fired one after another, and the clock stands where it was
told to at the end. No operation of a run moves the clock by itself.
-/
namespace RocketPuzzle

namespace Effect

variable {s : Session} {e : Effect} {f g : Session → Effect}

theorem andThen_assoc : (e.andThen f).andThen g = e.andThen fun s => (f s).andThen g := by
  simp only [andThen, List.append_assoc]

/-- Only what comes after the session that is there counts. -/
theorem andThen_congr (h : f e.session = g e.session) : e.andThen f = e.andThen g := by
  simp only [andThen, h]

@[simp] theorem stay_andThen : Effect.andThen { session := s } f = f s := rfl

@[simp] theorem andThen_stay : (e.andThen fun s => { session := s }) = e := by
  simp [andThen]

end Effect

namespace Session

variable {s : Session} {time early late : Duration} {t : Timer Continuation}
  {agenda : Agenda Continuation}

/-- A timer is off the agenda and fires. -/
def fireTimer (s : Session) (t : Timer Continuation) (agenda : Agenda Continuation) : Effect :=
  let fired := Session.fire { s with agenda } t.payload
  { fired with notes := .timerFired t.id t.payload :: fired.notes }

theorem runTo_of_none (h : s.agenda.popDue time = none) :
    s.runTo time = { session := { s with agenda := s.agenda.settle time } } := by
  rw [runTo]
  split
  · rfl
  · next k => rw [h] at k; cases k

theorem runTo_of_some (h : s.agenda.popDue time = some (t, agenda)) :
    s.runTo time = (s.fireTimer t agenda).andThen (runTo time) := by
  rw [runTo]
  split
  · next k => rw [h] at k; cases k
  · next k =>
    rw [h] at k
    cases k
    rfl

theorem now_conclude (s : Session) : s.conclude.session.agenda.now = s.agenda.now := by
  rw [conclude_session]
  split <;> rfl

theorem now_executeStep (s : Session) : s.executeStep.session.agenda.now = s.agenda.now := by
  unfold executeStep
  split
  · exact s.now_conclude
  · simp only [Effect.andThen]
    split
    · rw [now_conclude, agenda_applyNext]
    · rw [agenda_applyNext]

theorem now_fire (s : Session) (c : Continuation) :
    (s.fire c).session.agenda.now = s.agenda.now := by
  cases c with
  | applyNext =>
    have hsame : s.applyNext.session.agenda.now = s.agenda.now := by rw [agenda_applyNext]
    simp only [fire, Effect.andThen, scheduleNext]
    split <;> exact hsame
  | step => exact s.now_executeStep
  | evaluate => exact s.now_conclude
  | curriculumCompleted => rfl

/-- The clock stands at the time it was told, unless it was past it before. -/
theorem now_runTo (time : Duration) (s : Session) :
    (s.runTo time).session.agenda.now = max s.agenda.now time := by
  fun_induction runTo time s with
  | case1 s h => rfl
  | case2 s t agenda h fired rest ih =>
    change (runTo time fired.session).session.agenda.now = _
    rw [ih, now_fire, Agenda.now_popDue h]

/-- Nothing that is still to fire is due. -/
theorem popDue_runTo (time : Duration) (s : Session) :
    (s.runTo time).session.agenda.popDue time = none := by
  fun_induction runTo time s with
  | case1 s h => exact (Agenda.popDue_settle h time).trans h
  | case2 s t agenda h fired rest ih => exact ih

theorem now_advance (s : Session) (dt : Duration) :
    (s.advance dt).session.agenda.now = s.agenda.now + dt := by
  rw [advance, now_runTo, Duration.max_eq_right (Duration.le_self_add ..)]

/-- However many timers are set on the way, there is a time at which all have fired. -/
theorem pending_advance_longest (s : Session) :
    (s.advance .longest).session.agenda.pending = [] := by
  apply List.eq_nil_iff_forall_not_mem.mpr
  intro t ht
  rw [advance] at ht
  have hlate := Agenda.popDue_eq_none.mp (popDue_runTo _ s) t ht
  exact Duration.not_le.mpr hlate
    (Duration.le_trans t.due.le_longest (Duration.le_add_self s.agenda.now .longest))

theorem handleAll_append (s : Session) (first second : List Request) :
    s.handleAll (first ++ second) = (s.handleAll first).andThen fun t => t.handleAll second := by
  induction first generalizing s with
  | nil => rfl
  | cons r rest ih =>
    simp only [List.cons_append, handleAll, Effect.andThen_assoc]
    congr 1
    funext t
    exact ih t

end Session

end RocketPuzzle
