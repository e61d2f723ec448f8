import RocketPuzzle.Proofs.Deeds

/-! # A reset forgets

All that a session keeps of its past through a reset is the number that its next timer will get.
Timers are told apart by their numbers only where they are due at the same moment, and then it is
the order of the numbers that counts. So a session whose numbers are all raised by the same amount
behaves as before, and two sessions that have come to the same place cannot be told apart once they
have been reset.
-/
namespace RocketPuzzle

namespace Timer

variable {α : Type}

def renumber (k : Nat) (t : Timer α) : Timer α := { t with id := t.id + k }

theorem renumber_before {k : Nat} {t u : Timer α} :
    (t.renumber k).Before (u.renumber k) ↔ t.Before u := by
  simp only [Before, renumber, Nat.add_lt_add_iff_right]

theorem takeDue_renumber (k : Nat) (time : Duration) (l : List (Timer α)) :
    takeDue time (l.map (renumber k)) =
      (takeDue time l).map fun r => (r.1.renumber k, r.2.map (renumber k)) := by
  induction l with
  | nil => rfl
  | cons t rest ih =>
    simp only [List.map_cons, takeDue, ih]
    cases hr : takeDue time rest with
    | none =>
      by_cases hd : t.due ≤ time
      · simp [renumber, hd]
      · simp [renumber, hd]
    | some r =>
      simp only [Option.map_some, renumber_before]
      by_cases hfirst : t.due ≤ time ∧ ¬ r.1.Before t
      · simp [renumber, hfirst]
      · simp only [renumber, hfirst, if_false]
        rfl

theorem nextDue_renumber (k : Nat) (l : List (Timer α)) :
    nextDue (l.map (renumber k)) = nextDue l := by
  induction l with
  | nil => rfl
  | cons t rest ih =>
    simp only [List.map_cons, nextDue, ih]
    rfl

end Timer

namespace Agenda

variable {α : Type}

def renumber (k : Nat) (a : Agenda α) : Agenda α :=
  { a with nextId := a.nextId + k, pending := a.pending.map (Timer.renumber k) }

theorem schedule_renumber (k : Nat) (a : Agenda α) (delay : Duration) (payload : α) :
    (a.renumber k).schedule delay payload = (a.schedule delay payload).renumber k := by
  simp [schedule, renumber, Timer.renumber, Nat.add_right_comm]

theorem size_renumber (k : Nat) (a : Agenda α) : (a.renumber k).size = a.size := by
  simp [size, renumber]

theorem popDue_renumber (k : Nat) (time : Duration) (a : Agenda α) :
    (a.renumber k).popDue time =
      (a.popDue time).map fun r => (r.1.renumber k, r.2.renumber k) := by
  simp only [popDue, renumber, Timer.takeDue_renumber]
  cases Timer.takeDue time a.pending <;> rfl

end Agenda

/-- Only the note of a timer that fires has its number. -/
def Note.renumber (k : Nat) : Note → Note
  | .timerFired id c => .timerFired (id + k) c
  | n => n

def Session.renumber (k : Nat) (s : Session) : Session := { s with agenda := s.agenda.renumber k }

namespace Effect

def renumber (k : Nat) (e : Effect) : Effect :=
  ⟨e.session.renumber k, e.events, e.notes.map (Note.renumber k)⟩

theorem andThen_renumber {k : Nat} {e : Effect} {f : Session → Effect}
    (h : f (e.session.renumber k) = (f e.session).renumber k) :
    (e.renumber k).andThen f = (e.andThen f).renumber k := by
  simp [andThen, renumber, h]

end Effect

namespace Session

variable (k : Nat) (s : Session)

@[simp] theorem curriculum_renumber : (s.renumber k).curriculum = s.curriculum := rfl

@[simp] theorem inTutorial_renumber : (s.renumber k).inTutorial = s.inTutorial := rfl

@[simp] theorem index_renumber : (s.renumber k).index = s.index := rfl

@[simp] theorem run_renumber : (s.renumber k).run = s.run := rfl

@[simp] theorem status_renumber : (s.renumber k).status = s.status := rfl

@[simp] theorem verdict_renumber : (s.renumber k).verdict = s.verdict := rfl

@[simp] theorem size_renumber : (s.renumber k).agenda.size = s.agenda.size :=
  Agenda.size_renumber ..

theorem applyNext_renumber : (s.renumber k).applyNext = s.applyNext.renumber k := by
  simp only [applyNext, renumber]
  cases s.run.queue[s.run.cursor]? <;> rfl

theorem schedule_renumber (delay : UInt64) (c : Continuation) :
    (s.renumber k).schedule delay c = (s.schedule delay c).renumber k := by
  simp only [schedule, renumber, Agenda.schedule_renumber]

theorem scheduleNext_renumber : (s.renumber k).scheduleNext = s.scheduleNext.renumber k := by
  unfold scheduleNext
  rw [run_renumber]
  split
  · exact schedule_renumber ..
  · exact schedule_renumber ..

theorem recordCompletion_renumber :
    (s.renumber k).recordCompletion = s.recordCompletion.renumber k := by
  unfold recordCompletion
  rw [inTutorial_renumber, curriculum_renumber, index_renumber]
  split
  · rfl
  · split
    · have hset := schedule_renumber k { s with progress := s.progress.record s.level.id }
        s.pacing.curriculumDelay .curriculumCompleted
      simp only [Effect.renumber, ← hset]
      rfl
    · rfl

theorem succeed_renumber : (s.renumber k).succeed = s.succeed.renumber k :=
  recordCompletion_renumber k { s with rocket := s.rocket.complete, status := .completed }

theorem conclude_renumber : (s.renumber k).conclude = s.conclude.renumber k := by
  cases hv : s.verdict with
  | success =>
    simp only [conclude, verdict_renumber, hv]
    simp only [Effect.andThen, succeed_renumber, Effect.renumber, List.map_append]
    rfl
  | pending | collided | goalNotReached | missingFuel =>
    simp only [conclude, verdict_renumber, hv]
    rfl

theorem executeStep_renumber : (s.renumber k).executeStep = s.executeStep.renumber k := by
  unfold executeStep
  rw [run_renumber]
  split
  · exact conclude_renumber k s
  · rw [applyNext_renumber]
    apply Effect.andThen_renumber
    rw [run_renumber]
    split
    · exact conclude_renumber ..
    · rfl

theorem fire_renumber (c : Continuation) : (s.renumber k).fire c = (s.fire c).renumber k := by
  cases c with
  | applyNext =>
    simp only [fire, applyNext_renumber]
    apply Effect.andThen_renumber
    rw [scheduleNext_renumber]
    rfl
  | step => exact executeStep_renumber k s
  | evaluate => exact conclude_renumber k s
  | curriculumCompleted => rfl

theorem fireTimer_renumber (t : Timer Continuation) (agenda : Agenda Continuation) :
    (s.renumber k).fireTimer (t.renumber k) (agenda.renumber k) =
      (s.fireTimer t agenda).renumber k := by
  have hfire := fire_renumber k { s with agenda } t.payload
  simp only [renumber] at hfire
  simp only [fireTimer, renumber, Timer.renumber, hfire]
  rfl

/-- The timers that are due are found and fired in the same order. -/
theorem runTo_renumber (time : Duration) :
    (s.renumber k).runTo time = (s.runTo time).renumber k := by
  fun_induction runTo time s with
  | case1 s h =>
    have hnone : (s.renumber k).agenda.popDue time = none := by
      simp only [renumber, Agenda.popDue_renumber, h, Option.map_none]
    rw [runTo_of_none hnone]
    rfl
  | case2 s t agenda h fired rest ih =>
    have hdue : (s.renumber k).agenda.popDue time = some (t.renumber k, agenda.renumber k) := by
      simp only [renumber, Agenda.popDue_renumber, h, Option.map_some]
    rw [runTo_of_some hdue, fireTimer_renumber]
    exact Effect.andThen_renumber ih

theorem advance_renumber (dt : Duration) :
    (s.renumber k).advance dt = (s.advance dt).renumber k := runTo_renumber ..

theorem reset_renumber : (s.renumber k).reset = s.reset.renumber k := by
  simp only [reset, size_renumber, Effect.renumber]
  split <;> rfl

theorem load_renumber : (s.renumber k).load = s.load.renumber k :=
  reset_renumber k { s with level := s.curriculum.active s.inTutorial s.index }

theorem startRun_renumber (mode : RunMode) (queue : List Command) :
    (s.renumber k).startRun mode queue = (s.startRun mode queue).renumber k := by
  unfold startRun
  rw [reset_renumber]
  exact Effect.andThen_renumber rfl

theorem begin_renumber (source : Source) (mode : RunMode) (delay : UInt64) (c : Continuation) :
    (s.renumber k).begin source mode delay c = (s.begin source mode delay c).renumber k := by
  let notes : List Note := source.fault?.toList.map .compilationFailed
  have hnotes : notes.map (Note.renumber k) = notes := by simp [notes, Note.renumber]
  have htold : (⟨s.renumber k, [], notes⟩ : Effect) = Effect.renumber k ⟨s, [], notes⟩ := by
    simp only [Effect.renumber, hnotes]
  have hbegin : ∀ t : Session, t.begin source mode delay c =
      Effect.andThen ⟨t, [], notes⟩ fun t =>
        if source.queue.isEmpty then t.refuseEmpty
        else (t.startRun mode source.queue).andThen fun u => { session := u.schedule delay c } :=
    fun _ => rfl
  rw [hbegin, hbegin, htold]
  apply Effect.andThen_renumber
  split
  · rfl
  · rw [startRun_renumber]
    apply Effect.andThen_renumber
    rw [schedule_renumber]
    rfl

theorem runAll_renumber (source : Source) :
    (s.renumber k).runAll source = (s.runAll source).renumber k := by
  unfold runAll
  rw [status_renumber]
  split
  · rfl
  · exact begin_renumber ..

theorem stepNow_renumber : (s.renumber k).stepNow = s.stepNow.renumber k :=
  executeStep_renumber k { s with agenda := s.agenda.cancelAll }

theorem stepOn_renumber : (s.renumber k).stepOn = s.stepOn.renumber k := by
  have hstep : ∀ t : Session, t.stepOn =
      if 0 < t.agenda.size then
        t.stepNow.andThen fun t => if t.status = .running then t.executeStep else { session := t }
      else t.executeStep := fun _ => rfl
  rw [hstep, hstep, size_renumber]
  split
  · rw [stepNow_renumber]
    apply Effect.andThen_renumber
    rw [status_renumber]
    split
    · exact executeStep_renumber ..
    · rfl
  · exact executeStep_renumber k s

theorem step_renumber (source : Source) :
    (s.renumber k).step source = (s.step source).renumber k := by
  unfold step
  rw [status_renumber, run_renumber]
  split
  · split
    · exact stepOn_renumber ..
    · rfl
  · exact begin_renumber ..

theorem select_renumber (index : Nat) :
    (s.renumber k).select index = (s.select index).map (Effect.renumber k) := by
  have hload := load_renumber k { s with inTutorial := false, index }
  unfold select
  rw [curriculum_renumber]
  split
  · exact congrArg some hload
  · rfl

theorem setTutorial_renumber (enabled : Bool) :
    (s.renumber k).setTutorial enabled = (s.setTutorial enabled).renumber k :=
  load_renumber k { s with inTutorial := enabled || s.curriculum.isEmpty }

theorem nextLevel_renumber :
    (s.renumber k).nextLevel = s.nextLevel.map (Effect.renumber k) := by
  have hload := load_renumber k { s with index := s.index + 1 }
  unfold nextLevel
  rw [inTutorial_renumber, curriculum_renumber, index_renumber]
  split
  · rfl
  · exact congrArg some hload

theorem previousLevel_renumber :
    (s.renumber k).previousLevel = s.previousLevel.map (Effect.renumber k) := by
  have hload := load_renumber k { s with index := s.index - 1 }
  unfold previousLevel
  rw [inTutorial_renumber, index_renumber]
  split
  · rfl
  · exact congrArg some hload

def Answer.renumber (a : Answer) : Answer := ⟨a.effect.renumber k, a.reply⟩

theorem answerChange_renumber (e : Option Effect) :
    (s.renumber k).answerChange (e.map (Effect.renumber k)) = (s.answerChange e).renumber k := by
  cases e <;> rfl

/-- No request looks at the numbers of the timers. -/
theorem handle_renumber (r : Request) : (s.renumber k).handle r = (s.handle r).renumber k := by
  cases r with
  | runAll source => simp only [handle, runAll_renumber, Answer.renumber]
  | step source => simp only [handle, step_renumber, Answer.renumber]
  | advance dt => simp only [handle, advance_renumber, Answer.renumber]
  | reset => simp only [handle, reset_renumber, Answer.renumber]
  | select index =>
    simp only [handle, select_renumber]
    cases s.select index <;> rfl
  | setTutorial enabled => simp only [handle, setTutorial_renumber, Answer.renumber]
  | nextLevel => simp only [handle, nextLevel_renumber, answerChange_renumber]
  | previousLevel => simp only [handle, previousLevel_renumber, answerChange_renumber]

end Session

/-- What can be seen of a session. -/
structure View where
  snapshot : Snapshot
  status : Status
  queue : List Command
  cursor : Nat
  collided : Bool
  pendingTimers : Nat
  nextDue : Option Duration
  now : Duration
  selection : Selection
  progress : Progress
  deriving DecidableEq, Repr

/-- One request as seen from outside: what it told, what it returned, and what is seen then. -/
structure Sight where
  events : List Event
  reply : Reply
  view : View
  deriving DecidableEq, Repr

/-- Two sessions are at the same place at the same time, whatever brought them there. -/
structure SamePlace (a b : Session) : Prop where
  curriculum : a.curriculum = b.curriculum
  pacing : a.pacing = b.pacing
  inTutorial : a.inTutorial = b.inTutorial
  index : a.index = b.index
  now : a.agenda.now = b.agenda.now
  progress : a.progress = b.progress

variable {a b : Session}

/-- Sessions that have come to the same place by requests have the same level loaded. -/
theorem SamePlace.level (h : SamePlace a b) (ha : Reachable a) (hb : Reachable b) :
    a.level = b.level := by
  rw [ha.placed.level, hb.placed.level, h.curriculum, h.inTutorial, h.index]

namespace Session

def view (s : Session) : View where
  snapshot := s.rocket.snapshot
  status := s.status
  queue := s.run.queue
  cursor := s.run.cursor
  collided := s.run.collided
  pendingTimers := s.agenda.size
  nextDue := s.agenda.nextDue
  now := s.agenda.now
  selection := s.selection
  progress := s.progress

/-- All that is seen while the requests are answered one after another. -/
def sights (s : Session) : List Request → List Sight
  | [] => []
  | r :: rest =>
    let a := s.handle r
    ⟨a.effect.events, a.reply, a.effect.session.view⟩ :: a.effect.session.sights rest

theorem view_renumber (k : Nat) (s : Session) : (s.renumber k).view = s.view := by
  have hdue : (s.renumber k).agenda.nextDue = s.agenda.nextDue := Timer.nextDue_renumber ..
  simp only [view, hdue, size_renumber]
  rfl

theorem sights_renumber (k : Nat) (s : Session) (rs : List Request) :
    (s.renumber k).sights rs = s.sights rs := by
  induction rs generalizing s with
  | nil => rfl
  | cons r rest ih =>
    simp only [sights, handle_renumber, Answer.renumber, Effect.renumber, view_renumber, ih]

/-- A session after a reset, as it would be if it had never set a timer before. -/
def unnumbered (s : Session) : Session :=
  { s.reset.session with agenda := { now := s.agenda.now } }

theorem reset_eq_renumber (s : Session) :
    s.reset.session = s.unnumbered.renumber s.agenda.nextId := by
  simp [reset, unnumbered, renumber, Agenda.renumber, Agenda.cancelAll]

theorem unnumbered_eq (h : SamePlace a b) (level : a.level = b.level) :
    a.unnumbered = b.unnumbered := by
  simp only [unnumbered, reset, level, h.curriculum, h.pacing, h.inTutorial, h.index, h.now,
    h.progress]

/-- After a reset nobody can tell what a session has been through. -/
theorem reset_isolates (ha : Reachable a) (hb : Reachable b) (h : SamePlace a b)
    (rs : List Request) : a.sights (.reset :: rs) = b.sights (.reset :: rs) := by
  have hlevel := h.level ha hb
  have hfresh := unnumbered_eq h hlevel
  have hevents : a.reset.events = b.reset.events := by simp only [reset, hlevel]
  have hview : a.reset.session.view = b.reset.session.view := by
    rw [reset_eq_renumber, reset_eq_renumber, view_renumber, view_renumber, hfresh]
  have hrest : a.reset.session.sights rs = b.reset.session.sights rs := by
    rw [reset_eq_renumber, reset_eq_renumber, sights_renumber, sights_renumber, hfresh]
  simp only [sights, handle, hevents, hview, hrest]

/-- A paced run in flight is forgotten, with the timer that carries it on. -/
theorem reset_isolates_corridor :
    let source : Source := .commands [.move, .turnLeft, .turnRight, .move]
    let a := ((Session.new corridors {}).handleAll
      [.runAll source, .advance (.ofMillis 1000)]).session
    let b := ((Session.new corridors {}).handleAll [.advance (.ofMillis 1000)]).session
    let rs : List Request := [.advance (.ofMillis 900), .step source, .step source, .nextLevel]
    Reachable a ∧ Reachable b ∧ SamePlace a b ∧ a.view ≠ b.view ∧
      a.sights (.reset :: rs) = b.sights (.reset :: rs) := by
  intro source a b rs
  have ha : Reachable a := ⟨_, _, _, rfl⟩
  have hb : Reachable b := ⟨_, _, _, rfl⟩
  have hsame : SamePlace a b := by constructor <;> decide +kernel
  have hdiffer : a.view ≠ b.view := by decide +kernel
  exact ⟨ha, hb, hsame, hdiffer, reset_isolates ha hb hsame rs⟩

end Session

end RocketPuzzle
