import RocketPuzzle.Session.Run

/-! # Workload

A bound on the timers that a session can still fire before it comes to rest. Main statement:
`workload_fire_lt`, that every timer fired brings the session nearer to rest.
-/
namespace RocketPuzzle

/-- How many timers one timer can bring about, itself included and beyond the commands that it
uses up. -/
def Continuation.weight : Continuation → Nat
  | applyNext => 3
  | step => 2
  | evaluate => 2
  | curriculumCompleted => 1

namespace Session

def timerLoad : List (Timer Continuation) → Nat
  | [] => 0
  | t :: rest => t.payload.weight + timerLoad rest

def workload (s : Session) : Nat := s.run.remaining + timerLoad s.agenda.pending

theorem timerLoad_perm {l m : List (Timer Continuation)} (h : l.Perm m) :
    timerLoad l = timerLoad m := by
  induction h with
  | nil => rfl
  | cons t _ ih => simp only [timerLoad, ih]
  | swap t u l =>
    simp only [timerLoad]
    omega
  | trans _ _ ih₁ ih₂ => exact ih₁.trans ih₂

theorem timerLoad_append (l m : List (Timer Continuation)) :
    timerLoad (l ++ m) = timerLoad l + timerLoad m := by
  induction l with
  | nil => simp [timerLoad]
  | cons t rest ih =>
    simp only [List.cons_append, timerLoad, ih]
    omega

theorem timerLoad_takeDue {time : Duration} {l others : List (Timer Continuation)}
    {t : Timer Continuation} (h : Timer.takeDue time l = some (t, others)) :
    timerLoad l = t.payload.weight + timerLoad others :=
  timerLoad_perm (Timer.takeDue_perm h)

theorem workload_schedule (s : Session) (delay : UInt64) (c : Continuation) :
    (s.schedule delay c).workload = s.workload + c.weight := by
  simp [workload, schedule, Agenda.schedule, timerLoad_append, timerLoad, Nat.add_assoc]

theorem workload_succeed_le (s : Session) : s.succeed.session.workload ≤ s.workload + 1 := by
  unfold succeed recordCompletion
  split
  · exact Nat.le_succ _
  · dsimp only
    split
    · exact Nat.le_of_eq (workload_schedule ..)
    · exact Nat.le_succ _

theorem workload_conclude_le (s : Session) : s.conclude.session.workload ≤ s.workload + 1 := by
  unfold conclude
  split
  · exact Nat.le_succ _
  · exact workload_succeed_le s
  · exact Nat.le_succ _

/-- Applying a command uses it up; only an empty queue has none to apply. -/
theorem workload_applyNext (s : Session) :
    (s.applyNext.session.workload < s.workload) ∨
      (s.applyNext.session = s ∧ s.run.exhausted = true) := by
  unfold applyNext
  split
  · next h => exact .inr ⟨rfl, by simpa [Run.exhausted] using h⟩
  · next c h =>
    obtain ⟨hlt, _⟩ := List.getElem?_eq_some_iff.1 h
    left
    simp only [workload, Run.remaining]
    omega

theorem workload_executeStep_le (s : Session) :
    s.executeStep.session.workload ≤ s.workload + 1 := by
  unfold executeStep
  split
  · exact workload_conclude_le s
  · have h : s.applyNext.session.workload ≤ s.workload := by
      rcases workload_applyNext s with h | ⟨h, _⟩
      · exact Nat.le_of_lt h
      · exact Nat.le_of_eq (congrArg workload h)
    simp only [Effect.andThen]
    split
    · exact Nat.le_trans (workload_conclude_le _) (Nat.succ_le_succ h)
    · exact Nat.le_succ_of_le h

theorem workload_scheduleNext_le (s : Session) : s.scheduleNext.workload ≤ s.workload + 3 := by
  unfold scheduleNext
  split <;> rw [workload_schedule] <;> simp [Continuation.weight]

theorem workload_fire_lt (s : Session) (c : Continuation) :
    (s.fire c).session.workload < s.workload + c.weight := by
  cases c with
  | applyNext =>
    simp only [fire, Effect.andThen, Continuation.weight]
    rcases workload_applyNext s with h | ⟨h, done⟩
    · have := workload_scheduleNext_le s.applyNext.session
      omega
    · rw [h]
      have : s.run.isOver = true := by simp [Run.isOver, done]
      simp [scheduleNext, this, workload_schedule, Continuation.weight]
  | step => exact Nat.lt_succ_of_le (workload_executeStep_le s)
  | evaluate => exact Nat.lt_succ_of_le (workload_conclude_le s)
  | curriculumCompleted => exact Nat.lt_succ_self _

/-- Taking a timer off the agenda and firing it lowers the workload. -/
theorem workload_popDue_fire_lt {s : Session} {time : Duration} {t : Timer Continuation}
    {agenda : Agenda Continuation} (h : s.agenda.popDue time = some (t, agenda)) :
    (Session.fire { s with agenda } t.payload).session.workload < s.workload := by
  refine Nat.lt_of_lt_of_eq (workload_fire_lt _ _) ?_
  unfold Agenda.popDue at h
  split at h
  · cases h
  · next u others hu =>
    cases h
    simp only [workload, timerLoad_takeDue hu]
    omega

end Session

end RocketPuzzle
