import RocketPuzzle.Proofs.Chronicle
import RocketPuzzle.Proofs.Passage

/-! # What is owed

The announcement is the one timer that outlives its run. Between the win and the announcement a
player may ask for anything: what goes back to the start of a level cancels it, and nothing else
does. What is owed to the player is a time, and each thing that happens leaves it as it is, sets it,
pays it or takes it away.
-/
namespace RocketPuzzle

/-- When a run that is won at `t` is to be announced, if it is a run on the last level. -/
def Pacing.announcementDue (p : Pacing) (t : Duration) : Duration := t + .ofMillis p.curriculumDelay

/-- What was told, with the clock at that moment. -/
def Firing.stamped (f : Firing) : List (Duration × Event) := f.events.map (f.clock, ·)

namespace Session

/-- The time at which the announcement is to come, if one waits. -/
def awaited? (s : Session) : Option Duration :=
  if s.status = .completed then s.agenda.pending.head?.map Timer.due else none

/-- An announcement is owed at `d`: one waits already, or `log` tells of a win. -/
def Owes (s : Session) (log : List (Duration × Event)) (d : Duration) : Prop :=
  s.awaited? = some d ∨
    s.onLastLevel = true ∧ ∃ t, (t, .goalEvaluated .success) ∈ log ∧ d = s.pacing.announcementDue t

end Session

variable {s t u : Session} {es fs : List Event} {log : List (Duration × Event)}
  {d time : Duration}

theorem CarriesOn.onLastLevel (h : CarriesOn s es t) : t.onLastLevel = s.onLastLevel := by
  refine Chain.preserves (P := fun t => t.onLastLevel = s.onLastLevel) ?_ h rfl
  rintro s es t hs ⟨hd, on⟩
  obtain ⟨hcurriculum, hplace⟩ := hd.place
  obtain ⟨htutorial, hindex, _⟩ := hplace on
  rw [← hs, Session.onLastLevel, Session.onLastLevel, hcurriculum, htutorial, hindex]

theorem CarriesOn.keeps (h : CarriesOn s es t) : ∀ e ∈ es, e.isReset = false := by
  induction h with
  | refl => exact List.forall_mem_nil _
  | head h _ ih =>
    obtain ⟨hd, on⟩ := h
    exact List.forall_mem_append.mpr ⟨fun e he => (hd.goes_on on e he).1, ih⟩

theorem CarriesOn.going (h : CarriesOn s es t) (running : s.status = .running)
    (still : t.status = .running) : ∀ e ∈ es, e.isEnding = false := by
  cases CarriesOn.judged h running with
  | notYet going => exact going
  | @once _ _ v =>
    have hjudged := (CarriesOn.judges_iff h).mp ⟨v, by simp⟩
    exact absurd still hjudged.2

namespace Session

theorem awaited?_of_running (running : s.status = .running) : s.awaited? = none := by
  simp [awaited?, running]

theorem awaited?_of_nil (clear : s.agenda.pending = []) : s.awaited? = none := by
  simp [awaited?, clear]

theorem awaited?_conclude (clear : s.agenda.pending = []) :
    s.conclude.session.awaited? = some d ↔
      s.onLastLevel = true ∧ s.verdict = .success ∧
        d = s.pacing.announcementDue s.agenda.now := by
  rw [conclude_session]
  by_cases hwon : s.verdict = .success ∧ s.onLastLevel = true
  · have hpending := pending_schedule (s := s.closed s.verdict) clear s.pacing.curriculumDelay
      .curriculumCompleted
    have hstatus : ((s.closed s.verdict).schedule s.pacing.curriculumDelay
        .curriculumCompleted).status = .completed := if_pos hwon.1
    rw [if_pos hwon, awaited?, if_pos hstatus, hpending]
    simp only [hwon, true_and]
    exact Option.some_inj.trans eq_comm
  · rw [if_neg hwon, awaited?_of_nil (s := s.closed s.verdict) clear]
    refine iff_of_false (by simp) ?_
    rintro ⟨hlast, hv, _⟩
    exact hwon ⟨hv, hlast⟩

theorem mem_stamp {e : Event} {now : Duration} :
    (time, e) ∈ es.map (now, ·) ↔ time = now ∧ e ∈ es := by
  constructor
  · intro h
    obtain ⟨f, hf, heq⟩ := List.mem_map.mp h
    obtain ⟨rfl, rfl⟩ := Prod.mk.inj heq
    exact ⟨rfl, hf⟩
  · rintro ⟨rfl, h⟩
    exact List.mem_map_of_mem h

/-- From `s` to `t` the clock stands still, and `es` is told. What is owed afterwards is what was
owed before and what has come of the events. -/
structure Settles (s : Session) (es : List Event) (t : Session) : Prop where
  clock : t.agenda.now = s.agenda.now
  owed : ∀ log d, s.Owes (es.map (s.agenda.now, ·) ++ log) d ↔ t.Owes log d
  silent : .curriculumCompleted ∉ es
  keeps : ∀ e ∈ es, e.isReset = false

namespace Settles

theorem refl (s : Session) : Settles s [] s :=
  ⟨rfl, fun _ _ => Iff.rfl, List.not_mem_nil, List.forall_mem_nil _⟩

theorem trans (h : Settles s es t) (k : Settles t fs u) : Settles s (es ++ fs) u where
  clock := k.clock.trans h.clock
  owed log d := by
    rw [← k.owed, ← h.owed, h.clock, List.map_append, List.append_assoc]
  silent := by
    rw [List.mem_append, not_or]
    exact ⟨h.silent, k.silent⟩
  keeps := List.forall_mem_append.mpr ⟨h.keeps, k.keeps⟩

theorem of_quiet (clock : t.agenda.now = s.agenda.now) (awaited : t.awaited? = s.awaited?)
    (last : t.onLastLevel = s.onLastLevel) (pacing : t.pacing = s.pacing)
    (going : ∀ e ∈ es, e.isEnding = false ∧ e.isReset = false) : Settles s es t where
  clock := clock
  owed log d := by
    have hnone : ∀ time, (time, .goalEvaluated .success) ∉ es.map (s.agenda.now, ·) := by
      intro time hmem
      cases (going _ (mem_stamp.mp hmem).2).1
    simp only [Owes, awaited, last, pacing, List.mem_append, hnone, false_or]
  silent h := by cases (going _ h).1
  keeps e he := (going e he).2

end Settles

theorem Settles.of_running (h : CarriesOn s es t) (running : s.status = .running)
    (still : t.status = .running) {agenda : Agenda Continuation}
    (clock : t.agenda.now = agenda.now) : Settles { s with agenda } es t := by
  have hlast : t.onLastLevel = s.onLastLevel := CarriesOn.onLastLevel h
  have hpacing : t.pacing = s.pacing := CarriesOn.pacing h
  have hquiet : ∀ e ∈ es, e.isEnding = false ∧ e.isReset = false :=
    fun e he => ⟨CarriesOn.going h running still e he, CarriesOn.keeps h e he⟩
  refine .of_quiet clock ?_ hlast hpacing hquiet
  rw [awaited?_of_running still, awaited?_of_running (s := { s with agenda }) running]

theorem settles_conclude (running : s.status = .running) (done : s.run.isOver = true)
    (clear : s.agenda.pending = []) : Settles s s.conclude.events s.conclude.session := by
  have hcarries := carriesOn_conclude running done clear
  constructor
  · exact s.now_conclude
  · intro d log
    have hwon : .goalEvaluated .success ∈ s.conclude.events ↔ s.verdict = .success := by
      rw [conclude_events, closing]
      cases s.verdict <;> simp
    rw [Owes, Owes, awaited?_conclude clear, awaited?_of_running running,
      CarriesOn.onLastLevel hcarries, CarriesOn.pacing hcarries, ← hwon]
    simp only [List.mem_append, mem_stamp, or_and_right, exists_or, and_or_left, and_assoc,
      exists_eq_left, reduceCtorEq, false_or]
  · rw [conclude_events, closing]
    split <;> simp
  · exact CarriesOn.keeps hcarries

theorem settles_executeStep (h : s.Underway) (clear : s.agenda.pending = []) :
    Settles s s.executeStep.events s.executeStep.session := by
  rw [executeStep]
  by_cases hover : s.run.isOver = true
  · rw [if_pos hover]
    exact settles_conclude h.status hover clear
  · have hmore := Bool.eq_false_iff.mpr hover
    have hcarries := carriesOn_applyNext h.status h.unsolved hmore
    have hrunning : s.applyNext.session.status = .running := by rw [status_applyNext, h.status]
    have hclear : s.applyNext.session.agenda.pending = [] := by rw [agenda_applyNext, clear]
    have hclock : s.applyNext.session.agenda.now = s.agenda.now := by rw [agenda_applyNext]
    have hfirst : Settles s s.applyNext.events s.applyNext.session :=
      .of_running hcarries h.status hrunning hclock
    rw [if_neg hover]
    refine hfirst.trans ?_
    dsimp only [Effect.andThen]
    split
    · next hcollided =>
      have hover : s.applyNext.session.run.isOver = true := by simp [Run.isOver, hcollided]
      exact settles_conclude hrunning hover hclear
    · exact .refl _

theorem Coherent.settles_stepNow (h : s.Coherent) (running : s.status = .running) :
    Settles s s.stepNow.events s.stepNow.session := by
  have hcancel : Settles s [] { s with agenda := s.agenda.cancelAll } :=
    .of_quiet rfl (by simp [awaited?, running]) rfl rfl (List.forall_mem_nil _)
  exact hcancel.trans (settles_executeStep (h.underway running _) rfl)

theorem Coherent.settles_stepOn (h : s.Coherent) (running : s.status = .running)
    (stepped : s.run.mode = some .stepped) : Settles s s.stepOn.events s.stepOn.session := by
  by_cases hclear : s.agenda.pending = []
  · rw [stepOn_of_clear hclear]
    exact settles_executeStep (h.underway running s.agenda) hclear
  · rw [stepOn_of_waiting hclear]
    simp only [Effect.andThen]
    refine (h.settles_stepNow running).trans ?_
    split
    · next hrun =>
      have hcoherent := h.turn (.step running stepped)
      exact settles_executeStep (hcoherent.underway hrun _) (pending_stepNow hrun)
    · exact .refl _

/-- Every timer but the announcement leaves what is owed as it is. -/
theorem Coherent.settles_fire (h : s.Coherent) {w : Timer Continuation}
    {agenda : Agenda Continuation} (due : s.agenda.popDue time = some (w, agenda))
    (running : s.status = .running) :
    Settles { s with agenda } (s.fireTimer w agenda).events (s.fireTimer w agenda).session := by
  obtain ⟨hawaits, _, hclear⟩ := h.awaits due
  have hcarries := h.carriesOn_fire due
  have hunder := h.underway running agenda
  rw [fireTimer] at hcarries ⊢
  generalize w.payload = c at hawaits hcarries
  cases hawaits with
  | applyNext _ _ more =>
    have hrunning : (applyNext { s with agenda }).session.scheduleNext.status = .running := by
      have hstatus := (status_applyNext { s with agenda }).trans running
      rw [scheduleNext]
      split <;> exact hstatus
    exact .of_running hcarries running hrunning (now_fire ..)
  | evaluate _ done => exact settles_conclude (s := { s with agenda }) running done hclear
  | step => exact settles_executeStep hunder hclear
  | curriculumCompleted completed =>
    rw [running] at completed
    cases completed

theorem mem_of_awaited? (h : s.awaited? = some d) : ∃ w ∈ s.agenda.pending, w.due = d := by
  rw [awaited?] at h
  split at h
  · obtain ⟨w, hw, rfl⟩ := Option.map_eq_some_iff.mp h
    exact ⟨w, List.mem_of_mem_head? hw, rfl⟩
  · cases h

theorem owes_nil : s.Owes [] d ↔ s.awaited? = some d := by
  simp [Owes]

theorem Coherent.owes_fire (h : s.Coherent) {w : Timer Continuation}
    {agenda : Agenda Continuation} (due : s.agenda.popDue time = some (w, agenda))
    (running : s.status = .running) :
    s.Owes (Firing.stamped ⟨agenda.now, w, (s.fireTimer w agenda).events⟩ ++ log) d ↔
      (s.fireTimer w agenda).session.Owes log d := by
  rw [← (h.settles_fire due running).owed, Owes, Owes, awaited?_of_running running,
    awaited?_of_running (s := { s with agenda }) running]
  rfl

theorem Awaits.of_rest {c : Continuation} (h : s.Awaits c) (rest : s.status ≠ .running) :
    c = .curriculumCompleted ∧ s.status = .completed := by
  cases h with
  | curriculumCompleted completed => exact ⟨rfl, completed⟩
  | applyNext running => exact absurd running rest
  | evaluate running => exact absurd running rest
  | step running => exact absurd running rest

theorem Coherent.firings_of_rest (h : s.Coherent) {w : Timer Continuation}
    {agenda : Agenda Continuation} (due : s.agenda.popDue time = some (w, agenda))
    (rest : s.status ≠ .running) :
    s.awaited? = some w.due ∧ s.firings time = [⟨agenda.now, w, [.curriculumCompleted]⟩] ∧
      (s.runTo time).session.awaited? = none ∧ (s.runTo time).events = [.curriculumCompleted] := by
  obtain ⟨hawaits, hpending, hclear⟩ := h.awaits due
  obtain ⟨hpayload, hcompleted⟩ := hawaits.of_rest rest
  have hfired : (s.fireTimer w agenda).events = [.curriculumCompleted] ∧
      (s.fireTimer w agenda).session = { s with agenda } := by
    simp only [fireTimer, hpayload, Session.fire, and_self]
  have hnone : (s.fireTimer w agenda).session.agenda.popDue time = none := by
    rw [hfired.2]
    exact Agenda.popDue_of_nil hclear time
  refine ⟨?_, ?_, ?_, ?_⟩
  · rw [awaited?, if_pos hcompleted, hpending]
    rfl
  · rw [firings_of_some due, firings_of_none hnone, hfired.1]
  · rw [runTo_of_some due]
    simp only [Effect.andThen, runTo_of_none hnone]
    rw [hfired.2]
    exact awaited?_of_nil hclear
  · rw [runTo_of_some due]
    simp only [Effect.andThen, runTo_of_none hnone, hfired.1, List.append_nil]

/-- What is paid and what is still owed when time has passed. -/
theorem Coherent.owes_runTo (h : s.Coherent) (time : Duration) :
    (∀ d, (s.runTo time).session.awaited? = some d ↔
        s.Owes ((s.firings time).flatMap Firing.stamped) d ∧ time < d) ∧
      (.curriculumCompleted ∈ (s.runTo time).events ↔
        ∃ d, s.Owes ((s.firings time).flatMap Firing.stamped) d ∧ d ≤ time) := by
  -- A run in progress hands on what is owed from one timer to the next. On a judged one only the
  -- payment fires, and nothing after it.
  fun_induction firings time s with
  | case1 s hnone =>
    have hlater : ∀ d, s.awaited? = some d → time < d := by
      intro d hd
      obtain ⟨w, hw, rfl⟩ := mem_of_awaited? hd
      exact Agenda.popDue_eq_none.mp hnone w hw
    rw [runTo_of_none hnone]
    simp only [List.flatMap_nil, owes_nil]
    constructor
    · intro d
      exact ⟨fun hd => ⟨hd, hlater d hd⟩, And.left⟩
    · refine iff_of_false List.not_mem_nil ?_
      rintro ⟨d, hd, hdue⟩
      exact Duration.not_le.mpr (hlater d hd) hdue
  | case2 s w agenda hdue e ih =>
    by_cases running : s.status = .running
    · obtain ⟨hstill, hpaid⟩ := ih (h.fire hdue)
      have hsilent := (h.settles_fire hdue running).silent
      rw [runTo_of_some hdue]
      simp only [List.flatMap_cons, e, h.owes_fire hdue running]
      refine ⟨hstill, ?_⟩
      rw [← hpaid]
      exact List.mem_append.trans (or_iff_right hsilent)
    · obtain ⟨hawaited, hfirings, hnone, htold⟩ := h.firings_of_rest hdue running
      obtain ⟨_, _, hreached⟩ := h.now_of_popDue hdue
      have howes : ∀ d, s.Owes ((s.firings time).flatMap Firing.stamped) d ↔ w.due = d := by
        intro d
        simp [Owes, hfirings, Firing.stamped, hawaited]
      rw [firings_of_some hdue] at howes
      simp only [e, howes, hnone, htold]
      constructor
      · rintro d
        refine iff_of_false (by simp) ?_
        rintro ⟨rfl, hlate⟩
        exact Duration.not_le.mpr hlate hreached
      · exact iff_of_true (List.mem_singleton.mpr rfl) ⟨w.due, rfl, hreached⟩

/-- What puts a level back to its start cancels the announcement. -/
structure Restarts (e : Effect) : Prop where
  awaited : e.session.awaited? = none
  told : ∃ x ∈ e.events, x.isReset = true
  going : ∀ x ∈ e.events, x.isEnding = false

theorem restarts_reset (s : Session) : Restarts s.reset where
  awaited := awaited?_of_nil rfl
  told := ⟨_, List.mem_singleton.mpr rfl, rfl⟩
  going := List.forall_mem_singleton.mpr rfl

theorem settles_or_restarts_begin (s : Session) (source : Source) (mode : RunMode) :
    let e := s.begin source mode (s.pacing.firstDelay mode) mode.firstTimer
    Settles s e.events e.session ∨ Restarts e := by
  intro e
  by_cases hq : source.queue = []
  · have hrefused : e.events = [.programEmpty] ∧ e.session = s.refuseEmpty.session := by
      simp only [e, begin, hq]
      exact ⟨rfl, rfl⟩
    rw [hrefused.1, hrefused.2]
    exact Or.inl (.of_quiet rfl rfl rfl rfl (List.forall_mem_singleton.mpr ⟨rfl, rfl⟩))
  · obtain ⟨hsession, hevents⟩ := s.begin_eq hq mode
    right
    constructor
    · rw [hsession]
      exact awaited?_of_running rfl
    · rw [hevents]
      exact ⟨_, List.mem_cons_self .., rfl⟩
    · rw [hevents]
      exact List.forall_mem_cons.mpr ⟨rfl, List.forall_mem_singleton.mpr rfl⟩

theorem settles_ignore (s : Session) : Settles s [.runIgnored] s :=
  .of_quiet rfl rfl rfl rfl (List.forall_mem_singleton.mpr ⟨rfl, rfl⟩)

theorem Coherent.settles_or_restarts (h : s.Coherent) {r : Request}
    (still : ∀ dt, r ≠ .advance dt) :
    Settles s (s.handle r).effect.events (s.handle r).effect.session ∨
      Restarts (s.handle r).effect := by
  cases r with
  | runAll source =>
    rw [handle, runAll]
    split
    · exact Or.inl s.settles_ignore
    · exact s.settles_or_restarts_begin source .paced
  | step source =>
    rw [handle, step]
    split
    · next running =>
      left
      split
      · next stepped => exact h.settles_stepOn running stepped
      · exact s.settles_ignore
    · exact s.settles_or_restarts_begin source .stepped
  | advance dt => exact absurd rfl (still dt)
  | reset => exact Or.inr s.restarts_reset
  | setTutorial enabled => exact Or.inr (restarts_reset _)
  | select index =>
    rw [handle, select]
    by_cases hi : index < s.curriculum.size
    · rw [if_pos hi]
      exact Or.inr (restarts_reset _)
    · rw [if_neg hi]
      exact Or.inl (.refl s)
  | nextLevel =>
    rw [handle, nextLevel]
    split
    · exact Or.inl (.refl s)
    · exact Or.inr (restarts_reset _)
  | previousLevel =>
    rw [handle, previousLevel]
    split
    · exact Or.inl (.refl s)
    · exact Or.inr (restarts_reset _)

end Session

end RocketPuzzle
