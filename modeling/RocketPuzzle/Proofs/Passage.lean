import RocketPuzzle.Proofs.Coherence

/-! # The passing of time

Letting time pass is a loop: as long as a timer is due, it is taken off and fires. With delays of
zero, or with the clock at the end of all time, the timers that it sets are due at once, so the clock
says nothing about when the loop ends. What ends it is the run, which has its commands, one judgement
and one announcement to give and no more.
-/
namespace RocketPuzzle

/-- A timer that has fired, with the clock at that moment and what was told. -/
structure Firing where
  clock : Duration
  timer : Timer Continuation
  events : List Event
  deriving DecidableEq, Repr

namespace Session

/-- The loop, with nothing to stop it but that no timer is due: from `s` it fires `fs`, ends, and
leaves `t`. -/
inductive Passes (time : Duration) : Session → List Firing → Session → Prop where
  | rest {s} (none : s.agenda.popDue time = none) :
      Passes time s [] { s with agenda := s.agenda.settle time }
  | fire {s u agenda fs t} (due : s.agenda.popDue time = some (u, agenda))
      (later : Passes time (s.fireTimer u agenda).session fs t) :
      Passes time s (⟨agenda.now, u, (s.fireTimer u agenda).events⟩ :: fs) t

/-- The timers that fire until `time`. -/
def firings (time : Duration) (s : Session) : List Firing :=
  match _h : s.agenda.popDue time with
  | none => []
  | some (u, agenda) =>
    let e := s.fireTimer u agenda
    ⟨agenda.now, u, e.events⟩ :: firings time e.session
termination_by s.workload
decreasing_by exact workload_popDue_fire_lt _h

variable {s t : Session} {time : Duration} {u : Timer Continuation}
  {agenda : Agenda Continuation} {fs : List Firing}

theorem firings_of_none (h : s.agenda.popDue time = none) : s.firings time = [] := by
  rw [firings]
  split
  · rfl
  · next k =>
    rw [h] at k
    cases k

theorem firings_of_some (h : s.agenda.popDue time = some (u, agenda)) :
    s.firings time =
      ⟨agenda.now, u, (s.fireTimer u agenda).events⟩ ::
        (s.fireTimer u agenda).session.firings time := by
  rw [firings]
  split
  · next k =>
    rw [h] at k
    cases k
  · next k =>
    rw [h] at k
    cases k
    rfl

theorem passes_runTo (time : Duration) (s : Session) :
    Passes time s (s.firings time) (s.runTo time).session := by
  fun_induction firings time s with
  | case1 s h =>
    rw [runTo_of_none h]
    exact .rest h
  | case2 s u agenda h e ih =>
    rw [runTo_of_some h]
    exact .fire h ih

theorem Passes.unique (h : Passes time s fs t) :
    fs = s.firings time ∧ t = (s.runTo time).session := by
  induction h with
  | rest none =>
    rw [firings_of_none none, runTo_of_none none]
    exact ⟨rfl, rfl⟩
  | fire due _ ih =>
    obtain ⟨rfl, rfl⟩ := ih
    rw [firings_of_some due, runTo_of_some due]
    exact ⟨rfl, rfl⟩

theorem events_firings (time : Duration) (s : Session) :
    (s.firings time).flatMap Firing.events = (s.runTo time).events := by
  fun_induction firings time s with
  | case1 s h =>
    rw [runTo_of_none h]
    rfl
  | case2 s u agenda h e ih =>
    rw [runTo_of_some h, List.flatMap_cons, ih]
    rfl

/-- How many firings a timer stands for, besides the commands that are still to come. -/
def stages : Continuation → Nat
  | .applyNext | .evaluate | .step => 2
  | .curriculumCompleted => 1

/-- How many timers can still fire, if nothing is asked for but time. -/
def prospect (s : Session) : Nat :=
  match s.agenda.pending with
  | [] => 0
  | u :: _ => s.run.remaining + stages u.payload

theorem prospect_of_nil (h : s.agenda.pending = []) : s.prospect = 0 := by
  rw [prospect, h]

theorem prospect_of_singleton (h : s.agenda.pending = [u]) :
    s.prospect = s.run.remaining + stages u.payload := by
  rw [prospect, h]

theorem prospect_le (s : Session) : s.prospect ≤ s.run.remaining + 2 := by
  rw [prospect]
  split
  · exact Nat.zero_le _
  · next u _ _ => cases u.payload <;> simp [stages]

theorem remaining_applyNext_lt (more : s.run.isOver = false) :
    s.applyNext.session.run.remaining < s.run.remaining := by
  obtain ⟨_, hlt⟩ := Run.isOver_eq_false.mp more
  rw [(applyNext_eq (List.getElem?_eq_getElem hlt)).1]
  simp only [Run.remaining]
  omega

theorem prospect_conclude_le (clear : s.agenda.pending = []) :
    s.conclude.session.prospect ≤ s.run.remaining + 1 := by
  rw [conclude_session]
  split
  · rw [prospect_of_singleton (pending_schedule (s := s.closed s.verdict) clear ..)]
    exact Nat.le_refl _
  · rw [prospect_of_nil (s := s.closed s.verdict) clear]
    exact Nat.zero_le _

theorem prospect_executeStep_le (clear : s.agenda.pending = []) :
    s.executeStep.session.prospect ≤ s.run.remaining + 1 := by
  rw [executeStep]
  by_cases hover : s.run.isOver = true
  · rw [if_pos hover]
    exact prospect_conclude_le clear
  · rw [if_neg hover]
    have hless := remaining_applyNext_lt (Bool.eq_false_iff.mpr hover)
    have hclear : s.applyNext.session.agenda.pending = [] := by rw [agenda_applyNext, clear]
    simp only [Effect.andThen]
    split
    · have hjudged := prospect_conclude_le hclear
      omega
    · rw [prospect_of_nil hclear]
      exact Nat.zero_le _

theorem Coherent.now_of_popDue (h : s.Coherent) (due : s.agenda.popDue time = some (u, agenda)) :
    agenda.now = u.due ∧ s.agenda.now ≤ u.due ∧ u.due ≤ time := by
  obtain ⟨others, htake, rfl⟩ := Agenda.popDue_eq_some.mp due
  have hlater := h.not_overdue u (Timer.mem_of_takeDue htake)
  exact ⟨Duration.max_eq_right hlater, hlater, Timer.due_of_takeDue htake⟩

theorem Coherent.prospect_fire_lt (h : s.Coherent) (due : s.agenda.popDue time = some (u, agenda)) :
    (s.fireTimer u agenda).session.prospect < s.prospect := by
  -- The commands come first, then the judgement, then the announcement; no stage comes twice.
  obtain ⟨hawaits, hpending, hclear⟩ := h.awaits due
  rw [prospect_of_singleton hpending, fireTimer]
  generalize u.payload = c at hawaits
  cases hawaits with
  | applyNext running paced more =>
    have hless := remaining_applyNext_lt (s := { s with agenda }) more
    have hclear : (applyNext { s with agenda }).session.agenda.pending = [] := by
      rw [agenda_applyNext, hclear]
    change (applyNext { s with agenda }).session.scheduleNext.prospect < s.run.remaining + 2
    change _ < s.run.remaining at hless
    rw [scheduleNext]
    split
    · rw [prospect_of_singleton (pending_schedule hclear ..)]
      exact Nat.add_lt_add_right hless 2
    · rw [prospect_of_singleton (pending_schedule hclear ..)]
      exact Nat.add_lt_add_right hless 2
  | evaluate => exact Nat.lt_succ_of_le (prospect_conclude_le (s := { s with agenda }) hclear)
  | step => exact Nat.lt_succ_of_le (prospect_executeStep_le (s := { s with agenda }) hclear)
  | curriculumCompleted =>
    change prospect { s with agenda } < s.run.remaining + 1
    rw [prospect_of_nil hclear]
    exact Nat.succ_pos _

theorem Coherent.passes_length_le (h : s.Coherent) (k : Passes time s fs t) :
    fs.length ≤ s.prospect := by
  induction k with
  | rest => exact Nat.zero_le _
  | fire due _ ih =>
    have hless := h.prospect_fire_lt due
    have hrest := ih (h.fire due)
    rw [List.length_cons]
    omega

/-- Letting time pass comes to an end, and everything that was due has fired. -/
structure Elapses (s : Session) (dt : Duration) : Prop where
  ends : ∃ fs, Passes (s.agenda.now + dt) s fs (s.advance dt).session ∧
    fs.flatMap Firing.events = (s.advance dt).events
  /-- However the loop runs, it fires no more than this many timers. -/
  few : ∀ fs t, Passes (s.agenda.now + dt) s fs t →
    t = (s.advance dt).session ∧ fs.length ≤ s.run.queue.length - s.run.cursor + 2
  clock : (s.advance dt).session.agenda.now = s.agenda.now + dt
  punctual : ∀ u ∈ (s.advance dt).session.agenda.pending, s.agenda.now + dt < u.due

theorem time_elapses (c : Curriculum) (p : Pacing) (rs : List Request) (dt : Duration) :
    ((Session.new c p).handleAll rs).session.Elapses dt := by
  have hcoherent := requests_coherent c p rs
  generalize ((Session.new c p).handleAll rs).session = s at hcoherent
  constructor
  · exact ⟨s.firings (s.agenda.now + dt), passes_runTo .., events_firings ..⟩
  · intro fs t hpasses
    have hfew := hcoherent.passes_length_le hpasses
    have hbound := s.prospect_le
    rw [Run.remaining] at hbound
    exact ⟨hpasses.unique.2, by omega⟩
  · exact s.now_advance dt
  · exact Agenda.popDue_eq_none.mp (popDue_runTo _ s)

end Session

end RocketPuzzle
