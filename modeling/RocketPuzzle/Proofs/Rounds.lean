import RocketPuzzle.Proofs.Delivery
import RocketPuzzle.Proofs.Milestones
import RocketPuzzle.Proofs.Modes

/-! # Rounds of a play

A play asks its session for one thing after another. Each round fires a timer, applies a command or
judges the run, so the rounds come to an end however long the delays are. All of them together are a
chain of turns that leaves the run judged and nothing to wait for.
-/
namespace RocketPuzzle

/-- The mode of a run whose commands are asked for one by one, or are not. -/
def RunMode.of (stepping : Bool) : RunMode := if stepping then .stepped else .paced

namespace Session

/-- What is left to do on a session that is asked until it rests. -/
def toil (s : Session) : Nat :=
  s.workload + if s.status = .running then s.run.remaining + 2 else 0

theorem remaining_applyNext_le (s : Session) :
    s.applyNext.session.run.remaining ≤ s.run.remaining := by
  unfold applyNext
  split
  · exact Nat.le_refl _
  · simp only [Run.remaining]
    omega

/-- A step uses up a command or ends the run. -/
theorem toil_executeStep_lt {s : Session} (running : s.status = .running) :
    s.executeStep.session.toil < s.toil := by
  unfold toil
  rw [if_pos running]
  by_cases hstatus : s.executeStep.session.status = .running
  · obtain ⟨hmore, hsame⟩ := executeStep_of_running hstatus
    rw [if_pos hstatus, hsame]
    have hremaining := s.remaining_applyNext_le
    rcases s.workload_applyNext with hless | ⟨_, hdone⟩
    · omega
    · simp [Run.isOver, hdone] at hmore
  · rw [if_neg hstatus]
    have hwork := s.workload_executeStep_le
    omega

/-- No timer makes a run out of a session that rests, nor gives back a command. -/
theorem fire_of_running {s : Session} {c : Continuation}
    (h : (s.fire c).session.status = .running) :
    s.status = .running ∧ (s.fire c).session.run.remaining ≤ s.run.remaining := by
  cases c with
  | applyNext =>
    have hnext : s.applyNext.session.scheduleNext.status = s.applyNext.session.status ∧
        s.applyNext.session.scheduleNext.run = s.applyNext.session.run := by
      unfold scheduleNext
      split <;> exact ⟨rfl, rfl⟩
    change s.applyNext.session.scheduleNext.status = .running at h
    rw [hnext.1, status_applyNext] at h
    refine ⟨h, ?_⟩
    change s.applyNext.session.scheduleNext.run.remaining ≤ _
    rw [hnext.2]
    exact s.remaining_applyNext_le
  | step =>
    obtain ⟨_, hsame⟩ := executeStep_of_running h
    change s.executeStep.session.status = .running at h
    change _ ∧ s.executeStep.session.run.remaining ≤ _
    rw [hsame] at h ⊢
    exact ⟨s.status_applyNext.symm.trans h, s.remaining_applyNext_le⟩
  | evaluate => exact absurd h s.status_conclude_ne
  | curriculumCompleted => exact ⟨h, Nat.le_refl _⟩

theorem toil_popDue_fire_lt {s : Session} {time : Duration} {t : Timer Continuation}
    {agenda : Agenda Continuation} (h : s.agenda.popDue time = some (t, agenda)) :
    (Session.fire { s with agenda } t.payload).session.toil < s.toil := by
  have hwork := workload_popDue_fire_lt h
  unfold toil
  by_cases hstatus : (Session.fire { s with agenda } t.payload).session.status = .running
  · obtain ⟨hrunning, hremaining⟩ := fire_of_running hstatus
    change s.status = .running at hrunning
    change _ ≤ s.run.remaining at hremaining
    rw [if_pos hstatus, if_pos hrunning]
    omega
  · rw [if_neg hstatus]
    omega

theorem toil_runTo_le (time : Duration) (s : Session) :
    (s.runTo time).session.toil ≤ s.toil := by
  fun_induction runTo time s with
  | case1 s h => exact Nat.le_refl _
  | case2 s t agenda h fired rest ih => exact Nat.le_trans ih (Nat.le_of_lt (toil_popDue_fire_lt h))

theorem toil_runTo_lt {s : Session} {time : Duration} (h : s.agenda.popDue time ≠ none) :
    (s.runTo time).session.toil < s.toil := by
  obtain ⟨⟨t, agenda⟩, hpop⟩ := Option.ne_none_iff_exists'.mp h
  rw [runTo_of_some hpop]
  exact Nat.lt_of_le_of_lt (toil_runTo_le time _) (toil_popDue_fire_lt hpop)

/-- Either first request begins a run, in its own mode. -/
theorem first_eq {s : Session} (idle : s.status ≠ .running) (source : Source) (stepping : Bool) :
    (if stepping then s.step source else s.runAll source) =
      s.begin source (.of stepping) (s.pacing.firstDelay (.of stepping))
        (RunMode.of stepping).firstTimer := by
  cases stepping with
  | true =>
    change s.step source = s.begin source .stepped s.pacing.firstStepDelay .step
    rw [step, if_neg idle]
  | false =>
    change s.runAll source = s.begin source .paced s.pacing.commandInterval .applyNext
    rw [runAll, if_neg idle]

/-- The clock reaches the next timer exactly, and that timer fires. -/
theorem Coherent.popDue_next {s : Session} (h : s.Coherent) {due : Duration}
    (next : s.agenda.nextDue = some due) :
    s.agenda.popDue (s.agenda.now + (due - s.agenda.now)) ≠ none := by
  obtain ⟨⟨t, ht, rfl⟩, _⟩ := Timer.least_of_nextDue next
  have hlater : s.agenda.now.nanos ≤ t.due.nanos := h.not_overdue t ht
  have hreach : t.due ≤ s.agenda.now + (t.due - s.agenda.now) := by
    have hbound := t.due.nanos_lt
    have hgap : (t.due - s.agenda.now).nanos = t.due.nanos - s.agenda.now.nanos := rfl
    rw [Duration.le_def, Duration.nanos_add, hgap]
    omega
  rw [Ne, Agenda.popDue_eq_none]
  exact fun hlate => Duration.not_lt.mpr hreach (hlate t ht)

end Session

namespace CommandLine.Play

/-- The loop of a play, with nothing to stop it but that no request is left: `Ends p r` says that
from `p` it comes to an end, and that `r` is what is left then. -/
inductive Ends : Play → Play → Prop where
  | done {p} (last : p.tell.next? = none) : Ends p p.tell
  | round {p q r} (next : p.tell.next? = some q) (rest : Ends q r) : Ends p r

variable {p q r : Play}

theorem burden_eq (p : Play) : p.burden = p.session.toil := rfl

@[simp] theorem session_tell (p : Play) : p.tell.session = p.session := by
  unfold tell
  split <;> rfl

@[simp] theorem stepping_tell (p : Play) : p.tell.stepping = p.stepping := by
  unfold tell
  split <;> rfl

@[simp] theorem untold_tell (p : Play) : p.tell.untold = [] := by
  unfold tell
  split <;> rfl

theorem awaitsStep_iff : p.awaitsStep = true ↔
    p.stepping = true ∧ p.session.status = .running ∧ p.session.agenda.pending = [] := by
  simp [awaitsStep, Agenda.size, and_assoc]

/-- What a round asks for: a step if a stepped run waits for one, else the time to the next
timer. -/
theorem next?_eq_some (h : p.next? = some q) :
    (p.awaitsStep = true ∧
        q = p.ask (some (.ofMillis p.session.pacing.commandInterval)) (·.step p.source)) ∨
      ∃ due, p.session.agenda.nextDue = some due ∧
        q = p.ask (some (due - p.session.agenda.now))
          (·.advance (due - p.session.agenda.now)) := by
  unfold next? at h
  split at h
  · next hawaits => exact Or.inl ⟨hawaits, (Option.some.inj h).symm⟩
  · obtain ⟨due, hdue, rfl⟩ := Option.map_eq_some_iff.mp h
    exact Or.inr ⟨due, hdue, rfl⟩

theorem next?_eq_none (h : p.next? = none) :
    p.session.agenda.pending = [] ∧ (p.stepping = true → p.session.status ≠ .running) := by
  unfold next? at h
  split at h
  · cases h
  · next hawaits =>
    have hpending := Timer.nextDue_eq_none.mp (Option.map_eq_none_iff.mp h)
    refine ⟨hpending, ?_⟩
    intro hstepping hrunning
    exact hawaits (awaitsStep_iff.mpr ⟨hstepping, hrunning, hpending⟩)

/-- The session of a play holds together, and a run on it is carried on the way the play asks. -/
structure Steady (p : Play) : Prop where
  coherent : p.session.Coherent
  mode : p.session.status = .running → p.session.run.mode = some (.of p.stepping)

/-- What one round does. -/
structure Round (p q : Play) : Prop where
  turns : Chain Turn p.session q.untold q.session
  stepping : q.stepping = p.stepping
  tally : ∀ {e line}, announcement? e = some line →
    q.tally e line = p.tally e line + q.untold.count e
  lighter : q.burden < p.burden

/-- What all rounds do together: `es` has happened, and nothing is left to happen. -/
structure Completes (p r : Play) (es : List Event) : Prop where
  turns : Chain Turn p.session es r.session
  clear : r.session.agenda.pending = []
  rest : r.session.status ≠ .running
  announced : ∀ {e line}, announcement? e = some line →
    r.emitted.count (announce line) = p.tally e line + es.count e

theorem ask_tell (p : Play) (pause : Option Duration) (request : Session → Effect) :
    (p.tell.ask pause request).session = (request p.session).session ∧
      (p.tell.ask pause request).untold = (request p.session).events ∧
      (p.tell.ask pause request).stepping = p.stepping ∧
      ∀ {e line}, announcement? e = some line →
        (p.tell.ask pause request).tally e line =
          p.tally e line + (request p.session).events.count e := by
  refine ⟨by simp [ask], by simp [ask], by simp [ask], ?_⟩
  intro e line hline
  rw [tally_ask, tally_tell hline, session_tell]

theorem Steady.step_eq (h : p.Steady) (awaits : p.awaitsStep = true) (source : Source) :
    p.session.step source = p.session.executeStep ∧
      Chain Turn p.session p.session.executeStep.events p.session.executeStep.session := by
  obtain ⟨hstepping, hrunning, hpending⟩ := awaitsStep_iff.mp awaits
  have hmode : p.session.run.mode = some .stepped := by
    rw [h.mode hrunning, hstepping]
    rfl
  have honce : p.session.stepOn = p.session.executeStep := Session.stepOn_of_clear hpending
  have hturns := Session.stepOn_turns hrunning hmode
  rw [honce] at hturns
  refine ⟨?_, hturns⟩
  rw [Session.step, if_pos hrunning, if_pos hmode, honce]

theorem Steady.round (h : p.Steady) (next : p.tell.next? = some q) : p.Round q := by
  -- A step lowers the burden by what it does, time that passes by the timer that it reaches.
  rcases next?_eq_some next with ⟨hawaits, rfl⟩ | ⟨due, hdue, rfl⟩
  · obtain ⟨hsession, huntold, hstepping, htally⟩ :=
      p.ask_tell (some (.ofMillis p.tell.session.pacing.commandInterval)) (·.step p.tell.source)
    have hawaits : p.awaitsStep = true := by simpa [awaitsStep] using hawaits
    obtain ⟨hstep, hturns⟩ := h.step_eq hawaits p.tell.source
    constructor
    · rw [hsession, huntold, hstep]
      exact hturns
    · exact hstepping
    · rw [huntold]
      exact htally
    · rw [burden_eq, burden_eq, hsession, hstep]
      exact Session.toil_executeStep_lt (awaitsStep_iff.mp hawaits).2.1
  · rw [session_tell] at hdue ⊢
    obtain ⟨hsession, huntold, hstepping, htally⟩ :=
      p.ask_tell (some (due - p.session.agenda.now)) (·.advance (due - p.session.agenda.now))
    constructor
    · rw [hsession, huntold]
      exact p.session.advance_turns _
    · exact hstepping
    · rw [huntold]
      exact htally
    · rw [burden_eq, burden_eq, hsession]
      exact Session.toil_runTo_lt (h.coherent.popDue_next hdue)

theorem Steady.after (h : p.Steady) (k : p.Round q) : q.Steady where
  coherent := h.coherent.turns k.turns
  mode := by
    intro running
    have hbefore : p.session.status = .running := by
      by_contra hrest
      exact h.coherent.turns_rest hrest k.turns running
    rw [k.turns.mode, h.mode hbefore, k.stepping]

/-- The rounds come to an end. -/
theorem Steady.ends (h : p.Steady) : p.Ends p.finish := by
  -- The last case is the round that would lower nothing.
  fun_induction finish p with
  | case1 p hlast => exact .done hlast
  | case2 p q hnext _ ih => exact .round hnext (ih (h.after (h.round hnext)))
  | case3 p q hnext hlight => exact absurd (h.round hnext).lighter hlight

/-- When no request is left, the run has been judged and everything has been told. -/
theorem Steady.completes (h : p.Steady) (last : p.tell.next? = none) : p.Completes p.tell [] := by
  obtain ⟨hclear, hjudged⟩ := next?_eq_none last
  rw [session_tell, stepping_tell] at hjudged
  rw [session_tell] at hclear
  constructor
  · rw [session_tell]
    exact .refl _
  · rw [session_tell]
    exact hclear
  · rw [session_tell]
    intro hrunning
    cases hstepping : p.stepping with
    | true => exact hjudged hstepping hrunning
    | false =>
      have hmode : p.session.run.mode = some .paced := by
        rw [h.mode hrunning, hstepping]
        rfl
      exact Session.status_of_paced h.coherent hmode hclear hrunning
  · intro e line hline
    have htally := tally_tell hline p
    rw [tally, untold_tell] at htally
    exact htally

theorem Round.completes {es : List Event} (h : p.Round q) (k : q.Completes r es) :
    p.Completes r (q.untold ++ es) where
  turns := h.turns.trans k.turns
  clear := k.clear
  rest := k.rest
  announced := by
    intro e line hline
    rw [k.announced hline, h.tally hline, List.count_append, Nat.add_assoc]

theorem Ends.completes (k : p.Ends r) (h : p.Steady) : ∃ es, p.Completes r es := by
  induction k with
  | done last => exact ⟨[], h.completes last⟩
  | round next _ ih =>
    have hround := h.round next
    obtain ⟨es, hes⟩ := ih (h.after hround)
    exact ⟨_, hround.completes hes⟩

/-- A play after its first request. -/
def begun (s : Session) (source : Source) (stepping realtime : Bool) : Play :=
  (opened s source stepping realtime).begin

variable {s : Session} {source : Source} {stepping realtime : Bool}

theorem begun_eq (idle : s.status ≠ .running) (source : Source) (stepping realtime : Bool) :
    let e := s.begin source (.of stepping) (s.pacing.firstDelay (.of stepping))
      (RunMode.of stepping).firstTimer
    (begun s source stepping realtime).session = e.session ∧
      (begun s source stepping realtime).stepping = stepping ∧
      ∀ {f line}, announcement? f = some line →
        (begun s source stepping realtime).tally f line = e.events.count f := by
  dsimp only
  rw [← Session.first_eq idle]
  refine ⟨rfl, rfl, ?_⟩
  intro f line hline
  rw [begun, begin, tally_ask, tally_opened hline, Nat.zero_add]
  rfl

/-- A play of something to run is the run in one pass, whoever asks for the commands, whatever the
delays are. -/
theorem begun_plays (idle : s.status ≠ .running) (nonempty : source.queue ≠ []) :
    let p := begun s source stepping realtime
    let e := s.playThrough (.of stepping) source.queue
    p.Ends p.finish ∧ p.finish.session.still = e.session ∧
      ∀ {f line}, announcement? f = some line →
        p.finish.emitted.count (announce line) = e.events.count f := by
  intro p e
  obtain ⟨hsession, hstepping, htally⟩ := begun_eq idle source stepping realtime
  obtain ⟨hlaunched, hevents⟩ := s.begin_eq nonempty (.of stepping)
  rw [hlaunched] at hsession
  have hsteady : p.Steady := by
    constructor
    · rw [hsession]
      exact s.launched_coherent _ nonempty
    · rw [hsession, hstepping]
      exact fun _ => rfl
  obtain ⟨es, hes⟩ := hsteady.ends.completes hsteady
  have hturns := hes.turns
  rw [hsession] at hturns
  obtain ⟨hplayed, htold⟩ := Session.playThrough_of_turns nonempty hturns hes.rest hes.clear
  refine ⟨hsteady.ends, hplayed.symm, ?_⟩
  intro f line hline
  rw [hes.announced hline, htally hline, hevents, htold, ← List.count_append]
  rfl

theorem next?_of_rest (clear : p.session.agenda.pending = []) (rest : p.session.status ≠ .running) :
    p.next? = none := by
  simp [next?, awaitsStep, Agenda.nextDue, Timer.nextDue, clear, rest]

/-- A play of nothing is over at once. -/
theorem begun_refused (h : s.Coherent) (idle : s.status = .idle) (nothing : source.queue = []) :
    let p := begun s source stepping realtime
    p.Ends p.finish ∧ p.finish.session.status = .idle ∧
      ∀ {f line}, announcement? f = some line →
        p.finish.emitted.count (announce line) = 0 := by
  intro p
  have hrest : s.status ≠ .running := by simp [idle]
  obtain ⟨hsession, _, htally⟩ := begun_eq hrest source stepping realtime
  simp only [Session.begin, nothing, List.isEmpty_nil, if_true, Effect.andThen] at hsession htally
  have hstatus : p.session.status = .idle := by
    rw [hsession]
    exact idle
  have hclear : p.session.agenda.pending = [] := by
    rw [hsession]
    exact h.quiet (Or.inl idle)
  have hlast : p.tell.next? = none := by
    apply next?_of_rest
    · rw [session_tell, hclear]
    · rw [session_tell, hstatus]
      decide
  have hfinish : p.finish = p.tell := by rw [finish, hlast]
  rw [hfinish, session_tell]
  refine ⟨.done hlast, hstatus, ?_⟩
  intro f line hline
  have hquiet : Event.programEmpty ≠ f := by
    rintro rfl
    cases hline
  have htold := (tally_tell hline p).trans (htally hline)
  rw [tally, untold_tell] at htold
  simpa [Session.refuseEmpty, hquiet] using htold

end CommandLine.Play

end RocketPuzzle
