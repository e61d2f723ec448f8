import RocketPuzzle.Proofs.Coherence

/-! # The course of a run in one pass

A run followed without a clock: the commands in order up to the first collision, then the
judgement, then the announcements. `Session.outlook` is what a session in any state still has to
tell and where it ends. Each move that carries a run on tells the next part of the outlook and
leaves the rest, so the whole run is fixed when it begins.
-/
namespace RocketPuzzle

/-- A stretch of a run: where it ends, the number of commands done, and what is told on it. -/
structure Course where
  rocket : Rocket
  applied : Nat
  collided : Bool
  events : List Event
  deriving DecidableEq, Repr

def Course.verdict (k : Course) (l : Level) : Verdict :=
  l.judge
    { position := k.rocket.position
      fuelCollected := k.rocket.fuelCollected
      terminal := true
      collided := k.collided }

/-- The commands in order up to the first collision; the first of them has the number `index`. -/
def Rocket.follow (l : Level) (r : Rocket) (index : Nat) : List Command → Course
  | [] => ⟨r, index, false, []⟩
  | c :: rest =>
    let a := r.apply l c
    let told := a.events ++ [.commandApplied index c a.outcome]
    if a.outcome = .blocked then ⟨a.rocket, index + 1, true, told⟩
    else
      let k := a.rocket.follow l (index + 1) rest
      { k with events := told ++ k.events }

namespace Session

/-- The session without its clock and its timers. -/
def still (s : Session) : Session := { s with agenda := {} }

/-- The end of a run that takes the course `k`, down to the last announcement. -/
def finish (s : Session) (k : Course) : Effect :=
  let last : Session :=
    { s with
      rocket := k.rocket
      run := { s.run with cursor := k.applied, collided := k.collided } }
  let v := k.verdict s.level
  { session := (last.closed v).still
    events := k.events ++ s.closing v ++
      if v = .success ∧ s.onLastLevel = true then [.curriculumCompleted] else [] }

/-- A whole run from the start of the level, in one pass. -/
def playThrough (s : Session) (mode : RunMode) (queue : List Command) : Effect :=
  let begun : Session := { s with run := { queue, mode := some mode } }
  let e := begun.finish ((Rocket.atStart s.level).follow s.level 0 queue)
  { e with events := .levelReset s.level.id :: .runStarted mode queue.length :: e.events }

/-- The part of the run that is still to come. -/
def ahead (s : Session) : Course :=
  if s.run.collided = true then ⟨s.rocket, s.run.cursor, true, []⟩
  else s.rocket.follow s.level s.run.cursor (s.run.queue.drop s.run.cursor)

def outlook (s : Session) : Effect :=
  if s.status = .running then s.finish s.ahead
  else { session := s.still, events := s.agenda.pending.map fun _ => .curriculumCompleted }

/-- From `s` to `t` the first part of the outlook is told, and nothing else. -/
def Leads (s : Session) (es : List Event) (t : Session) : Prop :=
  s.outlook.session = t.outlook.session ∧ s.outlook.events = es ++ t.outlook.events

end Session

variable {s t u : Session} {es fs : List Event}

theorem Rocket.follow_running (l : Level) (r : Rocket) (b : Bool) (index : Nat)
    (cs : List Command) :
    Rocket.follow l { r with running := b } index cs =
      let k := r.follow l index cs
      { k with rocket := { k.rocket with running := b } } := by
  induction cs generalizing r index with
  | nil => rfl
  | cons c rest ih =>
    simp only [follow, apply_running, ih]
    split <;> rfl

/-- The event tells of a command, or of what came of it. -/
def Event.ofCommand : Event → Bool
  | characterMoved .. | moveBlocked .. | characterTurned .. | fuelCollected _
  | nothingToCollect _ | commandApplied .. => true
  | _ => false

theorem Rocket.ofCommand_apply (l : Level) (r : Rocket) (c : Command) :
    ∀ e ∈ (r.apply l c).events, e.ofCommand = true := by
  have h := r.acts l c
  generalize r.apply l c = a at h ⊢
  cases h with
  | ignored => exact List.forall_mem_nil _
  | _ => exact List.forall_mem_singleton.mpr rfl

theorem Rocket.ofCommand_follow (l : Level) (r : Rocket) (index : Nat) (cs : List Command) :
    ∀ e ∈ (r.follow l index cs).events, e.ofCommand = true := by
  induction cs generalizing r index with
  | nil => exact List.forall_mem_nil _
  | cons c rest ih =>
    have htold : ∀ e ∈ (r.apply l c).events ++
        [.commandApplied index c (r.apply l c).outcome], e.ofCommand = true :=
      List.forall_mem_append.mpr
        ⟨r.ofCommand_apply l c, List.forall_mem_singleton.mpr rfl⟩
    simp only [follow]
    split
    · exact htold
    · exact List.forall_mem_append.mpr ⟨htold, ih _ _⟩

namespace Session

theorem Leads.trans (h : s.Leads es t) (k : t.Leads fs u) : s.Leads (es ++ fs) u :=
  ⟨h.1.trans k.1, by rw [h.2, k.2, List.append_assoc]⟩

/-- The timers of a run in progress do not show in its outlook. -/
theorem outlook_agenda (running : s.status = .running) (agenda : Agenda Continuation) :
    outlook { s with agenda } = s.outlook := by
  simp only [outlook, running]
  rfl

theorem Leads.of_agenda (running : s.status = .running) {agenda : Agenda Continuation}
    (h : Leads { s with agenda } es t) : s.Leads es t := by
  unfold Leads at h ⊢
  rwa [outlook_agenda running agenda] at h

theorem outlook_of_pending (rest : s.status ≠ .running) (clear : s.agenda.pending = []) :
    s.outlook = { session := s.still } := by
  simp [outlook, rest, clear]

theorem ahead_of_over (done : s.run.isOver = true) :
    s.ahead = ⟨s.rocket, s.run.cursor, s.run.collided, []⟩ := by
  unfold ahead
  cases hc : s.run.collided with
  | true => rfl
  | false =>
    have hend : s.run.queue.length ≤ s.run.cursor := by
      simpa [Run.isOver, Run.exhausted, hc] using done
    rw [List.drop_eq_nil_of_le hend]
    rfl

/-- A command that is applied is the first of those ahead. -/
theorem ahead_applyNext (more : s.run.isOver = false) :
    s.ahead =
      { s.applyNext.session.ahead with
        events := s.applyNext.events ++ s.applyNext.session.ahead.events } := by
  obtain ⟨hfree, hlt⟩ := Run.isOver_eq_false.mp more
  obtain ⟨hsession, hevents⟩ := applyNext_eq (List.getElem?_eq_getElem hlt)
  have hahead : s.ahead =
      s.rocket.follow s.level s.run.cursor
        (s.run.queue[s.run.cursor] :: s.run.queue.drop (s.run.cursor + 1)) := by
    rw [← List.drop_eq_getElem_cons hlt]
    simp [ahead, hfree]
  rw [hahead, hsession, hevents]
  simp only [Rocket.follow, ahead, hfree, Bool.false_or]
  split
  · next hblocked => simp [hblocked]
  · next hblocked =>
    simp only [hblocked, decide_false, Bool.false_eq_true, if_false]

theorem leads_applyNext (running : s.status = .running) (more : s.run.isOver = false) :
    s.Leads s.applyNext.events s.applyNext.session := by
  obtain ⟨_, hlt⟩ := Run.isOver_eq_false.mp more
  obtain ⟨hsession, _⟩ := applyNext_eq (List.getElem?_eq_getElem hlt)
  have hstatus : s.applyNext.session.status = .running := by rw [status_applyNext, running]
  have hfinish : ∀ k, s.applyNext.session.finish k = s.finish k := by
    intro k
    rw [hsession]
    rfl
  unfold Leads outlook
  rw [if_pos running, if_pos hstatus, hfinish, ahead_applyNext more]
  constructor
  · rfl
  · simp only [finish, List.append_assoc]
    rfl

theorem leads_conclude (running : s.status = .running) (done : s.run.isOver = true)
    (clear : s.agenda.pending = []) : s.Leads s.conclude.events s.conclude.session := by
  have hnext : s.conclude.session.outlook =
      { session := (s.closed s.verdict).still
        events := if s.verdict = .success ∧ s.onLastLevel = true then [.curriculumCompleted]
          else [] } := by
    rw [outlook, if_neg s.status_conclude_ne, conclude_session]
    split
    · rw [pending_schedule (s := s.closed s.verdict) clear]
      rfl
    · simp [closed, clear]
  unfold Leads
  rw [hnext, outlook, if_pos running, ahead_of_over done, conclude_events]
  exact ⟨rfl, rfl⟩

theorem leads_executeStep (running : s.status = .running) (clear : s.agenda.pending = []) :
    s.Leads s.executeStep.events s.executeStep.session := by
  unfold executeStep
  split
  · next hover => exact leads_conclude running hover clear
  · next hover =>
    have hmore := Bool.eq_false_iff.mpr hover
    have hfirst := leads_applyNext running hmore
    have hstatus : s.applyNext.session.status = .running := by rw [status_applyNext, running]
    simp only [Effect.andThen]
    split
    · next hcollided =>
      apply hfirst.trans
      apply leads_conclude hstatus
      · simp [Run.isOver, hcollided]
      · rw [agenda_applyNext, clear]
    · simpa using hfirst

theorem outlook_scheduleNext (running : s.status = .running) :
    s.scheduleNext.outlook = s.outlook := by
  unfold scheduleNext
  split
  · exact outlook_agenda running _
  · exact outlook_agenda running _

theorem Coherent.fire_leads (h : s.Coherent) {time : Duration} {u : Timer Continuation}
    {agenda : Agenda Continuation} (due : s.agenda.popDue time = some (u, agenda)) :
    s.Leads (s.fireTimer u agenda).events (s.fireTimer u agenda).session := by
  obtain ⟨hawaits, hpending, hclear⟩ := h.awaits due
  unfold fireTimer
  generalize u.payload = c at hawaits
  cases hawaits with
  | applyNext running _ more =>
    have hstatus := (status_applyNext { s with agenda }).trans running
    apply Leads.of_agenda running
    unfold Leads
    simp only [Session.fire, Effect.andThen, outlook_scheduleNext hstatus, List.append_nil]
    exact leads_applyNext (s := { s with agenda }) running more
  | evaluate running done =>
    apply Leads.of_agenda running
    exact leads_conclude running done hclear
  | step running =>
    apply Leads.of_agenda running
    exact leads_executeStep running hclear
  | curriculumCompleted completed =>
    have hrest : s.status ≠ .running := by simp [completed]
    have hnext : outlook { s with agenda } = { session := s.still } :=
      outlook_of_pending hrest hclear
    simp only [Leads, Session.fire, hnext]
    simp [outlook, hrest, hpending]

theorem Coherent.turn_leads (h : s.Coherent) (k : Turn s es t) : s.Leads es t := by
  cases k with
  | fire due => exact h.fire_leads due
  | step running =>
    apply Leads.of_agenda running
    exact leads_executeStep running rfl
  | @settle time _ =>
    by_cases hstatus : s.status = .running
    · have hsame := outlook_agenda hstatus (s.agenda.settle time)
      exact ⟨congrArg Effect.session hsame.symm, congrArg Effect.events hsame.symm⟩
    · simp only [Leads, outlook, hstatus, if_false]
      exact ⟨rfl, rfl⟩

theorem Coherent.turns_lead (h : s.Coherent) (k : Chain Turn s es t) : s.Leads es t := by
  induction k with
  | refl => exact ⟨rfl, rfl⟩
  | head k _ ih => exact (h.turn_leads k).trans (ih (h.turn k))

/-- What has ended does not begin again by itself. -/
theorem Coherent.turn_rest (h : s.Coherent) (rest : s.status ≠ .running) (k : Turn s es t) :
    t.status ≠ .running := by
  cases k with
  | @fire _ u _ due =>
    obtain ⟨hawaits, _, _⟩ := h.awaits due
    unfold fireTimer
    generalize u.payload = c at hawaits
    cases hawaits with
    | applyNext running => exact absurd running rest
    | evaluate running => exact absurd running rest
    | step running => exact absurd running rest
    | curriculumCompleted => exact rest
  | step running => exact absurd running rest
  | settle => exact rest

theorem Coherent.turns_rest (h : s.Coherent) (rest : s.status ≠ .running)
    (k : Chain Turn s es t) : t.status ≠ .running := by
  induction k with
  | refl => exact rest
  | head k _ ih => exact ih (h.turn k) (h.turn_rest rest k)

theorem launched_outlook (s : Session) (mode : RunMode) (queue : List Command) :
    (s.launched mode queue).outlook.session = (s.playThrough mode queue).session ∧
      (s.playThrough mode queue).events =
        .levelReset s.level.id :: .runStarted mode queue.length ::
          (s.launched mode queue).outlook.events := by
  have hcourse : (s.launched mode queue).ahead =
      let k := (Rocket.atStart s.level).follow s.level 0 queue
      { k with rocket := { k.rocket with running := true } } :=
    Rocket.follow_running s.level (.atStart s.level) true 0 queue
  have hlaunched : (s.launched mode queue).outlook =
      (s.launched mode queue).finish (s.launched mode queue).ahead := rfl
  rw [hlaunched, hcourse]
  exact ⟨rfl, rfl⟩

/-- A run that is left to the clock and the player until nothing waits any more is the run in one
pass, whichever of them carried it on. -/
theorem playThrough_of_turns {s t : Session} {mode : RunMode} {queue : List Command}
    (nonempty : queue ≠ []) (k : Chain Turn (s.launched mode queue) es t)
    (rest : t.status ≠ .running) (clear : t.agenda.pending = []) :
    (s.playThrough mode queue).session = t.still ∧
      (s.playThrough mode queue).events =
        .levelReset s.level.id :: .runStarted mode queue.length :: es := by
  obtain ⟨hsession, hevents⟩ := (s.launched_coherent mode nonempty).turns_lead k
  rw [outlook_of_pending rest clear] at hsession hevents
  obtain ⟨hplayed, htold⟩ := s.launched_outlook mode queue
  constructor
  · rw [← hplayed, hsession]
  · rw [htold, hevents, List.append_nil]

end Session

end RocketPuzzle
