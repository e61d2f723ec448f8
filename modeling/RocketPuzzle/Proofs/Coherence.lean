import RocketPuzzle.Proofs.Moves

/-! # Coherence

The flags of the rocket, the status, the cursor and the timers of a session belong together. A run
in progress always has exactly what carries it on: a paced one its one timer, a stepped one the
player. Nothing is left to fire when nothing is going on.
-/
namespace RocketPuzzle

namespace Run

theorem isOver_eq_false {r : Run} :
    r.isOver = false ↔ r.collided = false ∧ r.cursor < r.queue.length := by
  simp [isOver, exhausted]

theorem isOver_eq_true {r : Run} (h : r.cursor ≤ r.queue.length) :
    r.isOver = true ↔ r.collided = true ∨ r.cursor = r.queue.length := by
  have : r.queue.length ≤ r.cursor ↔ r.cursor = r.queue.length :=
    ⟨Nat.le_antisymm h, Nat.le_of_eq ∘ Eq.symm⟩
  simp [isOver, exhausted, this]

end Run

namespace Session

structure Coherent (s : Session) : Prop where
  running_iff : s.rocket.snapshot.running = true ↔ s.status = .running
  completed_iff : s.rocket.snapshot.completed = true ↔ s.status = .completed
  cursor_le : s.run.cursor ≤ s.run.queue.length
  queue_eq_nil : s.run.queue = [] ↔ s.status = .idle
  not_overdue : ∀ t ∈ s.agenda.pending, s.agenda.now ≤ t.due
  quiet : s.status = .idle ∨ s.status = .halted → s.agenda.pending = []
  moded : s.status = .running → s.run.mode ≠ none
  paced : s.status = .running → s.run.mode = some .paced →
    ∃ t, s.agenda.pending = [t] ∧
      (t.payload = .applyNext ∧ s.run.cursor < s.run.queue.length ∧ s.run.collided = false ∨
        t.payload = .evaluate ∧ 1 ≤ s.run.cursor ∧
          (s.run.collided = true ∨ s.run.cursor = s.run.queue.length))
  stepped : s.status = .running → s.run.mode = some .stepped →
    s.run.collided = false ∧
      ((∃ t, s.agenda.pending = [t] ∧ t.payload = .step ∧ s.run.cursor = 0) ∨
        s.agenda.pending = [] ∧ 1 ≤ s.run.cursor)
  announced : s.status = .completed →
    s.agenda.pending = [] ∨
      ∃ t, s.agenda.pending = [t] ∧ t.payload = .curriculumCompleted ∧
        ∃ i, s.selection = .level i ∧ i + 1 = s.curriculum.size
  solved : s.status = .completed →
    s.rocket.snapshot.position = s.level.goal ∧
      (s.level.fuel ≠ none → s.rocket.snapshot.fuelCollected = true)

/-- A run in progress, whatever becomes of its timers. -/
structure Underway (s : Session) : Prop where
  status : s.status = .running
  running : s.rocket.running = true
  unsolved : s.rocket.completed = false
  queue : s.run.queue ≠ []
  cursor : s.run.cursor ≤ s.run.queue.length

/-- What the timer of a session may be, and what is going on then. -/
inductive Awaits (s : Session) : Continuation → Prop where
  | applyNext (running : s.status = .running) (paced : s.run.mode = some .paced)
      (more : s.run.isOver = false) : Awaits s .applyNext
  | evaluate (running : s.status = .running) (done : s.run.isOver = true) : Awaits s .evaluate
  | step (running : s.status = .running) (stepped : s.run.mode = some .stepped) : Awaits s .step
  | curriculumCompleted (completed : s.status = .completed) : Awaits s .curriculumCompleted

variable {s t : Session} {es : List Event}

theorem Coherent.underway (h : s.Coherent) (running : s.status = .running)
    (agenda : Agenda Continuation) : Underway { s with agenda } where
  status := running
  running := h.running_iff.mpr running
  unsolved := by
    have hne : s.status ≠ .completed := by simp [running]
    have := mt h.completed_iff.mp hne
    simpa [Rocket.snapshot] using this
  queue := by
    have hne : s.status ≠ .idle := by simp [running]
    exact mt h.queue_eq_nil.mp hne
  cursor := h.cursor_le

/-- Only the timers of a run in progress are left to check. -/
theorem Underway.coherent (h : s.Underway)
    (due : ∀ t ∈ s.agenda.pending, s.agenda.now ≤ t.due) (moded : s.run.mode ≠ none)
    (paced : s.run.mode = some .paced →
      ∃ t, s.agenda.pending = [t] ∧
        (t.payload = .applyNext ∧ s.run.cursor < s.run.queue.length ∧ s.run.collided = false ∨
          t.payload = .evaluate ∧ 1 ≤ s.run.cursor ∧
            (s.run.collided = true ∨ s.run.cursor = s.run.queue.length)))
    (stepped : s.run.mode = some .stepped →
      s.run.collided = false ∧
        ((∃ t, s.agenda.pending = [t] ∧ t.payload = .step ∧ s.run.cursor = 0) ∨
          s.agenda.pending = [] ∧ 1 ≤ s.run.cursor)) : s.Coherent where
  running_iff := by simp [Rocket.snapshot, h.running, h.status]
  completed_iff := by simp [Rocket.snapshot, h.unsolved, h.status]
  cursor_le := h.cursor
  queue_eq_nil := by simp [h.queue, h.status]
  not_overdue := due
  quiet := by simp [h.status]
  moded _ := moded
  paced _ := paced
  stepped _ := stepped
  announced := by simp [h.status]
  solved := by simp [h.status]

theorem Underway.applyNext (h : s.Underway) (more : s.run.cursor < s.run.queue.length) :
    s.applyNext.session.Underway := by
  obtain ⟨heq, _⟩ := applyNext_eq (List.getElem?_eq_getElem more)
  rw [heq]
  constructor
  · exact h.status
  · exact (Rocket.running_apply ..).trans h.running
  · exact (Rocket.completed_apply ..).trans h.unsolved
  · exact h.queue
  · exact more

theorem begun_applyNext (more : s.run.cursor < s.run.queue.length) :
    1 ≤ s.applyNext.session.run.cursor := by
  rw [(applyNext_eq (List.getElem?_eq_getElem more)).1]
  exact Nat.le_add_left ..

theorem pending_schedule (clear : s.agenda.pending = []) (delay : UInt64) (c : Continuation) :
    (s.schedule delay c).agenda.pending =
      [⟨s.agenda.nextId, s.agenda.now + .ofMillis delay, c⟩] := by
  simp [schedule, Agenda.schedule, clear]

theorem not_overdue_schedule (clear : s.agenda.pending = []) (delay : UInt64) (c : Continuation) :
    ∀ t ∈ (s.schedule delay c).agenda.pending, (s.schedule delay c).agenda.now ≤ t.due := by
  rw [pending_schedule clear]
  intro t ht
  rw [List.mem_singleton.mp ht]
  exact Duration.le_self_add ..

theorem Underway.schedule (h : s.Underway) (delay : UInt64) (c : Continuation) :
    (s.schedule delay c).Underway :=
  ⟨h.status, h.running, h.unsolved, h.queue, h.cursor⟩

theorem Underway.scheduleNext (h : s.Underway) (clear : s.agenda.pending = [])
    (paced : s.run.mode = some .paced) (begun : 1 ≤ s.run.cursor) : s.scheduleNext.Coherent := by
  have hmode : s.run.mode ≠ none := by simp [paced]
  have hnot : s.run.mode ≠ some .stepped := by simp [paced]
  unfold Session.scheduleNext
  by_cases hover : s.run.isOver = true
  · rw [if_pos hover]
    have hend := (Run.isOver_eq_true h.cursor).mp hover
    apply (h.schedule ..).coherent (not_overdue_schedule clear _ _) hmode
    · intro _
      exact ⟨_, pending_schedule clear .., Or.inr ⟨rfl, begun, hend⟩⟩
    · exact fun k => absurd k hnot
  · rw [if_neg hover]
    obtain ⟨hfree, hmore⟩ := Run.isOver_eq_false.mp (Bool.eq_false_iff.mpr hover)
    apply (h.schedule ..).coherent (not_overdue_schedule clear _ _) hmode
    · intro _
      exact ⟨_, pending_schedule clear .., Or.inl ⟨rfl, hmore, hfree⟩⟩
    · exact fun k => absurd k hnot

theorem Underway.closed (h : s.Underway) (clear : s.agenda.pending = []) :
    (s.closed s.verdict).Coherent := by
  by_cases hv : s.verdict = .success
  · have hgoal := Level.judge_eq_success.mp hv
    constructor <;> simp only [Session.closed, hv, if_true]
    · simp [Rocket.snapshot, Rocket.complete]
    · simp [Rocket.snapshot, Rocket.complete]
    · exact h.cursor
    · simp [h.queue]
    · simp [clear]
    · simp
    · simp
    · simp
    · simp
    · exact fun _ => Or.inl clear
    · exact fun _ => hgoal
  · constructor <;> simp only [Session.closed, hv, if_false]
    · simp [Rocket.snapshot, Rocket.halt]
    · simp [Rocket.snapshot, Rocket.halt, h.unsolved]
    · exact h.cursor
    · simp [h.queue]
    · simp [clear]
    · exact fun _ => clear
    · simp
    · simp
    · simp
    · simp
    · simp

/-- The announcement is set on a solved session only, and nothing else waits then. -/
theorem Coherent.announce (h : s.Coherent) (completed : s.status = .completed)
    (clear : s.agenda.pending = []) (last : s.onLastLevel = true) (delay : UInt64) :
    (s.schedule delay .curriculumCompleted).Coherent := by
  obtain ⟨hcatalog, hfinal⟩ : s.inTutorial = false ∧ s.index + 1 = s.curriculum.size := by
    simpa [onLastLevel] using last
  have hnot : (s.schedule delay .curriculumCompleted).status ≠ .running := by
    simp [schedule, completed]
  have hselected : s.selection = .level s.index := by simp [selection, hcatalog]
  refine { h with
    not_overdue := not_overdue_schedule clear _ _
    quiet := ?_
    paced := fun k => absurd k hnot
    stepped := fun k => absurd k hnot
    announced := ?_ }
  · simp [schedule, completed]
  · intro _
    exact Or.inr ⟨_, pending_schedule clear .., rfl, s.index, hselected, hfinal⟩

theorem Underway.conclude (h : s.Underway) (clear : s.agenda.pending = []) :
    s.conclude.session.Coherent := by
  have hclosed := h.closed clear
  rw [conclude_session]
  split
  · next hlast =>
    exact hclosed.announce (by simp [Session.closed, hlast.1]) clear hlast.2 _
  · exact hclosed

theorem Underway.executeStep (h : s.Underway) (clear : s.agenda.pending = [])
    (stepped : s.run.mode = some .stepped) : s.executeStep.session.Coherent := by
  unfold Session.executeStep
  split
  · exact h.conclude clear
  · next hover =>
    obtain ⟨_, hmore⟩ := Run.isOver_eq_false.mp (Bool.eq_false_iff.mpr hover)
    have hnext := h.applyNext hmore
    have hclear : s.applyNext.session.agenda.pending = [] := by rw [agenda_applyNext, clear]
    have hmode : s.applyNext.session.run.mode = some .stepped := by rw [mode_applyNext, stepped]
    simp only [Effect.andThen]
    split
    · exact hnext.conclude hclear
    · next hfree =>
      apply hnext.coherent
      · simp [hclear]
      · simp [hmode]
      · simp [hmode]
      · intro _
        exact ⟨Bool.eq_false_iff.mpr hfree, Or.inr ⟨hclear, begun_applyNext hmore⟩⟩

/-- A timer that fires is the only one, and which one it is follows from what is going on. -/
theorem Coherent.awaits (h : s.Coherent) {time : Duration} {u : Timer Continuation}
    {agenda : Agenda Continuation} (due : s.agenda.popDue time = some (u, agenda)) :
    s.Awaits u.payload ∧ s.agenda.pending = [u] ∧ agenda.pending = [] := by
  have hsome : s.agenda.pending ≠ [] := by
    intro hnil
    rw [Agenda.popDue_of_nil hnil] at due
    cases due
  suffices halone : ∃ w, s.agenda.pending = [w] ∧ s.Awaits w.payload by
    obtain ⟨w, hpending, hw⟩ := halone
    obtain ⟨rfl, rfl⟩ := Agenda.popDue_singleton hpending due
    exact ⟨hw, hpending, rfl⟩
  cases hstatus : s.status with
  | idle => exact absurd (h.quiet (Or.inl hstatus)) hsome
  | halted => exact absurd (h.quiet (Or.inr hstatus)) hsome
  | running =>
    cases hmode : s.run.mode with
    | none => exact absurd hmode (h.moded hstatus)
    | some mode =>
      cases mode with
      | paced =>
        obtain ⟨w, hpending, ⟨hp, hmore, hfree⟩ | ⟨hp, _, hend⟩⟩ := h.paced hstatus hmode
        · have hmore := Run.isOver_eq_false.mpr ⟨hfree, hmore⟩
          exact ⟨w, hpending, hp ▸ .applyNext hstatus hmode hmore⟩
        · have hover := (Run.isOver_eq_true h.cursor_le).mpr hend
          exact ⟨w, hpending, hp ▸ .evaluate hstatus hover⟩
      | stepped =>
        obtain ⟨_, ⟨w, hpending, hp, _⟩ | ⟨hpending, _⟩⟩ := h.stepped hstatus hmode
        · exact ⟨w, hpending, hp ▸ .step hstatus hmode⟩
        · exact absurd hpending hsome
  | completed =>
    obtain hpending | ⟨w, hpending, hp, _⟩ := h.announced hstatus
    · exact absurd hpending hsome
    · exact ⟨w, hpending, hp ▸ .curriculumCompleted hstatus⟩

theorem Coherent.fire (h : s.Coherent) {time : Duration} {u : Timer Continuation}
    {agenda : Agenda Continuation} (due : s.agenda.popDue time = some (u, agenda)) :
    (s.fireTimer u agenda).session.Coherent := by
  obtain ⟨hawaits, _, hclear⟩ := h.awaits due
  unfold fireTimer
  generalize u.payload = c at hawaits
  cases hawaits with
  | applyNext running paced more =>
    have hrun := h.underway running agenda
    obtain ⟨_, hlt⟩ := Run.isOver_eq_false.mp more
    apply (hrun.applyNext hlt).scheduleNext
    · rw [agenda_applyNext, hclear]
    · rw [mode_applyNext, paced]
    · exact begun_applyNext hlt
  | evaluate running => exact (h.underway running agenda).conclude hclear
  | step running stepped => exact (h.underway running agenda).executeStep hclear stepped
  | curriculumCompleted completed =>
    have hnot : s.status ≠ .running := by simp [completed]
    exact { h with
      not_overdue := by simp [Session.fire, hclear]
      quiet := fun _ => hclear
      paced := fun k => absurd k hnot
      stepped := fun k => absurd k hnot
      announced := fun _ => Or.inl hclear }

theorem Coherent.turn (h : s.Coherent) (k : Turn s es t) : t.Coherent := by
  cases k with
  | fire due => exact h.fire due
  | step running stepped => exact (h.underway running _).executeStep rfl stepped
  | @settle time hrest =>
    have hlate := Agenda.popDue_eq_none.mp hrest
    refine { h with not_overdue := ?_ }
    intro u hu
    have hnow := h.not_overdue u hu
    have hdue := Duration.le_of_lt (hlate u hu)
    simp only [Agenda.settle, Duration.le_def, Duration.nanos_max] at *
    omega

theorem Coherent.turns (h : s.Coherent) (k : Chain Turn s es t) : t.Coherent :=
  k.preserves Coherent.turn h

theorem reset_coherent (s : Session) : s.reset.session.Coherent := by
  constructor <;> simp [reset, Rocket.atStart, Rocket.snapshot, Agenda.cancelAll]

theorem launched_coherent (s : Session) (mode : RunMode) {queue : List Command}
    (nonempty : queue ≠ []) : (s.launched mode queue).Coherent := by
  have hunder : (s.launched mode queue).Underway :=
    ⟨rfl, rfl, rfl, nonempty, Nat.zero_le _⟩
  have hlength : 0 < queue.length := List.length_pos_iff.mpr nonempty
  have hpending : (s.launched mode queue).agenda.pending = [_] := rfl
  apply hunder.coherent
  · rw [hpending]
    intro u hu
    rw [List.mem_singleton.mp hu]
    exact Duration.le_self_add ..
  · simp [launched]
  · intro hmode
    obtain rfl : mode = .paced := by simpa [launched] using hmode
    exact ⟨_, hpending, Or.inl ⟨rfl, hlength, rfl⟩⟩
  · intro hmode
    obtain rfl : mode = .stepped := by simpa [launched] using hmode
    exact ⟨rfl, Or.inl ⟨_, hpending, rfl, rfl⟩⟩

theorem Coherent.move (h : s.Coherent) (k : Move s es t) : t.Coherent := by
  cases k with
  | turn k => exact h.turn k
  | reset | load => exact reset_coherent _
  | ignore => exact h
  | refuse => exact { h with }
  | launch _ mode hqueue => exact s.launched_coherent mode hqueue

theorem new_coherent (c : Curriculum) (p : Pacing) : (Session.new c p).Coherent := by
  constructor <;> simp [Session.new, Rocket.atStart, Rocket.snapshot]

theorem Coherent.request (h : s.Coherent) (r : Request) : (s.handle r).effect.session.Coherent :=
  (s.handle_moves r).preserves Coherent.move h

theorem Coherent.handleAll (h : s.Coherent) (rs : List Request) :
    (s.handleAll rs).session.Coherent :=
  (s.handleAll_moves rs).preserves Coherent.move h

theorem requests_coherent (c : Curriculum) (p : Pacing) (rs : List Request) :
    ((Session.new c p).handleAll rs).session.Coherent :=
  (new_coherent c p).handleAll rs

end Session

end RocketPuzzle
