import RocketPuzzle.Proofs.Coherence

/-! # Deeds

What a session does at one go, and all that it tells there. Every request to a coherent session
comes apart into deeds. A deed that begins a run has the queue of the run with it, which no event
tells. Whatever is done, the level in play is the selected one.
-/
namespace RocketPuzzle

/-- The outcome that an event of the world tells of. -/
def Event.said? : Event → Option Outcome
  | characterMoved .. => some .moved
  | moveBlocked .. => some .blocked
  | characterTurned .. => some .turned
  | fuelCollected _ => some .collected
  | nothingToCollect _ => some .collectFailed
  | _ => none

theorem Event.said?_ne_ignored (e : Event) : e.said? ≠ some .ignored := by
  cases e <;> simp [said?]

/-- The event belongs to the judgement of a run. -/
def Event.closes : Event → Bool
  | goalEvaluated _ => true
  | levelCompleted _ => true
  | runHalted => true
  | _ => false

theorem Event.closes_of_said {e : Event} {o : Outcome} (h : e.said? = some o) :
    e.closes = false := by
  cases e with
  | goalEvaluated | levelCompleted | runHalted => cases h
  | _ => rfl

/-- As long as the level is not solved, the world answers every command with one event. -/
theorem Rocket.events_apply {r : Rocket} (unsolved : r.completed = false) (l : Level)
    (c : Command) :
    ∃ said, (r.apply l c).events = [said] ∧ said.said? = some (r.apply l c).outcome := by
  have h := r.acts l c
  generalize r.apply l c = a at h ⊢
  cases h with
  | ignored solved => cases unsolved.symm.trans solved
  | _ => exact ⟨_, rfl, rfl⟩

inductive Deed where
  /-- The timers of a run in progress change, or the clock is put on. -/
  | wait
  | command (index : Nat) (c : Command) (o : Outcome) (said : Event)
  | judge (v : Verdict) (solved : Option UInt32)
  | announce
  | ignore
  | refuse
  | reset (level : UInt32)
  | launch (level : UInt32) (mode : RunMode) (queue : List Command)
  deriving Repr

namespace Deed

def tells : Deed → List Event
  | wait => []
  | command index c o said => [said, .commandApplied index c o]
  | judge v solved => .goalEvaluated v :: (solved.toList.map .levelCompleted ++ [.runHalted])
  | announce => [.curriculumCompleted]
  | ignore => [.runIgnored]
  | refuse => [.programEmpty]
  | reset level => [.levelReset level]
  | launch level mode queue => [.levelReset level, .runStarted mode queue.length]

/-- The level goes back to its start configuration. -/
def restarts : Deed → Bool
  | reset _ => true
  | launch .. => true
  | _ => false

def begun? : Deed → Option (RunMode × List Command)
  | launch _ mode queue => some (mode, queue)
  | _ => none

theorem begun?_eq_none {d : Deed} (h : d.restarts = false) : d.begun? = none := by
  cases d with
  | launch => cases h
  | _ => rfl

end Deed

def tellsAll (ds : List Deed) : List Event := ds.flatMap Deed.tells

theorem tellsAll_cons (d : Deed) (ds : List Deed) :
    tellsAll (d :: ds) = d.tells ++ tellsAll ds := rfl

theorem tellsAll_append (ds more : List Deed) :
    tellsAll (ds ++ more) = tellsAll ds ++ tellsAll more := List.flatMap_append

namespace Session

/-- The number of the level, if the judgement that is due puts it on record. -/
def solves? (s : Session) : Option UInt32 :=
  if s.verdict = .success ∧ s.onNewLevel = true then some s.level.id else none

/-- The run that a request for the source begins, if it begins one. -/
def launches? (s : Session) (mode : RunMode) (source : Source) :
    Option (RunMode × List Command) :=
  if s.status = .running ∨ source.queue = [] then none else some (mode, source.queue)

def begins? (s : Session) : Request → Option (RunMode × List Command)
  | .runAll source => s.launches? .paced source
  | .step source => s.launches? .stepped source
  | _ => none

def runsBegun (s : Session) : List Request → List (RunMode × List Command)
  | [] => []
  | r :: rest => (s.begins? r).toList ++ (s.handle r).effect.session.runsBegun rest

/-- The level in play is the one selected, and a catalog level is selected only if the catalog has
it. -/
structure Placed (s : Session) : Prop where
  level : s.level = s.curriculum.active s.inTutorial s.index
  tutorial : s.curriculum.isEmpty = true → s.inTutorial = true
  index : s.curriculum.isEmpty = false → s.index < s.curriculum.size

/-- What can be selected next: the flag for the tutorial and the place in the catalog. -/
inductive Selects (s : Session) : Bool → Nat → Prop where
  | level {index : Nat} (inside : index < s.curriculum.size) : Selects s false index
  | tutorial (enabled : Bool) : Selects s (enabled || s.curriculum.isEmpty) s.index
  | next (catalog : s.inTutorial = false) (more : s.index + 1 ≠ s.curriculum.size) :
      Selects s s.inTutorial (s.index + 1)
  | previous (catalog : s.inTutorial = false) (more : s.index ≠ 0) :
      Selects s s.inTutorial (s.index - 1)

end Session

/-- What a session can do, and when. -/
inductive Does (s : Session) : Deed → Session → Prop where
  | wait (running : s.status = .running) (agenda : Agenda Continuation) :
      Does s .wait { s with agenda }
  | settle (time : Duration) : Does s .wait { s with agenda := s.agenda.settle time }
  | command {c : Command} {said : Event} (running : s.status = .running)
      (free : s.run.collided = false) (unsolved : s.rocket.completed = false)
      (next : s.run.queue[s.run.cursor]? = some c)
      (told : (s.rocket.apply s.level c).events = [said])
      (fits : said.said? = some (s.rocket.apply s.level c).outcome) :
      Does s (.command s.run.cursor c (s.rocket.apply s.level c).outcome said)
        s.applyNext.session
  | judge (running : s.status = .running) (done : s.run.isOver = true)
      (clear : s.agenda.pending = []) : Does s (.judge s.verdict s.solves?) s.conclude.session
  | announce {u : Timer Continuation} {agenda : Agenda Continuation}
      (completed : s.status = .completed) (due : s.agenda.pending = [u])
      (clear : agenda.pending = []) : Does s .announce { s with agenda }
  | ignore (running : s.status = .running) : Does s .ignore s
  | refuse (rest : s.status ≠ .running) : Does s .refuse s.refuseEmpty.session
  | reset : Does s (.reset s.level.id) s.reset.session
  | load {inTutorial : Bool} {index : Nat} (selects : s.Selects inTutorial index) :
      Does s (.reset (s.curriculum.active inTutorial index).id)
        (Session.load { s with inTutorial, index }).session
  | launch (rest : s.status ≠ .running) (mode : RunMode) {queue : List Command}
      (nonempty : queue ≠ []) : Does s (.launch s.level.id mode queue) (s.launched mode queue)

inductive Deeds : Session → List Deed → Session → Prop where
  | nil (s) : Deeds s [] s
  | cons {s d t ds u} : Does s d t → Deeds t ds u → Deeds s (d :: ds) u

variable {s t u : Session} {d : Deed} {ds : List Deed} {es fs : List Event}

namespace Deeds

theorem single (h : Does s d t) : Deeds s [d] t := .cons h (.nil t)

theorem append {more : List Deed} (h : Deeds s ds t) (k : Deeds t more u) :
    Deeds s (ds ++ more) u := by
  induction h with
  | nil => exact k
  | cons h _ ih => exact .cons h (ih k)

theorem preserves {P : Session → Prop} (step : ∀ {s d t}, P s → Does s d t → P t)
    (h : Deeds s ds t) (hs : P s) : P t := by
  induction h with
  | nil => exact hs
  | cons h _ ih => exact ih (step hs h)

end Deeds

theorem Does.place (h : Does s d t) :
    t.curriculum = s.curriculum ∧
      (d.restarts = false →
        t.inTutorial = s.inTutorial ∧ t.index = s.index ∧ t.level = s.level) := by
  cases h with
  | command _ _ _ next =>
    rw [(Session.applyNext_eq next).1]
    exact ⟨rfl, fun _ => ⟨rfl, rfl, rfl⟩⟩
  | judge =>
    rw [Session.conclude_session]
    split <;> exact ⟨rfl, fun _ => ⟨rfl, rfl, rfl⟩⟩
  | load =>
    refine ⟨rfl, ?_⟩
    intro on
    cases on
  | _ => exact ⟨rfl, fun _ => ⟨rfl, rfl, rfl⟩⟩

/-- What is selected is loaded along with it. -/
theorem Session.Placed.load (h : s.Placed) {inTutorial : Bool} {index : Nat}
    (k : s.Selects inTutorial index) :
    (Session.load { s with inTutorial, index }).session.Placed := by
  cases k with
  | level inside =>
    refine ⟨rfl, ?_, fun _ => inside⟩
    intro hempty
    change s.curriculum.isEmpty = true at hempty
    rw [Curriculum.size, List.isEmpty_iff.mp hempty] at inside
    exact absurd inside (Nat.not_lt_zero _)
  | tutorial enabled => exact ⟨rfl, fun hempty => Bool.or_eq_true_iff.mpr (Or.inr hempty), h.index⟩
  | next _ more =>
    refine ⟨rfl, h.tutorial, ?_⟩
    intro hcatalog
    exact Nat.lt_of_le_of_ne (h.index hcatalog) more
  | previous =>
    refine ⟨rfl, h.tutorial, ?_⟩
    intro hcatalog
    exact Nat.lt_of_le_of_lt (Nat.sub_le ..) (h.index hcatalog)

/-- Nothing but the loading of a level changes the level in play or what is selected. -/
theorem Does.placed (h : s.Placed) (k : Does s d t) : t.Placed := by
  cases hon : d.restarts with
  | false =>
    obtain ⟨hcurriculum, hplace⟩ := k.place
    obtain ⟨htutorial, hindex, hlevel⟩ := hplace hon
    constructor
    · rw [hlevel, hcurriculum, htutorial, hindex]
      exact h.level
    · rw [hcurriculum, htutorial]
      exact h.tutorial
    · rw [hcurriculum, hindex]
      exact h.index
  | true =>
    cases k with
    | load selects => exact h.load selects
    | reset | launch => exact ⟨h.level, h.tutorial, h.index⟩
    | _ => cases hon

theorem Does.pacing (h : Does s d t) : t.pacing = s.pacing := by
  cases h with
  | command _ _ _ next => rw [(Session.applyNext_eq next).1]
  | judge =>
    rw [Session.conclude_session]
    split <;> rfl
  | _ => rfl

theorem Deeds.pacing (h : Deeds s ds t) : t.pacing = s.pacing :=
  h.preserves (P := fun t => t.pacing = s.pacing) (fun h k => k.pacing.trans h) rfl

theorem Deeds.curriculum (h : Deeds s ds t) : t.curriculum = s.curriculum :=
  h.preserves (P := fun t => t.curriculum = s.curriculum) (fun h k => k.place.1.trans h) rfl

inductive Onward : Session → List Event → Session → Prop where
  | does {s t : Session} {d : Deed} (h : Does s d t) (on : d.restarts = false) :
      Onward s d.tells t

/-- Without going back to the start of a level, `es` is told from `s` to `t`. -/
abbrev CarriesOn : Session → List Event → Session → Prop := Chain Onward

namespace CarriesOn

theorem of_does (h : Does s d t) (on : d.restarts = false) : CarriesOn s d.tells t :=
  .single (.does h on)

theorem deeds (h : CarriesOn s es t) :
    ∃ ds, Deeds s ds t ∧ tellsAll ds = es ∧ ds.filterMap Deed.begun? = [] := by
  induction h with
  | refl s => exact ⟨[], .nil s, rfl, rfl⟩
  | head h _ ih =>
    obtain ⟨hd, on⟩ := h
    obtain ⟨ds, hds, rfl, hnone⟩ := ih
    refine ⟨_ :: ds, .cons hd hds, rfl, ?_⟩
    rw [List.filterMap_cons_none (Deed.begun?_eq_none on), hnone]

theorem pacing (h : CarriesOn s es t) : t.pacing = s.pacing := by
  obtain ⟨ds, hds, _⟩ := h.deeds
  exact hds.pacing

end CarriesOn

namespace Session

theorem carriesOn_agenda (running : s.status = .running) (agenda : Agenda Continuation) :
    CarriesOn s [] { s with agenda } := .of_does (.wait running agenda) rfl

theorem carriesOn_applyNext (running : s.status = .running)
    (unsolved : s.rocket.completed = false) (more : s.run.isOver = false) :
    CarriesOn s s.applyNext.events s.applyNext.session := by
  obtain ⟨hfree, hlt⟩ := Run.isOver_eq_false.mp more
  have hnext := List.getElem?_eq_getElem hlt
  obtain ⟨said, htold, hfits⟩ := Rocket.events_apply unsolved s.level s.run.queue[s.run.cursor]
  have hdoes := Does.command running hfree unsolved hnext htold hfits
  rw [(applyNext_eq hnext).2, htold]
  exact .of_does hdoes rfl

theorem carriesOn_conclude (running : s.status = .running) (done : s.run.isOver = true)
    (clear : s.agenda.pending = []) : CarriesOn s s.conclude.events s.conclude.session := by
  have htells : (Deed.judge s.verdict s.solves?).tells = s.conclude.events := by
    rw [conclude_events]
    by_cases hnew : s.verdict = .success ∧ s.onNewLevel = true <;>
      simp [Deed.tells, solves?, closing, hnew]
  rw [← htells]
  exact .of_does (.judge running done clear) rfl

theorem carriesOn_executeStep (running : s.status = .running)
    (unsolved : s.rocket.completed = false) (clear : s.agenda.pending = []) :
    CarriesOn s s.executeStep.events s.executeStep.session := by
  rw [executeStep]
  split
  · next hover => exact carriesOn_conclude running hover clear
  · next hover =>
    have hnext := carriesOn_applyNext running unsolved (Bool.eq_false_iff.mpr hover)
    have hrunning : s.applyNext.session.status = .running := by rw [status_applyNext, running]
    have hclear : s.applyNext.session.agenda.pending = [] := by rw [agenda_applyNext, clear]
    refine hnext.trans ?_
    dsimp only [Effect.andThen]
    split
    · next hcollided =>
      have hover : s.applyNext.session.run.isOver = true := by simp [Run.isOver, hcollided]
      exact carriesOn_conclude hrunning hover hclear
    · exact .refl _

theorem carriesOn_scheduleNext (running : s.status = .running) :
    CarriesOn s [] s.scheduleNext := by
  rw [scheduleNext]
  split
  · exact carriesOn_agenda running _
  · exact carriesOn_agenda running _

theorem Coherent.carriesOn_fire (h : s.Coherent) {time : Duration} {w : Timer Continuation}
    {agenda : Agenda Continuation} (due : s.agenda.popDue time = some (w, agenda)) :
    CarriesOn s (s.fireTimer w agenda).events (s.fireTimer w agenda).session := by
  obtain ⟨hawaits, hpending, hclear⟩ := h.awaits due
  rw [fireTimer]
  generalize w.payload = c at hawaits
  cases hawaits with
  | applyNext running paced more =>
    have hrun := h.underway running agenda
    have hnext := carriesOn_applyNext hrun.status hrun.unsolved more
    have hstatus := (status_applyNext { s with agenda }).trans running
    exact (carriesOn_agenda running agenda).trans (hnext.trans (carriesOn_scheduleNext hstatus))
  | evaluate running done =>
    exact (carriesOn_agenda running agenda).trans
      (carriesOn_conclude (s := { s with agenda }) running done hclear)
  | step running =>
    have hrun := h.underway running agenda
    exact (carriesOn_agenda running agenda).trans
      (carriesOn_executeStep hrun.status hrun.unsolved hclear)
  | curriculumCompleted completed => exact .of_does (.announce completed hpending hclear) rfl

theorem Coherent.carriesOn_turn (h : s.Coherent) (k : Turn s es t) : CarriesOn s es t := by
  cases k with
  | fire due => exact h.carriesOn_fire due
  | step running stepped =>
    have hrun := h.underway running s.agenda.cancelAll
    exact (carriesOn_agenda running _).trans
      (carriesOn_executeStep hrun.status hrun.unsolved rfl)
  | settle => exact .of_does (.settle _) rfl

theorem Coherent.carriesOn_turns (h : s.Coherent) (k : Chain Turn s es t) : CarriesOn s es t := by
  induction k with
  | refl => exact .refl _
  | head k _ ih => exact (h.carriesOn_turn k).trans (ih (h.turn k))

end Session

/-- What becomes of a request: what has begun goes on, or a run begins, or a level is loaded. -/
inductive Answered (s : Session) (begun : Option (RunMode × List Command)) (e : Effect) :
    Prop where
  | carriesOn (none : begun = none) (on : CarriesOn s e.events e.session)
  | launch (rest : s.status ≠ .running) {mode : RunMode} {queue : List Command}
      (nonempty : queue ≠ []) (some : begun = some (mode, queue))
      (session : e.session = s.launched mode queue)
      (events : e.events = [.levelReset s.level.id, .runStarted mode queue.length])
  | reset (none : begun = none) (effect : e = s.reset)
  | load (none : begun = none) {inTutorial : Bool} {index : Nat}
      (selects : s.Selects inTutorial index)
      (effect : e = Session.load { s with inTutorial, index })

namespace Session

theorem answered_begin (rest : s.status ≠ .running) (source : Source) (mode : RunMode) :
    Answered s (s.launches? mode source)
      (s.begin source mode (s.pacing.firstDelay mode) mode.firstTimer) := by
  by_cases hq : source.queue = []
  · have hnone : s.launches? mode source = none := by simp [launches?, hq]
    refine .carriesOn hnone ?_
    rw [begin, hq]
    exact .of_does (.refuse rest) rfl
  · have hsome : s.launches? mode source = some (mode, source.queue) := by
      simp [launches?, rest, hq]
    obtain ⟨hsession, hevents⟩ := s.begin_eq hq mode
    exact .launch rest hq hsome hsession hevents

theorem launches?_of_running (running : s.status = .running) (mode : RunMode) (source : Source) :
    s.launches? mode source = none := by
  simp [launches?, running]

theorem Coherent.answered (h : s.Coherent) (r : Request) :
    Answered s (s.begins? r) (s.handle r).effect := by
  cases r with
  | runAll source =>
    simp only [handle, runAll]
    split
    · next hrun => exact .carriesOn (launches?_of_running hrun ..) (.of_does (.ignore hrun) rfl)
    · next hrest => exact answered_begin hrest source .paced
  | step source =>
    simp only [handle, step]
    split
    · next hrun =>
      refine .carriesOn (launches?_of_running hrun ..) ?_
      split
      · next hmode => exact h.carriesOn_turns (stepOn_turns hrun hmode)
      · exact .of_does (.ignore hrun) rfl
    · next hrest => exact answered_begin hrest source .stepped
  | advance dt => exact .carriesOn rfl (h.carriesOn_turns (s.advance_turns dt))
  | reset => exact .reset rfl rfl
  | select index =>
    by_cases hi : index < s.curriculum.size
    · simp only [handle, select, hi, if_true]
      exact .load rfl (.level hi) rfl
    · simp only [handle, select, hi, if_false]
      exact .carriesOn rfl (.refl s)
  | setTutorial enabled => exact .load rfl (.tutorial enabled) rfl
  | nextLevel =>
    simp only [handle, nextLevel]
    split
    · exact .carriesOn rfl (.refl s)
    · next hmore =>
      simp only [Curriculum.isFinal, Bool.or_eq_true, beq_iff_eq, not_or] at hmore
      exact .load rfl (.next (Bool.eq_false_iff.mpr hmore.1) hmore.2) rfl
  | previousLevel =>
    simp only [handle, previousLevel]
    split
    · exact .carriesOn rfl (.refl s)
    · next hmore =>
      simp only [Bool.or_eq_true, beq_iff_eq, not_or] at hmore
      exact .load rfl (.previous (Bool.eq_false_iff.mpr hmore.1) hmore.2) rfl

end Session

theorem Answered.deeds {begun : Option (RunMode × List Command)} {e : Effect}
    (h : Answered s begun e) :
    ∃ ds, Deeds s ds e.session ∧ tellsAll ds = e.events ∧ ds.filterMap Deed.begun? = begun.toList := by
  cases h with
  | carriesOn hnone on =>
    obtain ⟨ds, hds, htold, hbegun⟩ := on.deeds
    rw [hnone]
    exact ⟨ds, hds, htold, hbegun⟩
  | launch rest nonempty hsome hsession hevents =>
    rw [hsession, hevents, hsome]
    exact ⟨_, .single (.launch rest _ nonempty), rfl, rfl⟩
  | reset hnone heffect =>
    rw [heffect, hnone]
    exact ⟨_, .single .reset, rfl, rfl⟩
  | load hnone selects heffect =>
    rw [heffect, hnone]
    exact ⟨_, .single (.load selects), rfl, rfl⟩

theorem Session.Coherent.deeds (h : s.Coherent) (rs : List Request) :
    ∃ ds, Deeds s ds (s.handleAll rs).session ∧ tellsAll ds = (s.handleAll rs).events ∧
      ds.filterMap Deed.begun? = s.runsBegun rs := by
  induction rs generalizing s with
  | nil => exact ⟨[], .nil s, rfl, rfl⟩
  | cons r rest ih =>
    obtain ⟨ds, hds, htold, hbegun⟩ := (h.answered r).deeds
    obtain ⟨more, hmore, htold', hbegun'⟩ := ih (h.request r)
    refine ⟨ds ++ more, hds.append hmore, ?_, ?_⟩
    · rw [tellsAll_append, htold, htold']
      rfl
    · rw [List.filterMap_append, hbegun, hbegun']
      rfl

namespace Session

theorem curriculum_handleAll (c : Curriculum) (p : Pacing) (rs : List Request) :
    ((Session.new c p).handleAll rs).session.curriculum = c := by
  obtain ⟨ds, hds, _⟩ := (new_coherent c p).deeds rs
  exact hds.curriculum

theorem placed_new (c : Curriculum) (p : Pacing) : (Session.new c p).Placed where
  level := rfl
  tutorial := id
  index := fun hcatalog => List.length_pos_iff.mpr (List.isEmpty_eq_false_iff.mp hcatalog)

/-- Whatever is asked of a session, the level in play is the selected one. -/
theorem requests_placed (c : Curriculum) (p : Pacing) (rs : List Request) :
    ((Session.new c p).handleAll rs).session.Placed := by
  obtain ⟨ds, hds, _⟩ := (new_coherent c p).deeds rs
  exact hds.preserves Does.placed (placed_new c p)

end Session

theorem Reachable.placed (h : Reachable s) : s.Placed := by
  obtain ⟨c, p, rs, rfl⟩ := h
  exact Session.requests_placed c p rs

end RocketPuzzle
