import Mathlib.Data.List.Forall2
import RocketPuzzle.Proofs.Deeds
import RocketPuzzle.Proofs.Replay

/-! # The chronicle of a session

How the events of a session follow one another. Every run has a stretch of the log to itself, from
its start to the next reset; no event of a run stands anywhere else.
-/
namespace RocketPuzzle

namespace Event

def isStart : Event → Bool
  | runStarted .. => true
  | _ => false

def applied? : Event → Option (Command × Nat)
  | commandApplied index c _ => some (c, index)
  | _ => none

def outcome? : Event → Option Outcome
  | commandApplied _ _ o => some o
  | _ => none

/-- The event belongs to the end of a run, the announcement included. -/
def isEnding (e : Event) : Bool := e.closes || e = curriculumCompleted

/-- After this event the run applies no more commands. -/
def stops : Event → Bool
  | commandApplied _ _ o => o = .blocked
  | goalEvaluated _ => true
  | _ => false

def ofRun (e : Event) : Bool := e.applied?.isSome || e.isEnding

end Event

/-- The stretches of a log that belong to a run each. -/
def segments : List Event → List (List Event)
  | [] => []
  | e :: rest =>
    if e.isStart then (e :: rest.takeWhile fun f => !f.isReset) :: segments rest else segments rest

/-- The log breaks off in the stretch of a run. -/
def InRun (log : List Event) : Prop :=
  ∃ earlier mode n body, log = earlier ++ .runStarted mode n :: body ∧
    ∀ f ∈ body, f.isReset = false

/-- A run is judged at most once, and what belongs to its end comes in order: the verdict, a level
that is completed by it, the halt, and the announcement. -/
inductive Judged : List Event → Prop where
  | notYet {es : List Event} (going : ∀ e ∈ es, e.isEnding = false) : Judged es
  | once {before after : List Event} {v : Verdict} {solved : Option UInt32}
      (going : ∀ e ∈ before, e.isEnding = false) (decided : v ≠ .pending)
      (deserved : solved ≠ none → v = .success)
      (announced : after.filter Event.isEnding <+:
        if v = .success then [.curriculumCompleted] else []) :
      Judged
        (before ++ .goalEvaluated v :: (solved.toList.map .levelCompleted ++ .runHalted :: after))

/-- The stretch of a log tells of the run with this mode and this queue. -/
structure TellsRun (run : RunMode × List Command) (es : List Event) : Prop where
  started : es.head? = some (.runStarted run.1 run.2.length)
  /-- The commands are the first ones of the queue, each under its own index. -/
  commands : es.filterMap Event.applied? <+: run.2.zipIdx
  stopped : es.Pairwise fun e f => e.stops = true → f.applied? = none
  judged : Judged es

/-- The log tells of these runs, in order, and of nothing that belongs to no run. -/
structure Chronicle (runs : List (RunMode × List Command)) (log : List Event) : Prop where
  fresh : ∀ before mode n after, log = before ++ .runStarted mode n :: after →
    ∃ earlier level, before = earlier ++ [.levelReset level]
  within : ∀ before e after, log = before ++ e :: after → e.ofRun = true → InRun before
  /-- What the world has to say of a command is told just before it, and nowhere else. -/
  said : none :: log.map Event.said? = log.map Event.outcome? ++ [none]
  segments : List.Forall₂ TellsRun runs (segments log)

/-- What the world says is neither the begin nor the end of anything. -/
theorem Event.of_said {e : Event} {o : Outcome} (h : e.said? = some o) :
    e.isReset = false ∧ e.isStart = false ∧ e.ofRun = false ∧ e.stops = false ∧
      e.outcome? = none := by
  cases e with
  | characterMoved | moveBlocked | characterTurned | fuelCollected | nothingToCollect =>
    exact ⟨rfl, rfl, rfl, rfl, rfl⟩
  | _ => cases h

theorem Event.ofRun_eq_false {e : Event} :
    e.ofRun = false ↔ e.applied? = none ∧ e.isEnding = false := by
  simp [ofRun]

theorem segments_append {es : List Event} (h : ∀ e ∈ es, e.isStart = false) (rest : List Event) :
    segments (es ++ rest) = segments rest := by
  induction es with
  | nil => rfl
  | cons e es ih =>
    obtain ⟨he, hes⟩ := List.forall_mem_cons.mp h
    simp only [List.cons_append, segments, he, Bool.false_eq_true, if_false]
    exact ih hes

theorem Judged.prepend {es fs : List Event} (h : Judged es)
    (going : ∀ e ∈ fs, e.isEnding = false) : Judged (fs ++ es) := by
  cases h with
  | notYet hes => exact .notYet (List.forall_mem_append.mpr ⟨going, hes⟩)
  | once hbefore decided deserved announced =>
    rw [← List.append_assoc]
    exact .once (List.forall_mem_append.mpr ⟨going, hbefore⟩) decided deserved announced

variable {s t u : Session} {d : Deed} {ds : List Deed} {es : List Event}

theorem Does.goes_back (h : Does s d t) :
    d.restarts = false ∨ (∃ level, d = .reset level ∧ t.status = .idle) ∨
      ∃ mode queue, d = .launch s.level.id mode queue ∧ t = s.launched mode queue := by
  cases h with
  | reset | load => exact Or.inr (Or.inl ⟨_, rfl, rfl⟩)
  | launch => exact Or.inr (Or.inr ⟨_, _, rfl, rfl⟩)
  | _ => exact Or.inl rfl

theorem Does.goes_on (h : Does s d t) (on : d.restarts = false) :
    ∀ e ∈ d.tells, e.isReset = false ∧ e.isStart = false := by
  cases h with
  | command _ _ _ _ _ fits =>
    intro e he
    rcases List.mem_cons.mp he with rfl | he
    · obtain ⟨hreset, hstart, _⟩ := Event.of_said fits
      exact ⟨hreset, hstart⟩
    · rw [List.mem_singleton.mp he]
      exact ⟨rfl, rfl⟩
  | judge =>
    cases s.solves? <;> simp [Deed.tells, Event.isReset, Event.isStart]
  | wait | settle => exact List.forall_mem_nil _
  | announce | ignore | refuse => exact List.forall_mem_singleton.mpr ⟨rfl, rfl⟩
  | reset | load | launch => cases on

theorem Does.said (h : Does s d t) :
    none :: d.tells.map Event.said? = d.tells.map Event.outcome? ++ [none] := by
  cases h with
  | command _ _ _ _ _ fits =>
    obtain ⟨_, _, _, _, hnone⟩ := Event.of_said fits
    change [none, Event.said? _, none] = [Event.outcome? _, some _, none]
    rw [fits, hnone]
  | judge => cases s.solves? <;> rfl
  | _ => rfl

theorem Deeds.said (h : Deeds s ds t) :
    none :: (tellsAll ds).map Event.said? = (tellsAll ds).map Event.outcome? ++ [none] := by
  induction h with
  | nil => rfl
  | cons hd _ ih =>
    rw [tellsAll_cons, List.map_append, List.map_append, List.append_assoc, ← ih,
      ← List.cons_append, hd.said, List.append_assoc]
    rfl

/-- Every event is told by one of the deeds, and after all that the deeds before it have told. -/
theorem Deeds.tells_eq {before after : List Event} {e : Event} (h : Deeds s ds u)
    (told : tellsAll ds = before ++ e :: after) :
    ∃ ds' t d v es fs, Deeds s ds' t ∧ Does t d v ∧ before = tellsAll ds' ++ es ∧
      d.tells = es ++ e :: fs := by
  induction h generalizing before with
  | nil => simp [tellsAll] at told
  | @cons s d t ds u hd _ ih =>
    rw [tellsAll_cons] at told
    rcases List.append_eq_append_iff.mp told with ⟨more, rfl, hmore⟩ | ⟨es, hes, hrest⟩
    · obtain ⟨ds', v, d', w, es, fs, hds', hd', rfl, htells⟩ := ih hmore
      refine ⟨d :: ds', v, d', w, es, fs, .cons hd hds', hd', ?_, htells⟩
      rw [tellsAll_cons, List.append_assoc]
    · cases es with
      | nil =>
        -- This deed tells just what stands before, and the event is the first of what is left.
        have hrest' : tellsAll ds = [] ++ e :: after := hrest.symm
        obtain ⟨ds', v, d', w, es, fs, hds', hd', hbefore, htells⟩ := ih hrest'
        refine ⟨d :: ds', v, d', w, es, fs, .cons hd hds', hd', ?_, htells⟩
        rw [List.append_nil] at hes
        rw [tellsAll_cons, List.append_assoc, ← hbefore, List.append_nil, hes]
      | cons e' fs =>
        obtain ⟨rfl, _⟩ := List.cons.inj hrest
        exact ⟨[], s, d, t, before, fs, .nil s, hd, rfl, hes⟩

theorem Does.fresh {es fs : List Event} {mode : RunMode} {n : Nat} (h : Does s d t)
    (told : d.tells = es ++ .runStarted mode n :: fs) : es = [.levelReset s.level.id] := by
  have hmem : .runStarted mode n ∈ d.tells := by simp [told]
  rcases h.goes_back with hon | ⟨level, rfl, _⟩ | ⟨mode', queue, rfl, _⟩
  · cases (h.goes_on hon _ hmem).2
  · simp [Deed.tells] at hmem
  · rcases es with _ | ⟨e, _ | ⟨e', es⟩⟩
    · cases told
    · cases told
      rfl
    · simp [Deed.tells] at told

theorem InRun.append {log : List Event} (h : InRun log) (clear : ∀ e ∈ es, e.isReset = false) :
    InRun (log ++ es) := by
  obtain ⟨earlier, mode, n, body, rfl, hbody⟩ := h
  refine ⟨earlier, mode, n, body ++ es, List.append_assoc .., ?_⟩
  exact List.forall_mem_append.mpr ⟨hbody, clear⟩

theorem Does.idle (h : Does s d t) (on : d.restarts = false) (idle : s.status = .idle) :
    t.status = .idle := by
  cases h with
  | wait running | command running | judge running | ignore running =>
    rw [idle] at running
    cases running
  | announce completed =>
    rw [idle] at completed
    cases completed
  | reset | load | launch => cases on
  | settle | refuse => exact idle

theorem Does.busy {e : Event} (h : Does s d t) (he : e ∈ d.tells) (hrun : e.ofRun = true) :
    s.status ≠ .idle ∧ d.restarts = false := by
  cases h with
  | command running | judge running => simp [running, Deed.restarts]
  | announce completed => simp [completed, Deed.restarts]
  | wait | settle => cases he
  | ignore | refuse | reset | load =>
    rw [List.mem_singleton.mp he] at hrun
    cases hrun
  | launch =>
    simp only [Deed.tells, List.mem_cons, List.not_mem_nil, or_false] at he
    rcases he with rfl | rfl <;> cases hrun

theorem Deeds.inRun (h : Deeds s ds t) (busy : t.status ≠ .idle) :
    InRun (tellsAll ds) ∨ s.status ≠ .idle ∧ ∀ e ∈ tellsAll ds, e.isReset = false := by
  induction h with
  | nil => exact Or.inr ⟨busy, by simp [tellsAll]⟩
  | @cons s d t ds u hd _ ih =>
    rcases ih busy with ⟨earlier, mode, n, body, heq, hbody⟩ | ⟨hbusy, hclear⟩
    · refine Or.inl ⟨d.tells ++ earlier, mode, n, body, ?_, hbody⟩
      rw [tellsAll_cons, heq, List.append_assoc]
    · rcases hd.goes_back with hon | ⟨level, rfl, hidle⟩ | ⟨mode, queue, rfl, rfl⟩
      · refine Or.inr ⟨mt (hd.idle hon) hbusy, ?_⟩
        exact List.forall_mem_append.mpr ⟨fun e he => (hd.goes_on hon e he).1, hclear⟩
      · exact absurd hidle hbusy
      · exact Or.inl ⟨[_], mode, _, tellsAll ds, rfl, hclear⟩

/-- What is told before the next reset carries on what has begun. -/
theorem Deeds.until_reset (h : Deeds s ds u) :
    ∃ t, CarriesOn s ((tellsAll ds).takeWhile fun e => !e.isReset) t := by
  induction h with
  | nil s => exact ⟨s, .refl s⟩
  | @cons s d t ds u hd _ ih =>
    rcases hd.goes_back with hon | ⟨level, rfl, _⟩ | ⟨mode, queue, rfl, _⟩
    · obtain ⟨v, hv⟩ := ih
      have hclear : ∀ e ∈ d.tells, (!e.isReset) = true := by
        intro e he
        rw [(hd.goes_on hon e he).1]
        rfl
      rw [tellsAll_cons, List.takeWhile_append_of_pos hclear]
      exact ⟨v, Chain.head (.does hd hon) hv⟩
    · exact ⟨s, .refl s⟩
    · exact ⟨s, .refl s⟩

namespace Session

def todo (s : Session) : List (Command × Nat) :=
  if s.status = .running ∧ s.run.collided = false then
    (s.run.queue.drop s.run.cursor).zipIdx s.run.cursor
  else []

/-- The announcement, if it is still to come. -/
def upcoming (s : Session) : List Event :=
  if s.status = .completed ∧ s.agenda.pending ≠ [] then [.curriculumCompleted] else []

theorem todo_of_rest (rest : s.status ≠ .running) : s.todo = [] := by
  simp [todo, rest]

theorem upcoming_conclude (s : Session) :
    s.conclude.session.upcoming <+:
      if s.verdict = .success then [.curriculumCompleted] else [] := by
  by_cases hv : s.verdict = .success
  · rw [if_pos hv, upcoming]
    split
    · exact List.prefix_rfl
    · exact List.nil_prefix
  · have hhalted : s.conclude.session.status = .halted := by
      simp [conclude_session, closed, hv]
    simp [upcoming, hhalted]

end Session

theorem Does.commands (h : Does s d t) (on : d.restarts = false) :
    d.tells.filterMap Event.applied? ++ t.todo <+: s.todo := by
  cases h with
  | @command c said running free _ next _ fits =>
    obtain ⟨hlt, rfl⟩ := List.getElem?_eq_some_iff.mp next
    obtain ⟨_, _, hsaid, _⟩ := Event.of_said fits
    -- The command stands first among those to do, so both lists lose it together.
    have htodo : s.todo = (s.run.queue[s.run.cursor], s.run.cursor) ::
        (s.run.queue.drop (s.run.cursor + 1)).zipIdx (s.run.cursor + 1) := by
      rw [Session.todo, if_pos ⟨running, free⟩, List.drop_eq_getElem_cons hlt, List.zipIdx_cons]
    have htells : (Deed.command s.run.cursor s.run.queue[s.run.cursor]
        (s.rocket.apply s.level s.run.queue[s.run.cursor]).outcome said).tells.filterMap
          Event.applied? = [(s.run.queue[s.run.cursor], s.run.cursor)] :=
      List.filterMap_cons_none (Event.ofRun_eq_false.mp hsaid).1
    rw [htells, htodo, List.singleton_append, List.prefix_cons_inj, (Session.applyNext_eq next).1,
      Session.todo]
    split
    · exact List.prefix_rfl
    · exact List.nil_prefix
  | judge =>
    rw [Session.todo_of_rest s.status_conclude_ne]
    cases s.solves? <;> exact List.nil_prefix
  | reset | load | launch => cases on
  | _ => exact List.prefix_rfl

theorem CarriesOn.commands (h : CarriesOn s es t) : es.filterMap Event.applied? <+: s.todo := by
  induction h with
  | refl => exact List.nil_prefix
  | head h _ ih =>
    obtain ⟨hd, on⟩ := h
    rw [List.filterMap_append]
    exact ((List.prefix_append_right_inj _).mpr ih).trans (hd.commands on)

theorem Does.todo_eq_nil {e : Event} (h : Does s d t) (he : e ∈ d.tells) (stops : e.stops = true) :
    t.todo = [] := by
  cases h with
  | command _ _ _ next _ fits =>
    rcases List.mem_cons.mp he with rfl | he
    · obtain ⟨_, _, _, hgoes, _⟩ := Event.of_said fits
      rw [hgoes] at stops
      cases stops
    · rw [List.mem_singleton.mp he] at stops
      have hblocked := of_decide_eq_true stops
      rw [(Session.applyNext_eq next).1]
      simp [Session.todo, hblocked]
  | judge => exact Session.todo_of_rest s.status_conclude_ne
  | wait | settle => cases he
  | announce | ignore | refuse | reset | load =>
    rw [List.mem_singleton.mp he] at stops
    cases stops
  | launch =>
    simp only [Deed.tells, List.mem_cons, List.not_mem_nil, or_false] at he
    rcases he with rfl | rfl <;> cases stops

theorem Does.stopped (h : Does s d t) :
    d.tells.Pairwise fun e f => e.stops = true → f.applied? = none := by
  cases h with
  | command _ _ _ _ _ fits =>
    obtain ⟨_, _, _, hgoes, _⟩ := Event.of_said fits
    simp [Deed.tells, hgoes]
  | judge => cases s.solves? <;> simp [Deed.tells, Event.applied?]
  | _ => simp [Deed.tells, Event.stops]

theorem CarriesOn.stopped (h : CarriesOn s es t) :
    es.Pairwise fun e f => e.stops = true → f.applied? = none := by
  induction h with
  | refl => exact List.Pairwise.nil
  | head h k ih =>
    obtain ⟨hd, _⟩ := h
    refine List.pairwise_append.mpr ⟨hd.stopped, ih, ?_⟩
    intro e he f hf stops
    have hnone := CarriesOn.commands k
    rw [hd.todo_eq_nil he stops, List.prefix_nil] at hnone
    exact List.filterMap_eq_nil_iff.mp hnone f hf

theorem Does.judges_or_goes (h : Does s d t) (on : d.restarts = false)
    (running : s.status = .running) :
    d = .judge s.verdict s.solves? ∧ t = s.conclude.session ∨
      t.status = .running ∧ ∀ e ∈ d.tells, e.isEnding = false := by
  cases h with
  | wait | settle => exact Or.inr ⟨running, List.forall_mem_nil _⟩
  | ignore => exact Or.inr ⟨running, List.forall_mem_singleton.mpr rfl⟩
  | command _ _ _ _ _ fits =>
    obtain ⟨_, _, hsaid, _⟩ := Event.of_said fits
    refine Or.inr ⟨s.status_applyNext.trans running, ?_⟩
    intro e he
    rcases List.mem_cons.mp he with rfl | he
    · exact (Event.ofRun_eq_false.mp hsaid).2
    · rw [List.mem_singleton.mp he]
      rfl
  | judge => exact Or.inl ⟨rfl, rfl⟩
  | announce completed =>
    rw [running] at completed
    cases completed
  | refuse rest => exact absurd running rest
  | reset | load | launch => cases on

theorem Does.announces (h : Does s d t) (on : d.restarts = false) (rest : s.status ≠ .running) :
    t.status ≠ .running ∧ d.tells.filter Event.isEnding ++ t.upcoming <+: s.upcoming := by
  cases h with
  | wait running | command running | judge running | ignore running => exact absurd running rest
  | settle | refuse => exact ⟨rest, List.prefix_rfl⟩
  | announce completed due clear =>
    refine ⟨rest, ?_⟩
    simp [Deed.tells, Event.isEnding, Session.upcoming, completed, due, clear]
  | reset | load | launch => cases on

theorem CarriesOn.announced (h : CarriesOn s es t) (rest : s.status ≠ .running) :
    es.filter Event.isEnding <+: s.upcoming := by
  induction h with
  | refl => exact List.nil_prefix
  | head h _ ih =>
    obtain ⟨hd, on⟩ := h
    obtain ⟨hrest, hprefix⟩ := hd.announces on rest
    rw [List.filter_append]
    exact ((List.prefix_append_right_inj _).mpr (ih hrest)).trans hprefix

/-- A run that has been judged stays so until a level is reset. -/
theorem CarriesOn.rests (h : CarriesOn s es t) (rest : s.status ≠ .running) :
    t.status ≠ .running := by
  induction h with
  | refl => exact rest
  | head h _ ih =>
    obtain ⟨hd, on⟩ := h
    exact ih (hd.announces on rest).1

/-- A verdict is told when a run ends, and at no other time. -/
theorem CarriesOn.judges_iff (h : CarriesOn s es t) :
    (∃ v, .goalEvaluated v ∈ es) ↔ s.status = .running ∧ t.status ≠ .running := by
  have hending : ∀ {es : List Event}, (∀ e ∈ es, e.isEnding = false) →
      ¬ ∃ v, .goalEvaluated v ∈ es := by
    rintro es hgoing ⟨v, hv⟩
    cases hgoing _ hv
  induction h with
  | refl => simp
  | @head s es t fs u h k ih =>
    obtain ⟨hd, on⟩ := h
    by_cases running : s.status = .running
    · rcases hd.judges_or_goes on running with ⟨rfl, rfl⟩ | ⟨hrunning, hgoing⟩
      · have hrest := CarriesOn.rests k s.status_conclude_ne
        refine iff_of_true ⟨s.verdict, ?_⟩ ⟨running, hrest⟩
        exact List.mem_append_left _ (List.mem_cons_self ..)
      · have hnone := hending hgoing
        rw [not_exists] at hnone
        simp only [List.mem_append, hnone, false_or, ih, hrunning, running]
    · refine iff_of_false ?_ (fun h => running h.1)
      rintro ⟨v, hv⟩
      have hprefix := (CarriesOn.announced (Chain.head (.does hd on) k) running).subset
        (List.mem_filter.mpr ⟨hv, rfl⟩)
      rw [Session.upcoming] at hprefix
      split at hprefix
      · cases List.mem_singleton.mp hprefix
      · cases hprefix

theorem Session.deserves {id : UInt32} (h : s.solves? = some id) : s.verdict = .success := by
  by_contra hv
  simp [solves?, hv] at h

theorem CarriesOn.judged (h : CarriesOn s es t) (running : s.status = .running) : Judged es := by
  induction h with
  | refl => exact .notYet (by simp)
  | @head s es t fs u h k ih =>
    obtain ⟨hd, on⟩ := h
    rcases hd.judges_or_goes on running with ⟨rfl, rfl⟩ | ⟨hrunning, hgoing⟩
    · have hnone : ∀ e ∈ ([] : List Event), e.isEnding = false := List.forall_mem_nil _
      have hafter := (CarriesOn.announced k s.status_conclude_ne).trans s.upcoming_conclude
      have hdeserved : s.solves? ≠ none → s.verdict = .success := by
        intro hsolves
        obtain ⟨id, hid⟩ := Option.ne_none_iff_exists'.mp hsolves
        exact Session.deserves hid
      have hone := Judged.once hnone s.verdict_ne_pending hdeserved hafter
      simpa [Deed.tells] using hone
    · exact (ih hrunning).prepend hgoing

theorem CarriesOn.tellsRun {mode : RunMode} {queue : List Command}
    (h : CarriesOn (s.launched mode queue) es t) :
    TellsRun (mode, queue) (.runStarted mode queue.length :: es) := by
  have hstart : ∀ e ∈ [Event.runStarted mode queue.length], e.isEnding = false :=
    List.forall_mem_singleton.mpr rfl
  constructor
  · rfl
  · exact h.commands
  · exact List.pairwise_cons.mpr ⟨by simp [Event.stops], h.stopped⟩
  · exact (CarriesOn.judged h rfl).prepend hstart

theorem Deeds.tellsRuns (h : Deeds s ds t) :
    List.Forall₂ TellsRun (ds.filterMap Deed.begun?) (segments (tellsAll ds)) := by
  induction h with
  | nil => exact .nil
  | @cons s d t ds u hd k ih =>
    rcases hd.goes_back with hon | ⟨level, rfl, _⟩ | ⟨mode, queue, rfl, rfl⟩
    · rw [List.filterMap_cons_none (Deed.begun?_eq_none hon), tellsAll_cons,
        segments_append fun e he => (hd.goes_on hon e he).2]
      exact ih
    · exact ih
    · obtain ⟨v, hv⟩ := k.until_reset
      exact .cons (CarriesOn.tellsRun hv) ih

/-- The log of every session, from its creation and whatever is asked of it. -/
theorem Session.requests_chronicle (c : Curriculum) (p : Pacing) (rs : List Request) :
    Chronicle ((Session.new c p).runsBegun rs) ((Session.new c p).handleAll rs).events := by
  obtain ⟨ds, hds, htold, hbegun⟩ := (new_coherent c p).deeds rs
  rw [← htold, ← hbegun]
  constructor
  · intro before mode n after hlog
    obtain ⟨ds', t, d, v, es, fs, _, hd, rfl, htells⟩ := hds.tells_eq hlog
    exact ⟨tellsAll ds', t.level.id, by rw [hd.fresh htells]⟩
  · intro before e after hlog hrun
    obtain ⟨ds', t, d, v, es, fs, hds', hd, rfl, htells⟩ := hds.tells_eq hlog
    have hmem : e ∈ d.tells := by simp [htells]
    obtain ⟨hbusy, hon⟩ := hd.busy hmem hrun
    have hclear : ∀ f ∈ es, f.isReset = false := by
      intro f hf
      have hf' : f ∈ d.tells := by simp [htells, hf]
      exact (hd.goes_on hon f hf').1
    rcases hds'.inRun hbusy with hin | ⟨hnew, _⟩
    · exact hin.append hclear
    · exact absurd rfl hnew
  · exact hds.said
  · exact hds.tellsRuns

/-- A run that solves the last level. -/
example :
    ((Session.new corridors {}).handleAll
      [.runAll (.commands [.move, .move]), .advance (.ofMillis 9000)]).events =
      [.levelReset 1, .runStarted .paced 2,
        .characterMoved ⟨0, 1⟩ ⟨1, 1⟩, .commandApplied 0 .move .moved,
        .characterMoved ⟨1, 1⟩ ⟨2, 1⟩, .commandApplied 1 .move .moved,
        .goalEvaluated .success, .levelCompleted 1, .runHalted, .curriculumCompleted] := by
  decide +kernel

end RocketPuzzle
