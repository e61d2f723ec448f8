import Mathlib.Data.List.Induction
import RocketPuzzle.Proofs.Chronicle
import RocketPuzzle.Proofs.Modes
import RocketPuzzle.Proofs.Retrace
import RocketPuzzle.Proofs.Slicing

/-! # Step by step

A player who asks for the steps one by one gets one command for each request. The first step alone
waits for the clock. If it still waits when the second is asked for, both are taken then, so that
from the second request on nothing is left of when the first was taken. What the requests come to is
a walk that knows of no clock.
-/
namespace RocketPuzzle

/-- Requests for one step after the other, with time that passes before each but the first. -/
def Request.walk (source : Source) (gaps : List (List Duration × Source)) : List Request :=
  .step source :: gaps.flatMap fun g => g.1.map .advance ++ [.step g.2]

namespace Session

/-- So many steps, without a clock. -/
def footsteps (s : Session) : Nat → Effect
  | 0 => { session := s.still }
  | n + 1 => (s.footsteps n).andThen fun t =>
      { t.executeStep with session := t.executeStep.session.still }

/-- The first `g` commands of the queue meet no wall. -/
structure Unhindered (s : Session) (queue : List Command) (g : Nat) : Prop where
  bound : g ≤ queue.length
  clear : .blocked ∉ ((Rocket.atStart s.level).outcomes s.level queue).take g

/-- Since the run was begun as `s`, `es` has been told, and `m` steps have been taken. -/
structure Afoot (s : Session) (m : Nat) (es : List Event) (t : Session) : Prop where
  still : t.still = (s.footsteps m).session
  told : es = (s.footsteps m).events

end Session

variable {s t : Session} {queue : List Command} {g m n : Nat} {es : List Event}

theorem Rocket.outcomes_take (l : Level) (r : Rocket) (cs : List Command) (n : Nat) :
    r.outcomes l (cs.take n) = (r.outcomes l cs).take n := by
  induction cs generalizing r n with
  | nil => simp [outcomes]
  | cons c rest ih =>
    cases n with
    | zero => rfl
    | succ n => rw [List.take_succ_cons, outcomes, outcomes, List.take_succ_cons, ih]

namespace Session

theorem applyNext_still (s : Session) :
    s.still.applyNext.events = s.applyNext.events ∧
      s.still.applyNext.session = s.applyNext.session.still := by
  unfold applyNext still
  dsimp only
  split <;> exact ⟨rfl, rfl⟩

theorem still_conclude (s : Session) : s.conclude.session.still = (s.closed s.verdict).still := by
  rw [conclude_session]
  split <;> rfl

/-- What a step does has nothing to do with the clock. -/
theorem executeStep_still (s : Session) :
    s.still.executeStep.events = s.executeStep.events ∧
      s.still.executeStep.session.still = s.executeStep.session.still := by
  have hconclude : ∀ t : Session, t.still.conclude.events = t.conclude.events ∧
      t.still.conclude.session.still = t.conclude.session.still := by
    intro t
    rw [conclude_events, conclude_events, still_conclude, still_conclude]
    exact ⟨rfl, rfl⟩
  obtain ⟨htold, happlied⟩ := s.applyNext_still
  have hrun : s.still.run = s.run := rfl
  rw [executeStep, executeStep, hrun]
  by_cases hover : s.run.isOver = true
  · rw [if_pos hover, if_pos hover]
    exact hconclude s
  · rw [if_neg hover, if_neg hover]
    have hcollided : s.applyNext.session.still.run.collided = s.applyNext.session.run.collided := rfl
    simp only [Effect.andThen, htold, happlied, hcollided]
    by_cases hblocked : s.applyNext.session.run.collided = true
    · obtain ⟨hevents, hsession⟩ := hconclude s.applyNext.session
      rw [if_pos hblocked, if_pos hblocked, hevents]
      exact ⟨rfl, hsession⟩
    · rw [if_neg hblocked, if_neg hblocked]
      exact ⟨rfl, rfl⟩

theorem executeStep_of_free (more : s.run.isOver = false)
    (free : s.applyNext.session.run.collided = false) : s.executeStep = s.applyNext := by
  rw [executeStep, if_neg (by simp [more])]
  simp only [Effect.andThen, free, Bool.false_eq_true, if_false, List.append_nil]

theorem cursor_executeStep (more : s.run.isOver = false) :
    s.executeStep.session.run.cursor = s.run.cursor + 1 := by
  obtain ⟨_, hlt⟩ := Run.isOver_eq_false.mp more
  have hnext := (applyNext_eq (List.getElem?_eq_getElem hlt)).1
  rw [executeStep, if_neg (by simp [more])]
  simp only [Effect.andThen]
  split
  · rw [run_conclude, hnext]
  · rw [hnext]

theorem OnTrack.free (h : s.OnTrack) (clear : .blocked ∉ s.outcomes) : s.run.collided = false := by
  obtain ⟨_, _, hall⟩ := h.clear
  cases hcollided : s.run.collided with
  | false => rfl
  | true =>
    rw [hall, hcollided] at clear
    simp at clear

/-- Where a walk has come after `m` steps that met no wall. -/
structure Strolls (s : Session) (queue : List Command) (m : Nat) (t : Session) : Prop where
  underway : t.Underway
  track : t.OnTrack
  run : t.run = { queue, cursor := m, mode := some .stepped }
  level : t.level = s.level

theorem Strolls.more (h : s.Strolls queue m t) (hm : m < queue.length) : t.run.isOver = false := by
  rw [h.run, Run.isOver_eq_false]
  exact ⟨rfl, hm⟩

theorem Strolls.still (h : s.Strolls queue m t) : s.Strolls queue m t.still where
  underway := ⟨h.underway.status, h.underway.running, h.underway.unsolved, h.underway.queue,
    h.underway.cursor⟩
  track := ⟨h.track.cursor_le, h.track.bare, h.track.clear⟩
  run := h.run
  level := h.level

theorem Strolls.of_still (h : s.Strolls queue m t.still) : s.Strolls queue m t where
  underway := ⟨h.underway.status, h.underway.running, h.underway.unsolved, h.underway.queue,
    h.underway.cursor⟩
  track := ⟨h.track.cursor_le, h.track.bare, h.track.clear⟩
  run := h.run
  level := h.level

theorem Strolls.next (h : s.Strolls queue m t) (u : s.Unhindered queue g) (hm : m < g) :
    s.Strolls queue (m + 1) t.executeStep.session ∧ t.executeStep = t.applyNext := by
  have hmore := h.more (Nat.lt_of_lt_of_le hm u.bound)
  obtain ⟨hfree, hlt⟩ := Run.isOver_eq_false.mp hmore
  have hsession := (applyNext_eq (List.getElem?_eq_getElem hlt)).1
  have htrack := h.track.applyNext hfree h.underway.unsolved (List.getElem?_eq_getElem hlt)
  have hlevel : t.applyNext.session.level = s.level := by
    rw [hsession]
    exact h.level
  have hrun : t.applyNext.session.run =
      { t.run with
        cursor := t.run.cursor + 1, collided := t.applyNext.session.run.collided } := by
    rw [hsession]
  rw [h.run] at hrun
  have hclear : .blocked ∉ t.applyNext.session.outcomes := by
    rw [outcomes, done, hlevel, hrun, Rocket.outcomes_take]
    exact fun hmem => u.clear (List.take_subset_take_left _ hm hmem)
  rw [htrack.free hclear] at hrun
  have hstep := executeStep_of_free hmore (htrack.free hclear)
  refine ⟨?_, hstep⟩
  rw [hstep]
  exact ⟨h.underway.applyNext hlt, htrack, hrun, hlevel⟩

theorem strolls_footsteps (nonempty : queue ≠ []) (u : s.Unhindered queue g) (hm : m ≤ g) :
    s.Strolls queue m ((s.launched .stepped queue).footsteps m).session := by
  induction m with
  | zero =>
    have hbegun : s.Strolls queue 0 (s.launched .stepped queue) :=
      ⟨⟨rfl, rfl, rfl, nonempty, Nat.zero_le _⟩, onTrack_atStart rfl rfl rfl, rfl, rfl⟩
    exact hbegun.still
  | succ m ih => exact ((ih (Nat.le_of_succ_le hm)).next u hm).1.still

theorem Afoot.executeStep (h : s.Afoot m es t) :
    s.Afoot (m + 1) (es ++ t.executeStep.events) t.executeStep.session := by
  obtain ⟨htold, hsession⟩ := t.executeStep_still
  constructor
  · rw [← hsession, h.still]
    rfl
  · rw [← htold, h.still, h.told]
    rfl

theorem Afoot.stepNow (h : s.Afoot m es t) :
    s.Afoot (m + 1) (es ++ t.stepNow.events) t.stepNow.session :=
  Afoot.executeStep (t := { t with agenda := t.agenda.cancelAll }) ⟨h.still, h.told⟩

theorem Afoot.strolls (h : (s.launched .stepped queue).Afoot m es t) (nonempty : queue ≠ [])
    (u : s.Unhindered queue g) (hm : m ≤ g) : s.Strolls queue m t := by
  have hstrolls := strolls_footsteps nonempty u hm
  rw [← h.still] at hstrolls
  exact hstrolls.of_still

/-- Only the first step is ever left to the clock. -/
theorem Afoot.waits (h : (s.launched .stepped queue).Afoot m es t) (c : t.Coherent)
    (nonempty : queue ≠ []) (u : s.Unhindered queue g) (hm : m ≤ g) :
    m = 0 ∧ (∃ w, t.agenda.pending = [w] ∧ w.payload = .step) ∨
      1 ≤ m ∧ t.agenda.pending = [] := by
  have hstrolls := h.strolls nonempty u hm
  have hrun := hstrolls.run
  obtain ⟨_, ⟨w, hpending, hpayload, hcursor⟩ | ⟨hclear, hcursor⟩⟩ :=
    c.stepped hstrolls.underway.status (by rw [hrun])
  · rw [hrun] at hcursor
    exact Or.inl ⟨hcursor, w, hpending, hpayload⟩
  · rw [hrun] at hcursor
    exact Or.inr ⟨hcursor, hclear⟩

theorem Afoot.advance (h : (s.launched .stepped queue).Afoot m es t) (c : t.Coherent)
    (nonempty : queue ≠ []) (u : s.Unhindered queue g) (hm : m ≤ g) (hg : 1 ≤ g)
    (dt : Duration) :
    ∃ k, (k = m ∨ m = 0 ∧ k = 1) ∧
      (s.launched .stepped queue).Afoot k (es ++ (t.advance dt).events) (t.advance dt).session := by
  cases hdue : t.agenda.popDue (t.agenda.now + dt) with
  | none =>
    refine ⟨m, Or.inl rfl, ?_⟩
    rw [Session.advance, runTo_of_none hdue, List.append_nil]
    exact ⟨h.still, h.told⟩
  | some r =>
    obtain ⟨w, agenda⟩ := r
    obtain ⟨_, hpending, hclear⟩ := c.awaits hdue
    rcases h.waits c nonempty u hm with ⟨rfl, v, hv, hstep⟩ | ⟨_, hnone⟩
    · obtain rfl : w = v := List.singleton_inj.mp (hpending.symm.trans hv)
      have hbegun : (s.launched .stepped queue).Afoot 0 es { t with agenda } := ⟨h.still, h.told⟩
      have hfirst := hbegun.executeStep
      have hrunning := (hfirst.strolls nonempty u hg).underway.status
      have hquiet : (Session.executeStep { t with agenda }).session.agenda.pending = [] := by
        rw [agenda_executeStep hrunning, hclear]
      have hadvance : t.advance dt =
          (t.fireTimer w agenda).andThen (runTo (t.agenda.now + dt)) := runTo_of_some hdue
      have hfired : (t.fireTimer w agenda).session = (Session.executeStep { t with agenda }).session ∧
          (t.fireTimer w agenda).events = (Session.executeStep { t with agenda }).events := by
        simp only [fireTimer, hstep, Session.fire, and_self]
      have hrest := Agenda.popDue_of_nil hquiet (t.agenda.now + dt)
      refine ⟨1, Or.inr ⟨rfl, rfl⟩, ?_⟩
      rw [hadvance]
      simp only [Effect.andThen, hfired.1, hfired.2, runTo_of_none hrest, List.append_nil]
      exact ⟨hfirst.still, hfirst.told⟩
    · rw [hnone] at hpending
      cases hpending

theorem Afoot.advances (h : (s.launched .stepped queue).Afoot m es t) (c : t.Coherent)
    (nonempty : queue ≠ []) (u : s.Unhindered queue g) (hm : m ≤ g) (hg : 1 ≤ g)
    (spans : List Duration) :
    ∃ k, (k = m ∨ m = 0 ∧ k = 1) ∧
      (s.launched .stepped queue).Afoot k (es ++ (t.handleAll (spans.map .advance)).events)
        (t.handleAll (spans.map .advance)).session := by
  cases spans with
  | nil =>
    refine ⟨m, Or.inl rfl, h.still, ?_⟩
    exact (List.append_nil es).trans h.told
  | cons d rest =>
    rw [t.handleAll_advance d rest]
    exact h.advance c nonempty u hm hg _

/-- A step that is asked for is the next one, and where the first one waits it is the first two. -/
theorem Afoot.step (h : (s.launched .stepped queue).Afoot m es t) (c : t.Coherent)
    (nonempty : queue ≠ []) (u : s.Unhindered queue g) (hm : m ≤ g) (hg : 1 ≤ g)
    (source : Source) :
    m = 0 ∧ t.agenda.pending ≠ [] ∧
        t.step source = t.stepNow.andThen Session.executeStep ∨
      1 ≤ m ∧ t.agenda.pending = [] ∧ t.step source = t.executeStep := by
  have hstrolls := h.strolls nonempty u hm
  have hstep : t.step source = t.stepOn := by
    rw [Session.step, if_pos hstrolls.underway.status, if_pos (by rw [hstrolls.run])]
  rcases h.waits c nonempty u hm with ⟨rfl, w, hpending, _⟩ | ⟨hbegun, hclear⟩
  · have hwaits : t.agenda.pending ≠ [] := by simp [hpending]
    have hgoes := (h.stepNow.strolls nonempty u hg).underway.status
    refine Or.inl ⟨rfl, hwaits, ?_⟩
    rw [hstep, stepOn_of_waiting hwaits]
    exact Effect.andThen_congr (if_pos hgoes)
  · exact Or.inr ⟨hbegun, hclear, hstep.trans (stepOn_of_clear hclear)⟩

/-- A walk after `k` requests for a step, and perhaps some time. Only after the first of them it may
be that its step has not been taken. -/
structure Walked (s : Session) (queue : List Command) (k : Nat) (e : Effect) : Prop where
  begun : 1 ≤ k
  coherent : e.session.Coherent
  afoot : ∃ m es, (m = k ∨ k = 1 ∧ m = 0) ∧
    e.events = [.levelReset s.level.id, .runStarted .stepped queue.length] ++ es ∧
    (s.launched .stepped queue).Afoot m es e.session

variable {source : Source} {k : Nat} {e : Effect}

theorem walked_first (idle : s.status ≠ .running) (nonempty : source.queue ≠ []) :
    s.Walked source.queue 1 (s.step source) := by
  obtain ⟨hsession, hevents⟩ := step_eq idle nonempty
  constructor
  · exact Nat.le_refl 1
  · rw [hsession]
    exact s.launched_coherent .stepped nonempty
  · refine ⟨0, [], Or.inr ⟨rfl, rfl⟩, hevents, ?_⟩
    rw [hsession]
    exact ⟨rfl, rfl⟩

theorem Walked.wait (h : s.Walked queue k e) (nonempty : queue ≠ []) (u : s.Unhindered queue g)
    (hk : k ≤ g) (spans : List Duration) :
    s.Walked queue k (e.andThen fun t => t.handleAll (spans.map .advance)) := by
  have hbegun := h.begun
  obtain ⟨m, es, hm, hevents, hafoot⟩ := h.afoot
  obtain ⟨l, hl, hlater⟩ :=
    hafoot.advances h.coherent nonempty u (by omega) (by omega) spans
  refine ⟨hbegun, h.coherent.handleAll _, l, _, by omega, ?_, hlater⟩
  simp only [Effect.andThen, hevents, List.append_assoc]

theorem Walked.step (h : s.Walked queue k e) (nonempty : queue ≠ []) (u : s.Unhindered queue g)
    (hk : k ≤ g) (source : Source) :
    s.Walked queue (k + 1) (e.andThen fun t => t.step source) := by
  have hbegun := h.begun
  obtain ⟨m, es, hm, hevents, hafoot⟩ := h.afoot
  suffices hnext : ∃ l, l = k + 1 ∧ (s.launched .stepped queue).Afoot l
      (es ++ (e.session.step source).events) (e.session.step source).session by
    obtain ⟨l, hl, hnext⟩ := hnext
    refine ⟨Nat.le_add_left 1 k, h.coherent.request (.step source), l, _, Or.inl hl, ?_, hnext⟩
    simp only [Effect.andThen, hevents, List.append_assoc]
  rcases hafoot.step h.coherent nonempty u (by omega) (by omega) source with
    ⟨rfl, _, hstep⟩ | ⟨hsome, _, hstep⟩
  -- The first step has waited for the second, and both are taken at once.
  · have hboth := hafoot.stepNow.executeStep
    rw [hstep]
    refine ⟨2, by omega, hboth.still, ?_⟩
    rw [← hboth.told, List.append_assoc]
    rfl
  · rw [hstep]
    exact ⟨m + 1, by omega, hafoot.executeStep⟩

theorem walk_concat (source : Source) (gaps : List (List Duration × Source))
    (spans : List Duration) (last : Source) :
    Request.walk source (gaps ++ [(spans, last)]) =
      Request.walk source gaps ++ (spans.map .advance ++ [.step last]) := by
  simp [Request.walk]

theorem handleAll_walk_concat (s : Session) (source : Source)
    (gaps : List (List Duration × Source)) (spans : List Duration) (last : Source) :
    s.handleAll (Request.walk source (gaps ++ [(spans, last)])) =
      (s.handleAll (Request.walk source gaps ++ spans.map .advance)).andThen
        fun t => t.step last := by
  rw [walk_concat, ← List.append_assoc, handleAll_append]
  congr 1
  funext t
  exact Effect.andThen_stay

theorem walked (idle : s.status ≠ .running) (nonempty : source.queue ≠ [])
    (u : s.Unhindered source.queue g) (gaps : List (List Duration × Source))
    (hg : gaps.length ≤ g) :
    s.Walked source.queue (gaps.length + 1) (s.handleAll (Request.walk source gaps)) := by
  induction gaps using List.reverseRecOn with
  | nil =>
    have hfirst : s.handleAll (Request.walk source []) = s.step source := Effect.andThen_stay
    rw [hfirst]
    exact walked_first idle nonempty
  | append_singleton init gap ih =>
    obtain ⟨spans, last⟩ := gap
    rw [List.length_append, List.length_singleton] at hg ⊢
    have hinit := ih (Nat.le_of_succ_le hg)
    rw [handleAll_walk_concat, handleAll_append]
    exact (hinit.wait nonempty u hg spans).step nonempty u hg last

/-- The last request of a walk that has one more than there are commands. Only where there is one
command, and it waits still, is it applied on that occasion. -/
structure Concludes (t : Session) (source : Source) (queue : List Command) : Prop where
  judged : ∃ v, .goalEvaluated v ∈ (t.step source).events
  applied : (t.step source).events.filterMap Event.applied? =
    if t.agenda.pending = [] then [] else queue.zipIdx
  waiting : t.agenda.pending ≠ [] → queue.length = 1

/-- What the requests for steps come to, the first with this source, in all kinds of time. -/
structure Stepwise (s : Session) (source : Source) (gaps : List (List Duration × Source)) :
    Prop where
  cursor : ∀ j, 1 ≤ j → j ≤ gaps.length → j < source.queue.length →
    (s.handleAll (Request.walk source (gaps.take j))).session.run.cursor = j + 1
  concludes : ∀ init spans last, gaps = init ++ [(spans, last)] →
    gaps.length = source.queue.length →
      (s.handleAll (Request.walk source init ++ spans.map .advance)).session.Concludes last
        source.queue
  told : ∀ other gaps', other.queue = source.queue → gaps'.length = gaps.length →
    (s.handleAll (Request.walk other gaps')).events = (s.handleAll (Request.walk source gaps)).events

theorem Walked.footsteps (h : s.Walked queue (k + 2) e) :
    e.events = [.levelReset s.level.id, .runStarted .stepped queue.length] ++
        ((s.launched .stepped queue).footsteps (k + 2)).events ∧
      e.session.still = ((s.launched .stepped queue).footsteps (k + 2)).session := by
  obtain ⟨m, es, hm, hevents, hafoot⟩ := h.afoot
  obtain rfl : m = k + 2 := by omega
  rw [hevents, hafoot.told, hafoot.still]
  exact ⟨rfl, rfl⟩

theorem applied_applyNext {c : Command} (unsolved : s.rocket.completed = false)
    (next : s.run.queue[s.run.cursor]? = some c) :
    s.applyNext.events.filterMap Event.applied? = [(c, s.run.cursor)] := by
  obtain ⟨said, htold, hfits⟩ := Rocket.events_apply unsolved s.level c
  obtain ⟨_, _, hsaid, _⟩ := Event.of_said hfits
  rw [(applyNext_eq next).2, htold, List.singleton_append,
    List.filterMap_cons_none (Event.ofRun_eq_false.mp hsaid).1]
  rfl

theorem applied_conclude (s : Session) :
    (∃ v, .goalEvaluated v ∈ s.conclude.events) ∧
      s.conclude.events.filterMap Event.applied? = [] := by
  rw [conclude_events, closing]
  refine ⟨⟨_, List.mem_cons_self ..⟩, ?_⟩
  split <;> rfl

theorem Strolls.concludes (h : s.Strolls queue queue.length t) : t.executeStep = t.conclude := by
  have hover : t.run.isOver = true := by simp [h.run, Run.isOver, Run.exhausted]
  rw [Session.executeStep, if_pos hover]

theorem Walked.concludes (h : s.Walked queue queue.length e) (nonempty : queue ≠ [])
    (u : s.Unhindered queue queue.length) (last : Source) : e.session.Concludes last queue := by
  have hbegun := h.begun
  obtain ⟨m, es, hm, _, hafoot⟩ := h.afoot
  rcases hafoot.step h.coherent nonempty u (by omega) hbegun last with
    ⟨rfl, hwaits, hstep⟩ | ⟨hsome, hclear, hstep⟩
  · have hone : queue.length = 1 := by omega
    obtain ⟨c, rfl⟩ := List.length_eq_one_iff.mp hone
    have hbefore : s.Strolls [c] 0 { e.session with agenda := e.session.agenda.cancelAll } :=
      .of_still (hafoot.strolls nonempty u (Nat.zero_le _)).still
    have hnext := applied_applyNext (c := c) hbefore.underway.unsolved (by rw [hbefore.run]; rfl)
    rw [← (hbefore.next u hbegun).2, hbefore.run] at hnext
    have hfirst : e.session.stepNow.events.filterMap Event.applied? = [(c, 0)] := hnext
    have hlast := (hafoot.stepNow.strolls nonempty u hbegun).concludes
    obtain ⟨⟨v, hv⟩, hnone⟩ := e.session.stepNow.session.applied_conclude
    have htold : (e.session.step last).events =
        e.session.stepNow.events ++ e.session.stepNow.session.conclude.events := by
      rw [hstep, ← hlast]
      rfl
    constructor
    · exact ⟨v, by simp [htold, hv]⟩
    · rw [htold, List.filterMap_append, hfirst, hnone, if_neg hwaits]
      rfl
    · exact fun _ => hone
  · obtain rfl : m = queue.length := by omega
    have hstrolls := hafoot.strolls nonempty u (Nat.le_refl _)
    obtain ⟨hjudged, hnone⟩ := e.session.applied_conclude
    rw [← hstrolls.concludes, ← hstep] at hjudged hnone
    constructor
    · exact hjudged
    · rw [hnone, if_pos hclear]
    · exact fun hwaits => absurd hclear hwaits

/-- A walk goes one command for each request, from the second on, and nobody can tell from the
events when the first was taken. -/
theorem steps_take_turns (s : Session) (source : Source) (gaps : List (List Duration × Source))
    (idle : s.status ≠ .running) (later : gaps ≠ [])
    (u : s.Unhindered source.queue gaps.length) : s.Stepwise source gaps := by
  have hsome : 0 < gaps.length := List.length_pos_iff.mpr later
  have hbound := u.bound
  have nonempty : source.queue ≠ [] := List.length_pos_iff.mp (Nat.lt_of_lt_of_le hsome hbound)
  constructor
  · intro j hj hjg hjn
    have hlength : (gaps.take j).length = j := List.length_take_of_le hjg
    have hwalked := walked idle nonempty u (gaps.take j) (by omega)
    obtain ⟨i, rfl⟩ := Nat.exists_eq_add_of_le' hj
    rw [hlength] at hwalked
    have hstill := hwalked.footsteps.2
    have hstrolls := strolls_footsteps (s := s) nonempty u hjg
    have hcursor := cursor_executeStep (hstrolls.more hjn)
    rw [hstrolls.run] at hcursor
    have hrun := congrArg (fun t : Session => t.run.cursor) hstill
    exact hrun.trans hcursor
  · rintro init spans last rfl hlength
    rw [List.length_append, List.length_singleton] at hlength u
    have hinit := walked idle nonempty u init (Nat.le_succ _)
    rw [hlength] at hinit u
    have hwaited := hinit.wait nonempty u (Nat.le_refl _) spans
    rw [← handleAll_append] at hwaited
    exact hwaited.concludes nonempty u last
  · intro other gaps' hqueue hlength
    obtain ⟨i, hi⟩ := Nat.exists_eq_add_of_le' hsome
    have nonempty' : other.queue ≠ [] := by rw [hqueue]; exact nonempty
    have u' : s.Unhindered other.queue gaps.length := by rw [hqueue]; exact u
    have hthis := walked idle nonempty u gaps (Nat.le_refl _)
    have hother := walked idle nonempty' u' gaps' (Nat.le_of_eq hlength)
    rw [hlength, hqueue] at hother
    rw [hi] at hthis hother
    rw [hthis.footsteps.1, hother.footsteps.1]

theorem steps_take_turns_corridor :
    let s := Session.new corridors {}
    let source : Source := .commands [.move, .move]
    let gaps : List (List Duration × Source) :=
      [([.ofMillis 60, .ofMillis 40], source), ([.longest], .commands [])]
    s.status ≠ .running ∧ gaps ≠ [] ∧ s.Unhindered source.queue gaps.length ∧
      s.Stepwise source gaps := by
  intro s source gaps
  have hidle : s.status ≠ .running := by decide
  have hlater : gaps ≠ [] := List.cons_ne_nil _ _
  have hclear : s.Unhindered source.queue gaps.length := ⟨by decide, by decide +kernel⟩
  exact ⟨hidle, hlater, hclear, steps_take_turns s source gaps hidle hlater hclear⟩

/-- A run of one command is over with the second request, and if the first step has waited until
then, this request applies the command as well. -/
theorem last_step_may_apply :
    ¬ ∀ s, Reachable s → s.status ≠ .running → ∀ source gaps, gaps ≠ [] →
      s.Unhindered source.queue gaps.length → ∀ init spans last, gaps = init ++ [(spans, last)] →
        gaps.length = source.queue.length →
          ((s.handleAll (Request.walk source init ++ spans.map .advance)).session.step
            last).events.filterMap Event.applied? = [] := by
  intro h
  let source : Source := .commands [.move]
  have hreachable : Reachable (Session.new corridors {}) := ⟨corridors, {}, [], rfl⟩
  have hclear : (Session.new corridors {}).Unhindered source.queue 1 :=
    ⟨by decide, by decide +kernel⟩
  have hnone := h _ hreachable (by decide) source [([], source)] (List.cons_ne_nil _ _) hclear
    [] [] source rfl rfl
  revert hnone
  decide +kernel

end Session

end RocketPuzzle
