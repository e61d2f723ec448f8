import RocketPuzzle.Proofs.Rounds

/-! # What the player looks at

A play draws no frame for some of the events, even where a run begins or is judged with them. No
frame goes out of date by that: such an event never comes alone when the picture changes.
-/
namespace RocketPuzzle

open CommandLine

/-- The events for which no frame is drawn. -/
inductive Event.Quiet : Event → Prop where
  | runIgnored : Quiet .runIgnored
  | runStarted (mode : RunMode) (commands : Nat) : Quiet (.runStarted mode commands)
  | goalEvaluated (v : Verdict) : Quiet (.goalEvaluated v)
  | levelCompleted (level : UInt32) : Quiet (.levelCompleted level)
  | curriculumCompleted : Quiet .curriculumCompleted

theorem Event.quiet_iff {e : Event} : e.Quiet ↔ changesPicture e = false := by
  constructor
  · intro h
    cases h <;> rfl
  · intro h
    cases e with
    | runIgnored => exact .runIgnored
    | runStarted mode commands => exact .runStarted mode commands
    | goalEvaluated v => exact .goalEvaluated v
    | levelCompleted level => exact .levelCompleted level
    | curriculumCompleted => exact .curriculumCompleted
    | _ => cases h

/-- For none of the events a frame is drawn. -/
def Undrawn (es : List Event) : Prop := ∀ e ∈ es, e.Quiet

/-- The level and the rocket, which are all that a picture shows. -/
structure LooksLike (s t : Session) : Prop where
  level : t.level = s.level
  rocket : t.rocket = s.rocket

variable {s t u : Session} {es fs : List Event}

theorem LooksLike.refl (s : Session) : LooksLike s s := ⟨rfl, rfl⟩

theorem LooksLike.trans (h : LooksLike s t) (k : LooksLike t u) : LooksLike s u :=
  ⟨k.level.trans h.level, k.rocket.trans h.rocket⟩

theorem LooksLike.compose_eq (h : LooksLike s t) :
    Frame.compose t.level t.rocket.snapshot = .compose s.level s.rocket.snapshot := by
  rw [h.level, h.rocket]

theorem not_undrawn {e : Event} (h : e ∈ es) (drawn : changesPicture e = true) :
    ¬ Undrawn es := by
  intro hquiet
  rw [Event.quiet_iff.mp (hquiet e h)] at drawn
  cases drawn

namespace Session

theorem not_undrawn_conclude (s : Session) : ¬ Undrawn s.conclude.events := by
  have hhalted : .runHalted ∈ s.conclude.events := by simp [conclude_events, closing]
  exact not_undrawn hhalted rfl

theorem applyNext_looksLike (h : Undrawn s.applyNext.events) :
    LooksLike s s.applyNext.session := by
  cases hc : s.run.queue[s.run.cursor]? with
  | none =>
    simp only [applyNext, hc]
    exact .refl s
  | some c =>
    have happlied : .commandApplied s.run.cursor c (s.rocket.apply s.level c).outcome ∈
        s.applyNext.events := by simp [(applyNext_eq hc).2]
    exact absurd h (not_undrawn happlied rfl)

theorem executeStep_looksLike (h : Undrawn s.executeStep.events) :
    LooksLike s s.executeStep.session := by
  unfold executeStep at *
  split at h
  · exact absurd h s.not_undrawn_conclude
  · next hover =>
    rw [if_neg hover]
    obtain ⟨happlied, hjudged⟩ := List.forall_mem_append.mp h
    have hsame := applyNext_looksLike happlied
    dsimp only [Effect.andThen] at hjudged ⊢
    split at hjudged
    · exact absurd hjudged (not_undrawn_conclude _)
    · next hfree =>
      rw [if_neg hfree]
      exact hsame

theorem fire_looksLike {c : Continuation} (h : Undrawn (s.fire c).events) :
    LooksLike s (s.fire c).session := by
  cases c with
  | applyNext =>
    have happlied : Undrawn s.applyNext.events := (List.forall_mem_append.mp h).1
    apply (applyNext_looksLike happlied).trans
    dsimp only [fire, Effect.andThen, scheduleNext]
    split <;> exact ⟨rfl, rfl⟩
  | step => exact executeStep_looksLike h
  | evaluate => exact absurd h s.not_undrawn_conclude
  | curriculumCompleted => exact .refl s

end Session

theorem Turn.looksLike (h : Turn s es t) (quiet : Undrawn es) : LooksLike s t := by
  cases h with
  | @fire _ timer agenda _ =>
    have hfired := Session.fire_looksLike (s := { s with agenda }) quiet
    exact ⟨hfired.level, hfired.rocket⟩
  | step =>
    have hstepped := Session.executeStep_looksLike (s := { s with agenda := _ }) quiet
    exact ⟨hstepped.level, hstepped.rocket⟩
  | settle => exact ⟨rfl, rfl⟩

/-- A run begins with a reset, for which a frame is drawn. -/
theorem Move.looksLike (h : Move s es t) (quiet : Undrawn es) : LooksLike s t := by
  cases h with
  | turn h => exact h.looksLike quiet
  | reset | load | refuse => exact absurd quiet (not_undrawn (List.mem_singleton_self _) rfl)
  | ignore => exact .refl s
  | launch => exact absurd quiet (not_undrawn (List.mem_cons_self ..) rfl)

theorem Chain.looksLike (h : Chain Move s es t) (quiet : Undrawn es) : LooksLike s t := by
  induction h with
  | refl => exact .refl _
  | head h _ ih =>
    obtain ⟨hfirst, hrest⟩ := List.forall_mem_append.mp quiet
    exact (h.looksLike hfirst).trans (ih hrest)

namespace CommandLine.Play

/-- From the play `p`, round after round, the loop comes to `q`. -/
inductive Comes : Play → Play → Prop where
  | here (p) : Comes p p
  | next {p q r} (next : p.tell.next? = some q) (rest : Comes q r) : Comes p r

/-- Something that the player sees and that is no frame: a pause or an announcement. -/
def IsAside (m : Emission) : Prop :=
  (∃ time, m = .wait time) ∨ ∃ e line, announcement? e = some line ∧ m = announce line

/-- The frame that was drawn last is the one that the play takes for it. -/
def Shows (p : Play) : Prop :=
  ∃ before after, p.emitted = before ++ .print p.frame.shown :: after ∧ ∀ m ∈ after, IsAside m

/-- The last frame is out of date only as long as there is something to tell for which a frame is
drawn. -/
structure Watched (p : Play) : Prop where
  shows : p.Shows
  fresh : Undrawn p.untold → p.frame = .compose p.session.level p.session.rocket.snapshot

variable {p q r : Play}

theorem Shows.append {p : Play} {more : List Emission} (h : p.Shows) (k : ∀ m ∈ more, IsAside m) :
    Shows { p with emitted := p.emitted ++ more } := by
  obtain ⟨before, after, hemitted, hafter⟩ := h
  refine ⟨before, after ++ more, ?_, List.forall_mem_append.mpr ⟨hafter, k⟩⟩
  simp [hemitted]

theorem isAside_lines (es : List Event) :
    ∀ m ∈ (es.filterMap announcement?).map announce, IsAside m := by
  intro m hm
  obtain ⟨line, hline, rfl⟩ := List.mem_map.mp hm
  obtain ⟨e, _, he⟩ := List.mem_filterMap.mp hline
  exact Or.inr ⟨e, line, he, rfl⟩

theorem Watched.tell (h : p.Watched) :
    p.tell.Shows ∧ p.tell.frame = .compose p.session.level p.session.rocket.snapshot := by
  unfold Play.tell
  by_cases hdrawn : p.untold.any changesPicture = true
  · rw [if_pos hdrawn]
    exact ⟨⟨_, [], rfl, nofun⟩, rfl⟩
  · rw [if_neg hdrawn]
    have hquiet : Undrawn p.untold := by simpa [Undrawn, Event.quiet_iff] using hdrawn
    obtain ⟨before, after, hemitted, hafter⟩ := h.shows.append (isAside_lines p.untold)
    exact ⟨⟨before, after, hemitted, hafter⟩, h.fresh hquiet⟩

theorem watched_ask (pause : Option Duration) (request : Session → Effect) (h : p.Shows)
    (fresh : p.frame = .compose p.session.level p.session.rocket.snapshot) (told : p.untold = [])
    (moves : Chain Move p.session (request p.session).events (request p.session).session) :
    (p.ask pause request).Watched := by
  have hpauses : ∀ m ∈ (if p.realtime then pause.toList.map Emission.wait else []),
      IsAside m := by
    intro m hm
    split at hm
    · obtain ⟨time, _, rfl⟩ := List.mem_map.mp hm
      exact Or.inl ⟨time, rfl⟩
    · cases hm
  constructor
  · obtain ⟨before, after, hemitted, hafter⟩ := h.append hpauses
    exact ⟨before, after, hemitted, hafter⟩
  · intro hquiet
    have huntold : Undrawn (request p.session).events := by simpa [ask, told] using hquiet
    exact fresh.trans (moves.looksLike huntold).compose_eq.symm

theorem Watched.next (h : p.Watched) (k : p.tell.next? = some q) : q.Watched := by
  obtain ⟨hshows, hfresh⟩ := h.tell
  rw [← session_tell p] at hfresh
  rcases next?_eq_some k with ⟨_, rfl⟩ | ⟨due, _, rfl⟩
  · exact watched_ask _ _ hshows hfresh p.untold_tell (Session.step_moves _ _)
  · exact watched_ask _ _ hshows hfresh p.untold_tell ((Session.advance_turns _ _).mono .turn)

theorem Watched.comes (h : p.Watched) (k : Comes p q) : q.Watched := by
  induction k with
  | here => exact h
  | next hnext _ ih => exact ih (h.next hnext)

theorem watched_begun (s : Session) (source : Source) (stepping realtime : Bool) :
    (begun s source stepping realtime).Watched := by
  have hshows : (opened s source stepping realtime).Shows := ⟨[], [], rfl, nofun⟩
  cases stepping with
  | true => exact watched_ask none (·.step source) hshows rfl rfl (s.step_moves source)
  | false =>
    exact watched_ask none (·.runAll source) hshows rfl rfl (.single (s.runAll_moves source))

/-- What is left in the end is what one of the rounds has told. -/
theorem exists_comes_finish (p : Play) : ∃ q, Comes p q ∧ p.finish = q.tell := by
  fun_induction finish p with
  | case1 p hlast => exact ⟨p, .here p, rfl⟩
  | case2 p q hnext _ ih =>
    obtain ⟨r, hcomes, hr⟩ := ih
    exact ⟨r, .next hnext hcomes, hr⟩
  | case3 p q hnext _ => exact ⟨q, .next hnext (.here q), rfl⟩

/-- Whenever a round has told what happened, and when the play is over, the frame drawn last shows
the session as it is. No request changes the level or the rocket without an event for which a frame
is drawn. -/
theorem frames_up_to_date (s : Session) (source : Source) (stepping realtime : Bool) :
    (∀ q, Comes (begun s source stepping realtime) q →
      q.tell.Shows ∧
        q.tell.frame = .compose q.tell.session.level q.tell.session.rocket.snapshot) ∧
      (∃ q, Comes (begun s source stepping realtime) q ∧
        (begun s source stepping realtime).finish = q.tell) ∧
      ∀ (t : Session) (r : Request), Undrawn (t.handle r).effect.events →
        (t.handle r).effect.session.level = t.level ∧
          (t.handle r).effect.session.rocket.snapshot = t.rocket.snapshot := by
  refine ⟨?_, exists_comes_finish _, ?_⟩
  · intro q hq
    rw [session_tell]
    exact ((watched_begun s source stepping realtime).comes hq).tell
  · intro t r hquiet
    have hsame := (t.handle_moves r).looksLike hquiet
    exact ⟨hsame.level, by rw [hsame.rocket]⟩

theorem frames_up_to_date_in_the_corridor :
    let s := Session.new corridors {}
    let source := Source.commands [.move, .move]
    let p := begun s source true false
    let t := (s.runAll source).session
    Comes p p ∧ p.tell.Shows ∧
      p.tell.frame = .compose p.tell.session.level p.tell.session.rocket.snapshot ∧
      (t.handle (.step source)).effect.events = [.runIgnored] ∧
      (t.handle (.step source)).effect.session.rocket.snapshot = t.rocket.snapshot := by
  intro s source p t
  obtain ⟨hrounds, _, hrequests⟩ := frames_up_to_date s source true false
  obtain ⟨hshows, hframe⟩ := hrounds p (.here p)
  have hignored : (t.handle (.step source)).effect.events = [.runIgnored] := by decide
  have hquiet : Undrawn (t.handle (.step source)).effect.events := by
    rw [hignored]
    exact List.forall_mem_singleton.mpr .runIgnored
  exact ⟨.here p, hshows, hframe, hignored, (hrequests t (.step source) hquiet).2⟩

end CommandLine.Play

end RocketPuzzle
