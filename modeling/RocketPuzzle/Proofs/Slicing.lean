import RocketPuzzle.Proofs.Moves

/-! # Time in slices

It makes no difference whether an interval passes at once or bit by bit, even where a cut falls on
the due time of a timer, between timers without delay, or beyond the longest duration. What counts
is that time passes at all: a timer that is due already waits for the next slice, however short.
-/
namespace RocketPuzzle

/-- The sum of a row of durations, cut off at the longest one. -/
def Duration.total (ds : List Duration) : Duration := ds.foldr (· + ·) .zero

theorem Duration.add_zero (a : Duration) : a + .zero = a := by
  have := a.nanos_lt
  apply ext
  rw [nanos_add]
  change min (a.nanos + 0) _ = _
  omega

namespace Session

variable {s : Session} {early late : Duration}

/-- The induction is on the timers fired up to `early`. Each of them would fire at `late` as well,
and when none is left the next one does not notice where the clock was left. -/
theorem runTo_runTo (hle : early ≤ late) (s : Session) :
    (s.runTo early).andThen (runTo late) = s.runTo late := by
  fun_induction runTo early s with
  | case1 s h =>
    rw [Effect.stay_andThen]
    cases hl : s.agenda.popDue late with
    | none =>
      have hsettled := (Agenda.popDue_settle h late).trans hl
      rw [runTo_of_none hl, runTo_of_none hsettled]
      simp only [Agenda.settle_settle hle]
    | some r =>
      have hsettled := (Agenda.popDue_settle h late).trans hl
      rw [runTo_of_some hl, runTo_of_some hsettled]
      rfl
  | case2 s t agenda h fired rest ih =>
    rw [runTo_of_some (Agenda.popDue_mono hle h)]
    change ((s.fireTimer t agenda).andThen (runTo early)).andThen (runTo late) = _
    rw [Effect.andThen_assoc]
    exact Effect.andThen_congr ih

theorem advance_advance (s : Session) (a b : Duration) :
    (s.advance a).andThen (fun t => t.advance b) = s.advance (a + b) := by
  have hnow : (s.advance a).session.advance b =
      (s.advance a).session.runTo (s.agenda.now + a + b) := by
    rw [advance, now_advance]
  calc (s.advance a).andThen (fun t => t.advance b)
      = (s.advance a).andThen (runTo (s.agenda.now + a + b)) := Effect.andThen_congr hnow
    _ = s.runTo (s.agenda.now + a + b) := runTo_runTo (Duration.le_self_add ..) s
    _ = s.advance (a + b) := by rw [Duration.add_assoc, advance]

/-- No time that passes changes nothing, as long as no timer is due already. -/
theorem advance_zero (h : s.agenda.popDue s.agenda.now = none) :
    s.advance .zero = { session := s } := by
  have hnow : s.agenda.settle s.agenda.now = s.agenda := by
    rw [Agenda.settle, Duration.max_eq_right (Nat.le_refl _)]
  rw [advance, Duration.add_zero, runTo_of_none h, hnow]

/-- A timer that fires leaves a note. -/
theorem notes_advance_zero {t : Timer Continuation} {agenda : Agenda Continuation}
    (h : s.agenda.popDue s.agenda.now = some (t, agenda)) : (s.advance .zero).notes ≠ [] := by
  rw [advance, Duration.add_zero, runTo_of_some h]
  simp [Effect.andThen, fireTimer]

theorem handleAll_advance (s : Session) (d : Duration) (ds : List Duration) :
    s.handleAll ((d :: ds).map .advance) = s.advance (Duration.total (d :: ds)) := by
  induction ds generalizing s d with
  | nil =>
    change (s.advance d).andThen (fun t => { session := t }) = s.advance (d + .zero)
    rw [Effect.andThen_stay, Duration.add_zero]
  | cons e rest ih =>
    change (s.advance d).andThen (fun t => t.handleAll ((e :: rest).map .advance)) =
      s.advance (d + Duration.total (e :: rest))
    rw [← advance_advance]
    congr 1
    funext t
    exact ih t e

/-- A row of frames is one frame of their total length, and no frame at all is one without length
unless a timer is due already. -/
theorem frames_add_up (s : Session) :
    (∀ a b, (s.advance a).andThen (fun t => t.advance b) = s.advance (a + b)) ∧
      ∀ frames : List Duration,
        s.handleAll (frames.map .advance) = s.advance (Duration.total frames) ↔
          frames ≠ [] ∨ s.agenda.popDue s.agenda.now = none := by
  refine ⟨s.advance_advance, ?_⟩
  intro frames
  cases frames with
  | nil =>
    have htotal : Duration.total [] = .zero := rfl
    have hnone : s.handleAll (([] : List Duration).map .advance) = { session := s } := rfl
    rw [htotal, hnone]
    constructor
    · intro h
      cases hdue : s.agenda.popDue s.agenda.now with
      | none => exact Or.inr rfl
      | some r => exact absurd (congrArg Effect.notes h).symm (notes_advance_zero hdue)
    · rintro (h | h)
      · exact absurd rfl h
      · exact (advance_zero h).symm
  | cons d rest =>
    constructor
    · intro _
      exact Or.inl (List.cons_ne_nil d rest)
    · intro _
      exact s.handleAll_advance d rest

/-- A timer without delay waits for the next frame, and a frame without length is one. -/
theorem no_frame_is_not_a_frame :
    ¬ ∀ s, Reachable s → ∀ frames others : List Duration,
      Duration.total frames = Duration.total others →
        (s.handleAll (frames.map .advance)).events =
          (s.handleAll (others.map .advance)).events := by
  intro h
  let p : Pacing := { commandInterval := 0 }
  let rs : List Request := [.runAll (.commands [.move])]
  have hsame := h _ ⟨corridors, p, rs, rfl⟩ [] [.zero] (Duration.add_zero _).symm
  revert hsame
  decide +kernel

end Session

end RocketPuzzle
