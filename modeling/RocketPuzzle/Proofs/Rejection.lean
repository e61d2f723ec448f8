import RocketPuzzle.Proofs.Course

/-! # Requests that are turned down

A request that cannot be granted leaves no trace: the session is as it was before, and at most it is
told that the request was ignored. So a row of requests comes to the same without those of them that
were turned down.
-/
namespace RocketPuzzle

/-- What is told when the request is turned down. -/
def Request.rebuff : Request → List Event
  | .runAll _ | .step _ => [.runIgnored]
  | _ => []

theorem Request.filter_rebuff (r : Request) : r.rebuff.filter (· ≠ .runIgnored) = [] := by
  cases r <;> rfl

namespace Session

/-- The request cannot be granted as things stand. -/
def Rejects (s : Session) : Request → Prop
  | .select index => s.curriculum.size ≤ index
  | .nextLevel => s.inTutorial = true ∨ s.index + 1 = s.curriculum.size
  | .previousLevel => s.inTutorial = true ∨ s.index = 0
  | .runAll _ => s.status = .running
  | .step _ => s.status = .running ∧ s.run.mode = some .paced
  | .setTutorial _ | .advance _ | .reset => False

instance (s : Session) : (r : Request) → Decidable (s.Rejects r)
  | .select _ => inferInstanceAs (Decidable (_ ≤ _))
  | .nextLevel | .previousLevel => inferInstanceAs (Decidable (_ ∨ _))
  | .runAll _ => inferInstanceAs (Decidable (_ = _))
  | .step _ => inferInstanceAs (Decidable (_ ∧ _))
  | .setTutorial _ | .advance _ | .reset => inferInstanceAs (Decidable False)

/-- The answers to a row of requests, each with the session as it is then. -/
def answers (s : Session) : List Request → List Answer
  | [] => []
  | r :: rest => s.handle r :: (s.handle r).effect.session.answers rest

/-- The requests of a row that are not turned down, and their answers. -/
def sift (s : Session) : List Request → List (Request × Answer)
  | [] => []
  | r :: rest =>
    let later := (s.handle r).effect.session.sift rest
    if s.Rejects r then later else (r, s.handle r) :: later

variable {s : Session} {r : Request}

theorem handle_of_rejects (h : s.Rejects r) :
    (s.handle r).effect.session = s ∧ (s.handle r).effect.events = r.rebuff := by
  cases r with
  | select index =>
    have hout : ¬ index < s.curriculum.size := Nat.not_lt.mpr h
    simp [handle, select, hout, Request.rebuff]
  | nextLevel =>
    have hlast : s.inTutorial = true ∨ s.index + 1 = s.curriculum.size := h
    have hnone : (s.inTutorial || s.curriculum.isFinal s.index) = true := by
      simpa [Curriculum.isFinal] using hlast
    simp [handle, nextLevel, hnone, answerChange, Request.rebuff]
  | previousLevel =>
    have hfirst : s.inTutorial = true ∨ s.index = 0 := h
    have hnone : (s.inTutorial || s.index == 0) = true := by simpa using hfirst
    simp [handle, previousLevel, hnone, answerChange, Request.rebuff]
  | runAll source =>
    have hrun : s.status = .running := h
    simp [handle, runAll, hrun, Request.rebuff]
  | step source =>
    obtain ⟨hrun, hmode⟩ := h
    simp [handle, step, hrun, hmode, Request.rebuff]
  | setTutorial | advance | reset => cases h

/-- A run of nothing is refused, and that is all that is told. -/
theorem begin_of_empty (s : Session) {source : Source} (empty : source.queue = []) (mode : RunMode)
    (delay : UInt64) (c : Continuation) :
    (s.begin source mode delay c).session = s.refuseEmpty.session ∧
      (s.begin source mode delay c).events = [.programEmpty] := by
  rw [begin, empty]
  exact ⟨rfl, rfl⟩

theorem ignored_not_mem_outlook (s : Session) : .runIgnored ∉ s.outlook.events := by
  rw [outlook]
  split
  · have hcourse : .runIgnored ∉ s.ahead.events := by
      intro hmem
      rw [ahead] at hmem
      split at hmem
      · cases hmem
      · cases Rocket.ofCommand_follow _ _ _ _ _ hmem
    simp only [finish, List.mem_append, not_or]
    refine ⟨⟨hcourse, ?_⟩, ?_⟩
    · simp only [closing]
      split <;> simp
    · split <;> simp
  · simp

theorem Coherent.ignored_not_mem_turns (h : s.Coherent) {t : Session} {es : List Event}
    (k : Chain Turn s es t) : .runIgnored ∉ es := by
  intro hmem
  apply s.ignored_not_mem_outlook
  rw [(h.turns_lead k).2]
  exact List.mem_append_left _ hmem

theorem ignored_not_mem_begin (s : Session) (source : Source) (mode : RunMode) :
    .runIgnored ∉
      (s.begin source mode (s.pacing.firstDelay mode) mode.firstTimer).events := by
  by_cases hq : source.queue = []
  · simp [(s.begin_of_empty hq ..).2]
  · simp [(s.begin_eq hq mode).2]

/-- Nobody is told that a request was ignored which was not turned down. -/
theorem Coherent.ignored_not_mem (h : s.Coherent) (granted : ¬ s.Rejects r) :
    .runIgnored ∉ (s.handle r).effect.events := by
  cases r with
  | runAll source =>
    have hrest : s.status ≠ .running := granted
    simp only [handle, runAll, hrest, if_false]
    exact s.ignored_not_mem_begin source .paced
  | step source =>
    simp only [handle, step]
    split
    · next hrun =>
      cases hmode : s.run.mode with
      | none => exact absurd hmode (h.moded hrun)
      | some mode =>
        cases mode with
        | paced => exact absurd ⟨hrun, hmode⟩ granted
        | stepped => exact h.ignored_not_mem_turns (stepOn_turns hrun hmode)
    · exact s.ignored_not_mem_begin source .stepped
  | advance dt => exact h.ignored_not_mem_turns (s.advance_turns dt)
  | reset => simp [handle, reset]
  | setTutorial enabled => simp [handle, setTutorial, load, reset]
  | select index =>
    have hin : index < s.curriculum.size := Nat.not_le.mp granted
    simp [handle, select, hin, load, reset]
  | nextLevel =>
    simp only [handle, nextLevel]
    split <;> simp [answerChange, load, reset]
  | previousLevel =>
    simp only [handle, previousLevel]
    split <;> simp [answerChange, load, reset]

/-- No request that is turned down leaves a trace. -/
structure Unmoved (s : Session) : Prop where
  rejected : ∀ r, s.Rejects r →
    (s.handle r).effect.session = s ∧ (s.handle r).effect.events = r.rebuff
  /-- A program without commands leaves no more than a report, whatever waits or has been run. -/
  empty : ∀ source, s.status ≠ .running → source.queue = [] → ∀ r ∈ [.runAll source, .step source],
    (s.handle r).effect.session =
        { s with rocket := { s.rocket with message := some .emptyProgram } } ∧
      (s.handle r).effect.events = [.programEmpty]
  sifted : ∀ rs,
    let kept := s.sift rs
    s.answers (kept.map Prod.fst) = kept.map Prod.snd ∧
      (s.handleAll (kept.map Prod.fst)).session = (s.handleAll rs).session ∧
      (s.handleAll (kept.map Prod.fst)).events =
        (s.handleAll rs).events.filter (· ≠ .runIgnored)

theorem sift_of_rejects (h : s.Rejects r) (rest : List Request) :
    s.sift (r :: rest) = s.sift rest := by
  rw [sift, if_pos h, (handle_of_rejects h).1]

theorem sift_of_granted (h : ¬ s.Rejects r) (rest : List Request) :
    s.sift (r :: rest) = (r, s.handle r) :: (s.handle r).effect.session.sift rest := by
  rw [sift, if_neg h]

theorem answers_sift (s : Session) (rs : List Request) :
    s.answers ((s.sift rs).map Prod.fst) = (s.sift rs).map Prod.snd := by
  induction rs generalizing s with
  | nil => rfl
  | cons r rest ih =>
    by_cases h : s.Rejects r
    · rw [sift_of_rejects h]
      exact ih s
    · rw [sift_of_granted h]
      simp only [List.map_cons, answers, ih]

theorem session_handleAll_sift (s : Session) (rs : List Request) :
    (s.handleAll ((s.sift rs).map Prod.fst)).session = (s.handleAll rs).session := by
  induction rs generalizing s with
  | nil => rfl
  | cons r rest ih =>
    by_cases h : s.Rejects r
    · rw [sift_of_rejects h, ih]
      simp only [handleAll, Effect.andThen, (handle_of_rejects h).1]
    · rw [sift_of_granted h]
      simp only [List.map_cons, handleAll, Effect.andThen, ih]

theorem events_handleAll_sift (h : s.Coherent) (rs : List Request) :
    (s.handleAll ((s.sift rs).map Prod.fst)).events =
      (s.handleAll rs).events.filter (· ≠ .runIgnored) := by
  induction rs generalizing s with
  | nil => rfl
  | cons r rest ih =>
    by_cases hr : s.Rejects r
    · obtain ⟨hsame, hevents⟩ := handle_of_rejects hr
      rw [sift_of_rejects hr, ih h]
      simp only [handleAll, Effect.andThen, hsame, hevents, List.filter_append,
        Request.filter_rebuff, List.nil_append]
    · have hkept : (s.handle r).effect.events.filter (· ≠ .runIgnored) =
          (s.handle r).effect.events := by
        apply List.filter_eq_self.mpr
        intro e he
        apply decide_eq_true
        rintro rfl
        exact h.ignored_not_mem hr he
      rw [sift_of_granted hr]
      simp only [List.map_cons, handleAll, Effect.andThen, List.filter_append, hkept,
        ih (h.request r)]

/-- Requests that are turned down might as well not have been made. -/
theorem rejections_unseen (c : Curriculum) (p : Pacing) (before : List Request) :
    ((Session.new c p).handleAll before).session.Unmoved where
  rejected := fun _ h => handle_of_rejects h
  empty := by
    intro source hrest hempty r hr
    simp only [List.mem_cons, List.not_mem_nil, or_false] at hr
    rcases hr with rfl | rfl
    · simp only [handle, runAll, hrest, if_false]
      exact begin_of_empty _ hempty ..
    · simp only [handle, step, hrest, if_false]
      exact begin_of_empty _ hempty ..
  sifted := fun rs =>
    ⟨answers_sift _ rs, session_handleAll_sift _ rs,
      events_handleAll_sift (requests_coherent c p before) rs⟩

end Session

end RocketPuzzle
