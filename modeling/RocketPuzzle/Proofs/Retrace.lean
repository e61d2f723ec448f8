import RocketPuzzle.Proofs.Deeds

/-! # The way back

Where the rocket is follows from the commands done so far, on the level in play and from its start.
None of them is left out, done twice, done on another level, or done after a collision.
-/
namespace RocketPuzzle

namespace Rocket

def applyAll (l : Level) (r : Rocket) (cs : List Command) : Rocket :=
  cs.foldl (fun r c => (r.apply l c).rocket) r

def outcomes (l : Level) (r : Rocket) : List Command → List Outcome
  | [] => []
  | c :: rest => (r.apply l c).outcome :: (r.apply l c).rocket.outcomes l rest

/-- The rocket without its report and without what is known of its run. -/
def bare (r : Rocket) : Rocket := { r with message := none, completed := false, running := false }

variable {l : Level} {r : Rocket} {c : Command} {cs : List Command}

theorem applyAll_concat (l : Level) (r : Rocket) (cs : List Command) (c : Command) :
    r.applyAll l (cs ++ [c]) = ((r.applyAll l cs).apply l c).rocket := by
  rw [applyAll, List.foldl_append]
  rfl

theorem outcomes_concat (l : Level) (r : Rocket) (cs : List Command) (c : Command) :
    r.outcomes l (cs ++ [c]) = r.outcomes l cs ++ [((r.applyAll l cs).apply l c).outcome] := by
  induction cs generalizing r with
  | nil => rfl
  | cons d rest ih =>
    simp only [List.cons_append, outcomes, ih]
    rfl

theorem completed_applyAll (l : Level) (r : Rocket) (cs : List Command) :
    (r.applyAll l cs).completed = r.completed := by
  induction cs generalizing r with
  | nil => rfl
  | cons c rest ih => exact (ih _).trans (completed_apply l r c)

theorem bare_eq_iff {q : Rocket} :
    r.bare = q.bare ↔
      r.position = q.position ∧ r.heading = q.heading ∧ r.trail = q.trail ∧
        r.needsFuel = q.needsFuel ∧ r.fuelCollected = q.fuelCollected := by
  simp [bare]

/-- What a command does on an unsolved level depends on neither the report nor the run. -/
theorem apply_bare (unsolved : r.completed = false) (l : Level) (c : Command) :
    (r.apply l c).outcome = (r.bare.apply l c).outcome ∧
      (r.apply l c).rocket.bare = (r.bare.apply l c).rocket.bare := by
  cases c with
  | move =>
    cases hd : l.destination r.position r.heading <;> simp [apply, unsolved, bare, move, mark, hd]
  | turnLeft | turnRight => simp [apply, unsolved, bare, turn, mark]
  | collect =>
    by_cases hf : l.fuel = some r.position <;> simp [apply, unsolved, bare, collect, mark, hf]

theorem apply_congr {q : Rocket} (unsolved : r.completed = false) (same : q.completed = false)
    (h : r.bare = q.bare) (l : Level) (c : Command) :
    (r.apply l c).outcome = (q.apply l c).outcome ∧
      (r.apply l c).rocket.bare = (q.apply l c).rocket.bare := by
  obtain ⟨houtcome, hbare⟩ := apply_bare unsolved l c
  obtain ⟨houtcome', hbare'⟩ := apply_bare same l c
  rw [houtcome, hbare, h, houtcome', hbare']
  exact ⟨rfl, rfl⟩

theorem ignored_not_mem_outcomes (unsolved : r.completed = false) (l : Level)
    (cs : List Command) : .ignored ∉ r.outcomes l cs := by
  induction cs generalizing r with
  | nil => simp [outcomes]
  | cons c rest ih =>
    obtain ⟨said, _, hsaid⟩ := events_apply unsolved l c
    have hrest := ih ((completed_apply l r c).trans unsolved)
    rw [outcomes, List.mem_cons, not_or]
    refine ⟨?_, hrest⟩
    intro h
    exact said.said?_ne_ignored (h ▸ hsaid)

end Rocket

namespace Session

def done (s : Session) : List Command := s.run.queue.take s.run.cursor

def retraced (s : Session) : Rocket := (Rocket.atStart s.level).applyAll s.level s.done

def outcomes (s : Session) : List Outcome := (Rocket.atStart s.level).outcomes s.level s.done

/-- The rocket is where the commands done so far have brought it. -/
structure OnTrack (s : Session) : Prop where
  cursor_le : s.run.cursor ≤ s.run.queue.length
  bare : s.rocket.bare = s.retraced.bare
  clear : ∃ clear, .blocked ∉ clear ∧
    s.outcomes = clear ++ if s.run.collided = true then [.blocked] else []

variable {s t : Session} {d : Deed} {ds : List Deed}

theorem OnTrack.applyNext {c : Command} (h : s.OnTrack) (free : s.run.collided = false)
    (unsolved : s.rocket.completed = false) (next : s.run.queue[s.run.cursor]? = some c) :
    s.applyNext.session.OnTrack := by
  obtain ⟨hsession, _⟩ := applyNext_eq next
  have hlevel : s.applyNext.session.level = s.level := by rw [hsession]
  have hdone : s.applyNext.session.done = s.done ++ [c] := by
    rw [hsession, done, done, List.take_add_one, next]
    rfl
  have hfresh : s.retraced.completed = false := Rocket.completed_applyAll ..
  obtain ⟨houtcome, hbare⟩ := Rocket.apply_congr unsolved hfresh h.bare s.level c
  obtain ⟨clear, hclear, hsofar⟩ := h.clear
  have hall : s.applyNext.session.outcomes =
      clear ++ [(s.rocket.apply s.level c).outcome] := by
    rw [Session.outcomes, hlevel, hdone, Rocket.outcomes_concat, houtcome]
    change s.outcomes ++ _ = _
    rw [hsofar]
    simp only [free, Bool.false_eq_true, if_false, List.append_nil]
    rfl
  constructor
  · rw [hsession]
    exact (List.getElem?_eq_some_iff.mp next).1
  · rw [retraced, hlevel, hdone, Rocket.applyAll_concat, hsession]
    exact hbare
  · by_cases hblocked : (s.rocket.apply s.level c).outcome = .blocked
    · refine ⟨clear, hclear, ?_⟩
      rw [hall, hsession]
      simp [hblocked]
    · refine ⟨clear ++ [(s.rocket.apply s.level c).outcome], ?_, ?_⟩
      · simp [hclear, Ne.symm hblocked]
      · rw [hall, hsession]
        simp [hblocked, free]

theorem OnTrack.conclude (h : s.OnTrack) : s.conclude.session.OnTrack := by
  have hbare : (s.closed s.verdict).rocket.bare = s.rocket.bare := by
    by_cases hv : s.verdict = .success <;> simp [closed, hv, Rocket.complete, Rocket.halt,
      Rocket.bare]
  have hclosed : (s.closed s.verdict).OnTrack := ⟨h.cursor_le, hbare.trans h.bare, h.clear⟩
  rw [conclude_session]
  split
  · exact ⟨hclosed.cursor_le, hclosed.bare, hclosed.clear⟩
  · exact hclosed

theorem onTrack_atStart (clear : s.run.cursor = 0) (free : s.run.collided = false)
    (start : s.rocket.bare = (Rocket.atStart s.level).bare) : s.OnTrack := by
  have hdone : s.done = [] := by rw [done, clear, List.take_zero]
  constructor
  · rw [clear]
    exact Nat.zero_le _
  · rw [retraced, hdone]
    exact start
  · refine ⟨[], by simp, ?_⟩
    rw [outcomes, hdone, free]
    rfl

theorem OnTrack.does (h : s.OnTrack) (k : Does s d t) : t.OnTrack := by
  cases k with
  | wait | settle | announce => exact ⟨h.cursor_le, h.bare, h.clear⟩
  | command _ free unsolved next => exact h.applyNext free unsolved next
  | judge => exact h.conclude
  | ignore => exact h
  | refuse => exact ⟨h.cursor_le, h.bare, h.clear⟩
  | reset | load | launch => exact onTrack_atStart rfl rfl rfl

theorem OnTrack.deeds (h : s.OnTrack) (k : Deeds s ds t) : t.OnTrack :=
  k.preserves OnTrack.does h

theorem onTrack_handleAll (c : Curriculum) (p : Pacing) (rs : List Request) :
    ((Session.new c p).handleAll rs).session.OnTrack := by
  obtain ⟨ds, hds, _⟩ := (new_coherent c p).deeds rs
  have hnew : (Session.new c p).OnTrack := onTrack_atStart rfl rfl rfl
  exact hnew.deeds hds

/-- What is seen of the rocket is what the commands done so far give, on the level in play and from
its start. -/
structure Retraceable (s : Session) : Prop where
  cursor : s.done.length = s.run.cursor
  position : s.rocket.snapshot.position = s.retraced.snapshot.position
  heading : s.rocket.snapshot.heading = s.retraced.snapshot.heading
  visited : s.rocket.snapshot.visited = s.retraced.snapshot.visited
  hasFuel : s.rocket.snapshot.hasFuel = s.retraced.snapshot.hasFuel
  fuelCollected : s.rocket.snapshot.fuelCollected = s.retraced.snapshot.fuelCollected
  none_ignored : .ignored ∉ s.outcomes
  blocked_last : .blocked ∉ s.outcomes.dropLast
  collided_iff : s.run.collided = true ↔ s.outcomes.getLast? = some .blocked

theorem OnTrack.retraceable (h : s.OnTrack) : s.Retraceable := by
  obtain ⟨hposition, hheading, htrail, hneeds, hcollected⟩ := Rocket.bare_eq_iff.mp h.bare
  obtain ⟨clear, hclear, hall⟩ := h.clear
  constructor
  · rw [done, List.length_take, Nat.min_eq_left h.cursor_le]
  · exact hposition
  · exact hheading
  · exact congrArg Trail.cells htrail
  · exact hneeds
  · exact hcollected
  · exact Rocket.ignored_not_mem_outcomes (r := .atStart s.level) rfl s.level s.done
  · rw [hall]
    split
    · rw [List.dropLast_concat]
      exact hclear
    · rw [List.append_nil]
      exact fun hmem => hclear (List.dropLast_subset clear hmem)
  · rw [hall]
    cases hcollided : s.run.collided with
    | true => simp
    | false =>
      simp only [Bool.false_eq_true, if_false, List.append_nil, false_iff]
      exact fun hlast => hclear (List.mem_of_getLast? hlast)

/-- At any time, between any two requests. -/
theorem requests_retraceable (c : Curriculum) (p : Pacing) (rs : List Request) :
    ((Session.new c p).handleAll rs).session.Retraceable :=
  (onTrack_handleAll c p rs).retraceable

end Session

end RocketPuzzle
