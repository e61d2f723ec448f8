import RocketPuzzle.Proofs.Retrace

/-! # The logbook of the rocket

Commands, and the beginning, the reports and the end of a run, reach the rocket as calls in any
order. What the calls have told says where it has been and how the fuel came on board. Nothing that
it has gained is lost again, and once its level is solved it stays as it is.
-/
namespace RocketPuzzle

inductive Call where
  | apply (c : Command)
  | beginRun
  | report (m : Message)
  | halt (m : Option Message)
  | complete
  deriving DecidableEq, Repr

/-- A rocket after some calls, and what they have told. -/
structure Voyage where
  rocket : Rocket
  events : List Event
  deriving DecidableEq, Repr

namespace Rocket

def call (l : Level) (r : Rocket) : Call → Voyage
  | .apply c => ⟨(r.apply l c).rocket, (r.apply l c).events⟩
  | .beginRun => ⟨r.beginRun, []⟩
  | .report m => ⟨r.report m, []⟩
  | .halt m => ⟨r.halt m, []⟩
  | .complete => ⟨r.complete, []⟩

def calls (l : Level) (r : Rocket) : List Call → Voyage
  | [] => ⟨r, []⟩
  | k :: rest =>
    let first := r.call l k
    let later := first.rocket.calls l rest
    ⟨later.rocket, first.events ++ later.events⟩

theorem calls_append (l : Level) (r : Rocket) (ks more : List Call) :
    r.calls l (ks ++ more) =
      let now := r.calls l ks
      let later := now.rocket.calls l more
      ⟨later.rocket, now.events ++ later.events⟩ := by
  induction ks generalizing r with
  | nil => rfl
  | cons k rest ih => simp [calls, ih]

end Rocket

/-- What the events so far say of the rocket. -/
structure Logged (l : Level) (r : Rocket) (es : List Event) : Prop where
  needsFuel : r.needsFuel = l.fuel.isSome
  places : ∀ c, c ∈ r.trail ∨ c = r.position ↔
    c = l.start ∨ ∃ source, .characterMoved source c ∈ es
  fuel : r.fuelCollected = true →
    ∃ f, l.fuel = some f ∧ f ∈ r.trail ∧ .fuelCollected f ∈ es

/-- The rocket `t` has all that the rocket `r` had. -/
structure Grown (r t : Rocket) : Prop where
  trail : ∀ c ∈ r.trail, c ∈ t.trail
  fuelCollected : r.fuelCollected = true → t.fuelCollected = true
  completed : r.completed = true → t.completed = true

variable {l : Level} {r t u : Rocket} {es fs : List Event}

namespace Rocket

/-- The calls around a run change what is known of the run and nothing else. -/
theorem call_bare {k : Call} (around : ∀ c, k ≠ .apply c) :
    (r.call l k).rocket.bare = r.bare ∧ (r.call l k).events = [] := by
  cases k with
  | apply c => exact absurd rfl (around c)
  | beginRun | report | halt | complete => exact ⟨rfl, rfl⟩

end Rocket

namespace Logged

theorem atStart (l : Level) : Logged l (.atStart l) [] where
  needsFuel := rfl
  places := by simp [Rocket.atStart]
  fuel := by simp [Rocket.atStart]

theorem congr (h : Logged l r es) (needs : t.needsFuel = r.needsFuel)
    (position : t.position = r.position) (trail : t.trail = r.trail)
    (fuel : t.fuelCollected = r.fuelCollected) : Logged l t es := by
  constructor
  · rw [needs, h.needsFuel]
  · rw [trail, position]
    exact h.places
  · rw [trail, fuel]
    exact h.fuel

theorem mark (h : Logged l r es) : Logged l r.mark es where
  needsFuel := h.needsFuel
  places := by
    intro c
    rw [← h.places c]
    simp only [Rocket.mark, Trail.mem_insert]
    rw [or_right_comm, or_self, or_comm]
  fuel := by
    intro hfuel
    obtain ⟨f, hf, htrail, htold⟩ := h.fuel hfuel
    exact ⟨f, hf, Trail.mem_insert.mpr (Or.inr htrail), htold⟩

/-- Events that tell of no move are put into the log without further ado. -/
theorem append (h : Logged l r es) (still : ∀ source target, .characterMoved source target ∉ fs) :
    Logged l r (es ++ fs) where
  needsFuel := h.needsFuel
  places := by simpa [still] using h.places
  fuel := by
    intro hfuel
    obtain ⟨f, hf, htrail, htold⟩ := h.fuel hfuel
    exact ⟨f, hf, htrail, List.mem_append_left _ htold⟩

theorem apply (h : Logged l r es) (c : Command) :
    Logged l (r.apply l c).rocket (es ++ (r.apply l c).events) := by
  have hmarked : r.position ∈ r.mark.trail := Trail.mem_insert.mpr (Or.inl rfl)
  have hacts := r.acts l c
  generalize r.apply l c = a at hacts ⊢
  cases hacts with
  | ignored => exact h.append (by simp)
  | moved =>
    constructor
    · exact h.needsFuel
    · intro d
      have hbefore : d ∈ r.mark.trail ↔
          d = l.start ∨ ∃ source, .characterMoved source d ∈ es := by
        rw [← h.mark.places d]
        exact (or_iff_left_of_imp fun here => here ▸ hmarked).symm
      simp [hbefore, exists_or, or_assoc]
    · intro hfuel
      obtain ⟨f, hf, htrail, htold⟩ := h.mark.fuel hfuel
      exact ⟨f, hf, htrail, List.mem_append_left _ htold⟩
  | collected _ tank =>
    have hstill : ∀ source target,
        Event.characterMoved source target ∉ [Event.fuelCollected r.position] := by simp
    obtain ⟨hneeds, hplaces, _⟩ := h.mark.append hstill
    exact ⟨hneeds, hplaces, fun _ => ⟨r.position, tank, hmarked, by simp⟩⟩
  | blocked | turnedLeft | turnedRight | collectFailed =>
    exact (h.mark.append (by simp)).congr rfl rfl rfl rfl

theorem call (h : Logged l r es) (k : Call) :
    Logged l (r.call l k).rocket (es ++ (r.call l k).events) := by
  by_cases hcommand : ∃ c, k = .apply c
  · obtain ⟨c, rfl⟩ := hcommand
    exact h.apply c
  · obtain ⟨hbare, hsilent⟩ := Rocket.call_bare (l := l) (r := r) (not_exists.mp hcommand)
    obtain ⟨hposition, _, htrail, hneeds, hfuel⟩ := Rocket.bare_eq_iff.mp hbare
    rw [hsilent, List.append_nil]
    exact h.congr hneeds hposition htrail hfuel

theorem calls (h : Logged l r es) (ks : List Call) :
    Logged l (r.calls l ks).rocket (es ++ (r.calls l ks).events) := by
  induction ks generalizing r es with
  | nil => rwa [Rocket.calls, List.append_nil]
  | cons k rest ih =>
    rw [Rocket.calls, ← List.append_assoc]
    exact ih (h.call k)

end Logged

namespace Grown

theorem refl (r : Rocket) : Grown r r := ⟨fun _ h => h, id, id⟩

theorem trans (h : Grown r t) (k : Grown t u) : Grown r u where
  trail := fun c hc => k.trail c (h.trail c hc)
  fuelCollected := fun hr => k.fuelCollected (h.fuelCollected hr)
  completed := fun hr => k.completed (h.completed hr)

theorem apply (l : Level) (r : Rocket) (c : Command) : Grown r (r.apply l c).rocket where
  trail := by
    intro d hd
    by_cases hsolved : r.completed = true
    · rwa [Rocket.apply_of_solved hsolved]
    · rw [(r.acts l c).trail (Bool.eq_false_iff.mpr hsolved)]
      exact Trail.mem_insert.mpr (Or.inr hd)
  fuelCollected := fun hfuel => (r.acts l c).fuelCollected_iff.mpr (Or.inl hfuel)
  completed := fun hsolved => (r.completed_apply l c).trans hsolved

theorem call (l : Level) (r : Rocket) (k : Call) : Grown r (r.call l k).rocket := by
  cases k with
  | apply c => exact apply l r c
  | beginRun | report | halt => exact ⟨fun _ h => h, id, id⟩
  | complete => exact ⟨fun _ h => h, id, fun _ => rfl⟩

theorem calls (l : Level) (r : Rocket) (ks : List Call) : Grown r (r.calls l ks).rocket := by
  induction ks generalizing r with
  | nil => exact refl r
  | cons k rest ih => exact (call l r k).trans (ih _)

end Grown

namespace Rocket

theorem call_of_solved (solved : r.completed = true) (k : Call) :
    (r.call l k).rocket.bare = r.bare ∧ (r.call l k).events = [] := by
  cases k with
  | apply c =>
    rw [call, apply_of_solved solved]
    exact ⟨rfl, rfl⟩
  | beginRun | report | halt | complete => exact ⟨rfl, rfl⟩

/-- Once the level is solved, nothing is told any more and only the report and the run change. -/
theorem calls_of_solved (solved : r.completed = true) (ks : List Call) :
    (r.calls l ks).rocket.bare = r.bare ∧ (r.calls l ks).events = [] := by
  induction ks generalizing r with
  | nil => exact ⟨rfl, rfl⟩
  | cons k rest ih =>
    obtain ⟨hfirst, hsilent⟩ := call_of_solved (l := l) solved k
    obtain ⟨hlater, hrest⟩ := ih ((Grown.call l r k).completed solved)
    constructor
    · exact hlater.trans hfirst
    · rw [calls, hsilent, hrest, List.append_nil]

/-- The logbook after any calls, and what any further calls leave of it. -/
theorem keeps_a_logbook (l : Level) (ks more : List Call) :
    let now := (Rocket.atStart l).calls l ks
    let later := (Rocket.atStart l).calls l (ks ++ more)
    Logged l now.rocket now.events ∧
      Grown now.rocket later.rocket ∧
      (now.rocket.completed = true →
        later.rocket.position = now.rocket.position ∧
        later.rocket.heading = now.rocket.heading ∧
        later.rocket.trail = now.rocket.trail ∧
        later.rocket.fuelCollected = now.rocket.fuelCollected ∧
        later.events = now.events ∧
        ∀ c, later.rocket.apply l c = ⟨later.rocket, .ignored, []⟩) := by
  intro now later
  have hlater : later = ⟨(now.rocket.calls l more).rocket,
      now.events ++ (now.rocket.calls l more).events⟩ := calls_append ..
  have hgrown : Grown now.rocket later.rocket := by
    rw [hlater]
    exact Grown.calls l now.rocket more
  refine ⟨(Logged.atStart l).calls ks, hgrown, ?_⟩
  intro hsolved
  obtain ⟨hbare, hsilent⟩ := calls_of_solved (l := l) hsolved more
  obtain ⟨hposition, hheading, htrail, _, hfuel⟩ := bare_eq_iff.mp hbare
  refine ⟨?_, ?_, ?_, ?_, ?_, apply_of_solved (hgrown.completed hsolved) l⟩
  · rw [hlater, hposition]
  · rw [hlater, hheading]
  · rw [hlater, htrail]
  · rw [hlater, hfuel]
  · rw [hlater, hsilent, List.append_nil]

/-- Solved with fuel on board, and then commanded on. -/
theorem keeps_a_logbook_after_the_star :
    let l : Level := { corridor 1 with fuel := some ⟨1, 1⟩ }
    let ks : List Call := [.beginRun, .apply .move, .apply .collect, .apply .move, .complete]
    let more : List Call := [.beginRun, .apply .turnLeft, .apply .move, .halt (some .collision)]
    let now := (Rocket.atStart l).calls l ks
    let later := (Rocket.atStart l).calls l (ks ++ more)
    now.rocket.completed = true ∧ now.rocket.fuelCollected = true ∧
      now.rocket.trail.cells = [⟨0, 1⟩, ⟨1, 1⟩] ∧ later.rocket.position = ⟨2, 1⟩ ∧
      later.rocket.trail = now.rocket.trail ∧ later.events = now.events := by
  intro l ks more now later
  have hsolved : now.rocket.completed = true := by decide
  obtain ⟨_, _, hsettled⟩ := keeps_a_logbook l ks more
  obtain ⟨hposition, _, htrail, _, hevents, _⟩ := hsettled hsolved
  have hstar : now.rocket.position = ⟨2, 1⟩ := by decide
  exact ⟨hsolved, by decide, by decide, hposition.trans hstar, htrail, hevents⟩

end Rocket

end RocketPuzzle
