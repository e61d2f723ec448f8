import RocketPuzzle.Proofs.Retrace
import RocketPuzzle.Proofs.Validity

/-! # Inside the grid

On a catalog without a fault the rocket stays inside the grid of whatever level is in play, and so
does its trail. A wall is never entered; only the start may stand in one.
-/
namespace RocketPuzzle

/-- A cell where the rocket may be. -/
structure Level.Holds (l : Level) (c : Cell) : Prop where
  inside : l.contains c = true
  free : c = l.start ∨ l.isObstacle c = false

structure Confined (l : Level) (r : Rocket) : Prop where
  position : l.Holds r.position
  trail : ∀ c ∈ r.trail, l.Holds c

variable {l : Level} {r : Rocket} {c d : Cell}

theorem Level.blockedReason_eq_none :
    l.blockedReason c = none ↔ l.contains c = true ∧ l.isObstacle c = false := by
  by_cases hinside : l.contains c = true
  · by_cases hwall : l.isObstacle c = true <;> simp [blockedReason, hinside, hwall]
  · simp [blockedReason, hinside]

/-- A move ends inside the grid, and not in a wall. -/
theorem Level.holds_destination {h : Heading} (hd : l.destination c h = .ok d) : l.Holds d := by
  obtain ⟨_, hfree⟩ := destination_eq_ok.mp hd
  obtain ⟨hinside, hwall⟩ := blockedReason_eq_none.mp hfree
  exact ⟨hinside, Or.inr hwall⟩

namespace Confined

theorem atStart (h : l.contains l.start = true) : Confined l (.atStart l) where
  position := ⟨h, Or.inl rfl⟩
  trail := by simp [Rocket.atStart]

theorem mark (h : Confined l r) : Confined l r.mark where
  position := h.position
  trail := by
    intro c hc
    rcases Trail.mem_insert.mp hc with rfl | hc
    · exact h.position
    · exact h.trail c hc

theorem apply (h : Confined l r) (k : Command) : Confined l (r.apply l k).rocket := by
  have hacts := r.acts l k
  generalize r.apply l k = a at hacts ⊢
  cases hacts with
  | ignored => exact h
  | moved _ way => exact ⟨Level.holds_destination way, h.mark.trail⟩
  | blocked | turnedLeft | turnedRight | collected | collectFailed =>
    exact ⟨h.mark.position, h.mark.trail⟩

theorem applyAll (h : Confined l r) (cs : List Command) : Confined l (r.applyAll l cs) := by
  induction cs generalizing r with
  | nil => exact h
  | cons k rest ih => exact ih (h.apply k)

end Confined

namespace Session

theorem OnTrack.confined {s : Session} (h : s.OnTrack)
    (start : s.level.contains s.level.start = true) : Confined s.level s.rocket := by
  have hback : Confined s.level s.retraced := (Confined.atStart start).applyAll s.done
  obtain ⟨hposition, _, htrail, _⟩ := Rocket.bare_eq_iff.mp h.bare
  constructor
  · rw [hposition]
    exact hback.position
  · rw [htrail]
    exact hback.trail

/-- Whatever is asked of a session on a catalog that was read from a text, the rocket and its trail
are inside the grid of the level in play. The walls of the level are never entered. -/
theorem requests_confined (text : String) (c : Curriculum) (p : Pacing) (rs : List Request)
    (accepted : (Catalog.ofText text).1 = .ok c) :
    let s := ((Session.new c p).handleAll rs).session
    ∀ cell, cell = s.rocket.snapshot.position ∨ cell ∈ s.rocket.snapshot.visited →
      s.level.contains cell = true ∧ (cell = s.level.start ∨ s.level.isObstacle cell = false) := by
  intro s cell hcell
  have hsound : s.level.Sound := by
    rw [(requests_placed c p rs).level, curriculum_handleAll]
    exact (Catalog.sound_of_ofText accepted).active ..
  have hconfined := (onTrack_handleAll c p rs).confined hsound.start
  rcases hcell with rfl | hcell
  · exact ⟨hconfined.position.inside, hconfined.position.free⟩
  · have hholds := hconfined.trail cell hcell
    exact ⟨hholds.inside, hholds.free⟩

end Session

/-- A catalog of one level, whose start and goal stand in walls. -/
def walledText : String :=
  "tutorial = [0, \"\", \"\", \"\", 3, [0, 1], \"EAST\", [2, 1]]\n" ++
  "[[level]]\nid = 1\ngrid_size = 3\nstart = [0, 1]\nstart_heading = \"EAST\"\ngoal = [2, 1]\n" ++
  "obstacles = [[0, 1], [2, 1]]\n"

def walled : Curriculum :=
  ⟨corridor 0, [{ corridor 1 with obstacles := [⟨0, 1⟩, ⟨2, 1⟩] }]⟩

/-- The run ends at the wall before the goal. -/
theorem requests_confined_walled :
    let rs : List Request := [.runAll (.commands [.move, .move]), .advance .longest]
    let s := ((Session.new walled {}).handleAll rs).session
    (Catalog.ofText walledText).1 = .ok walled ∧
      s.rocket.snapshot.position = ⟨1, 1⟩ ∧ s.run.collided = true ∧
      ∀ cell, cell = s.rocket.snapshot.position ∨ cell ∈ s.rocket.snapshot.visited →
        s.level.contains cell = true ∧
          (cell = s.level.start ∨ s.level.isObstacle cell = false) := by
  intro rs s
  have haccepted : (Catalog.ofText walledText).1 = .ok walled :=
    Catalog.ofText_eq_ok.mpr ⟨by decide +kernel, by decide⟩
  refine ⟨haccepted, by decide +kernel, by decide +kernel, ?_⟩
  exact Session.requests_confined walledText walled {} rs haccepted

end RocketPuzzle
