import RocketPuzzle.Proofs.Plane
import RocketPuzzle.Proofs.Solvability

/-! # The way back

A route without a collision can be taken backwards: turn about, do the commands in reverse with left
and right exchanged, and turn about again. Each command of the route is undone by one command of a
rocket that stands where the first one ended and looks the other way.
-/
namespace RocketPuzzle

def Heading.opposite (h : Heading) : Heading := h.right.right

/-- The command as a mirror shows it. -/
def Command.mirrored : Command → Command
  | move => move
  | turnLeft => turnRight
  | turnRight => turnLeft
  | collect => collect

theorem Command.mirrored_eq_move {k : Command} : k.mirrored = .move ↔ k = .move := by
  cases k <;> decide

def aboutTurn : List Command := [.turnRight, .turnRight]

def wayBack (cs : List Command) : List Command :=
  aboutTurn ++ cs.reverse.map Command.mirrored ++ aboutTurn

theorem unit_opposite (n : Fin 4) : unit (n + 2) = -unit n := by
  revert n
  decide

namespace Heading

theorem number_opposite (h : Heading) : h.opposite.number = h.number + 2 := by
  cases h <;> rfl

theorem opposite_opposite (h : Heading) : h.opposite.opposite = h := by
  cases h <;> rfl

end Heading

variable {l : Level} {r t u : Rocket} {k : Command} {cs : List Command} {c d : Cell} {g : Heading}

theorem Cell.step_opposite (hstep : c.step g = some d) : d.step g.opposite = some c := by
  rw [step_eq_some] at hstep ⊢
  rw [hstep, Heading.number_opposite, unit_opposite, add_neg_cancel_right]

/-- A neighbour is left by the way it was entered, if that may be entered. -/
theorem Level.destination_opposite (free : l.blockedReason c = none)
    (hd : l.destination c g = .ok d) : l.destination d g.opposite = .ok c := by
  obtain ⟨hstep, _⟩ := destination_eq_ok.mp hd
  exact destination_eq_ok.mpr ⟨Cell.step_opposite hstep, free⟩

/-- At the same cell, and looking the other way. -/
structure Opposed (r t : Rocket) : Prop where
  position : t.position = r.position
  heading : t.heading = r.heading.opposite

namespace Rocket

theorem apply_move (unsolved : r.completed = false)
    (hd : l.destination r.position r.heading = .ok d) :
    (r.apply l .move).outcome = .moved ∧ (r.apply l .move).rocket.position = d ∧
      (r.apply l .move).rocket.heading = r.heading := by
  rw [(r.acts l .move).eq (.moved unsolved hd)]
  exact ⟨rfl, rfl, rfl⟩

theorem destination_of_clear (unsolved : r.completed = false)
    (clear : (r.apply l .move).outcome ≠ .blocked) :
    ∃ d, l.destination r.position r.heading = .ok d := by
  have hacts := r.acts l .move
  generalize r.apply l .move = a at hacts clear
  cases hacts with
  | ignored solved => cases unsolved.symm.trans solved
  | moved _ way => exact ⟨_, way⟩
  | blocked => exact absurd rfl clear

/-- Turning and collecting leave the rocket where it is. -/
theorem apply_stay (unsolved : r.completed = false) (stay : k ≠ .move) :
    (r.apply l k).outcome ≠ .blocked ∧ (r.apply l k).rocket.position = r.position := by
  have hacts := r.acts l k
  generalize r.apply l k = a at hacts ⊢
  cases hacts with
  | ignored solved => cases unsolved.symm.trans solved
  | moved | blocked => exact absurd rfl stay
  | turnedLeft | turnedRight | collected | collectFailed => exact ⟨Outcome.noConfusion, rfl⟩

theorem free_apply (unsolved : r.completed = false) (free : l.blockedReason r.position = none)
    (clear : (r.apply l k).outcome ≠ .blocked) :
    l.blockedReason (r.apply l k).rocket.position = none := by
  by_cases hmove : k = .move
  · subst hmove
    obtain ⟨d, hd⟩ := destination_of_clear unsolved clear
    rw [(apply_move unsolved hd).2.1]
    exact (Level.destination_eq_ok.mp hd).2
  · rwa [(apply_stay unsolved hmove).2]

end Rocket

theorem Command.face_mirrored (k : Command) (g : Heading) :
    k.mirrored.face (k.face g).opposite = g.opposite := by
  cases k <;> cases g <;> rfl

/-- One command is undone by its mirror image. -/
theorem Opposed.undo (unsolved : r.completed = false) (same : t.completed = false)
    (free : l.blockedReason r.position = none) (clear : (r.apply l k).outcome ≠ .blocked)
    (h : Opposed (r.apply l k).rocket t) :
    (t.apply l k.mirrored).outcome ≠ .blocked ∧ Opposed r (t.apply l k.mirrored).rocket := by
  have hheading : (t.apply l k.mirrored).rocket.heading = r.heading.opposite := by
    rw [(t.acts l _).heading same, h.heading, (r.acts l k).heading unsolved,
      Command.face_mirrored]
  by_cases hmove : k = .move
  · subst hmove
    obtain ⟨d, hd⟩ := Rocket.destination_of_clear unsolved clear
    have hback : l.destination t.position t.heading = .ok r.position := by
      rw [h.position, h.heading, (Rocket.apply_move unsolved hd).2.1,
        (Rocket.apply_move unsolved hd).2.2]
      exact Level.destination_opposite free hd
    obtain ⟨houtcome, hposition, _⟩ := Rocket.apply_move same hback
    refine ⟨?_, hposition, hheading⟩
    rw [Command.mirrored, houtcome]
    exact Outcome.noConfusion
  · have hstay : k.mirrored ≠ .move := Command.mirrored_eq_move.not.mpr hmove
    obtain ⟨houtcome, hposition⟩ := Rocket.apply_stay (l := l) same hstay
    refine ⟨houtcome, ?_, hheading⟩
    rw [hposition, h.position, (Rocket.apply_stay unsolved hmove).2]

theorem Drives.back (h : Drives l r cs t) (unsolved : r.completed = false)
    (free : l.blockedReason r.position = none) (same : u.completed = false)
    (opposed : Opposed t u) :
    ∃ v, Drives l u (cs.reverse.map Command.mirrored) v ∧ Opposed r v := by
  induction h with
  | stay => exact ⟨u, .stay u, opposed⟩
  | @go r k rest t clear _ ih =>
    have hopen := (Rocket.completed_apply l r k).trans unsolved
    obtain ⟨v, hback, hopposed⟩ := ih hopen (Rocket.free_apply unsolved free clear) opposed
    obtain ⟨hlast, hhome⟩ := hopposed.undo unsolved (hback.completed.trans same) free clear
    refine ⟨_, ?_, hhome⟩
    rw [List.reverse_cons, List.map_append]
    exact hback.trans (.single hlast)

theorem drives_aboutTurn (unsolved : r.completed = false) :
    ∃ t, Drives l r aboutTurn t ∧ Opposed r t := by
  obtain ⟨t, hturns, hposition, hheading, _⟩ := drives_turns (l := l) unsolved 2
  exact ⟨t, hturns, hposition, hheading⟩

namespace Drives

theorem clear (h : Drives l r cs t) : .blocked ∉ r.outcomes l cs ∧ r.applyAll l cs = t := by
  induction h with
  | stay => exact ⟨List.not_mem_nil, rfl⟩
  | go hc _ ih =>
    refine ⟨?_, ih.2⟩
    rw [Rocket.outcomes, List.mem_cons, not_or]
    exact ⟨hc.symm, ih.1⟩

theorem of_clear (h : .blocked ∉ r.outcomes l cs) : Drives l r cs (r.applyAll l cs) := by
  induction cs generalizing r with
  | nil => exact .stay r
  | cons k rest ih =>
    rw [Rocket.outcomes, List.mem_cons, not_or] at h
    exact .go (Ne.symm h.1) (ih h.2)

/-- There and back again. -/
theorem home (h : Drives l r cs t) (unsolved : r.completed = false)
    (free : l.blockedReason r.position = none) :
    ∃ u, Drives l t (wayBack cs) u ∧ u.position = r.position ∧ u.heading = r.heading := by
  obtain ⟨a, habout, hturned⟩ := drives_aboutTurn (l := l) (h.completed.trans unsolved)
  have ha : a.completed = false := habout.completed.trans (h.completed.trans unsolved)
  obtain ⟨b, hback, hhome⟩ := h.back unsolved free ha hturned
  obtain ⟨u, hagain, hlooks⟩ := drives_aboutTurn (l := l) (hback.completed.trans ha)
  refine ⟨u, (habout.trans hback).trans hagain, ?_, ?_⟩
  · rw [hlooks.position, hhome.position]
  · rw [hlooks.heading, hhome.heading, Heading.opposite_opposite]

end Drives

/-- From any cell that may be entered, a route that meets no wall and no rim leads back to it, and
the rocket looks as it did before. -/
theorem Rocket.finds_the_way_back (l : Level) (r : Rocket) (cs : List Command)
    (unsolved : r.completed = false) (free : l.blockedReason r.position = none)
    (clear : .blocked ∉ r.outcomes l cs) :
    let t := r.applyAll l cs
    .blocked ∉ t.outcomes l (wayBack cs) ∧
      (t.applyAll l (wayBack cs)).position = r.position ∧
      (t.applyAll l (wayBack cs)).heading = r.heading := by
  intro t
  obtain ⟨u, hback, hposition, hheading⟩ := (Drives.of_clear clear).home unsolved free
  obtain ⟨hclear, hend⟩ := hback.clear
  exact ⟨hclear, by rw [hend, hposition], by rw [hend, hheading]⟩

/-- Round a wall by way of the fuel, and back. -/
theorem Rocket.finds_the_way_back_round_a_wall :
    let l : Level := { corridor 1 with obstacles := [⟨1, 1⟩], fuel := some ⟨0, 0⟩ }
    let r := Rocket.atStart l
    let cs : List Command := [.turnLeft, .move, .collect, .turnRight, .move, .move]
    let t := r.applyAll l cs
    (r.completed = false ∧ l.blockedReason r.position = none ∧ .blocked ∉ r.outcomes l cs) ∧
      t.position = ⟨2, 0⟩ ∧
      .blocked ∉ t.outcomes l (wayBack cs) ∧
      (t.applyAll l (wayBack cs)).position = r.position ∧
      (t.applyAll l (wayBack cs)).heading = r.heading := by
  intro l r cs t
  have hclear : .blocked ∉ r.outcomes l cs := by decide
  exact ⟨⟨rfl, rfl, hclear⟩, by decide, Rocket.finds_the_way_back l r cs rfl rfl hclear⟩

end RocketPuzzle
