import RocketPuzzle.Rocket

/-! # What one command does

A rocket answers a command in one of seven ways. What follows about single commands splits on these
and opens the transition no more.
-/
namespace RocketPuzzle

/-- The answers to a command, each with what it takes. -/
inductive Acts (l : Level) (r : Rocket) : Command → Applied → Prop where
  | ignored {c} (solved : r.completed = true) : Acts l r c ⟨r, .ignored, []⟩
  | moved {next} (unsolved : r.completed = false)
      (way : l.destination r.position r.heading = .ok next) :
      Acts l r .move
        ⟨{ r.mark with position := next, message := none }, .moved,
          [.characterMoved r.position next]⟩
  | blocked {reason} (unsolved : r.completed = false)
      (way : l.destination r.position r.heading = .error reason) :
      Acts l r .move
        ⟨{ r.mark with message := some .collision }, .blocked,
          [.moveBlocked r.position r.heading reason]⟩
  | turnedLeft (unsolved : r.completed = false) :
      Acts l r .turnLeft
        ⟨{ r.mark with heading := r.heading.left, message := none }, .turned,
          [.characterTurned r.heading r.heading.left]⟩
  | turnedRight (unsolved : r.completed = false) :
      Acts l r .turnRight
        ⟨{ r.mark with heading := r.heading.right, message := none }, .turned,
          [.characterTurned r.heading r.heading.right]⟩
  | collected (unsolved : r.completed = false) (tank : l.fuel = some r.position) :
      Acts l r .collect
        ⟨{ r.mark with fuelCollected := true, message := some .fuelCollected }, .collected,
          [.fuelCollected r.position]⟩
  | collectFailed (unsolved : r.completed = false) (bare : l.fuel ≠ some r.position) :
      Acts l r .collect
        ⟨{ r.mark with message := some .nothingToCollect }, .collectFailed,
          [.nothingToCollect r.position]⟩

/-- The heading after a command. -/
def Command.face : Command → Heading → Heading
  | turnLeft => Heading.left
  | turnRight => Heading.right
  | move | collect => id

variable {l : Level} {r : Rocket} {c : Command} {a b : Applied}

theorem Level.destination_eq_ok {here next : Cell} {h : Heading} :
    l.destination here h = .ok next ↔ here.step h = some next ∧ l.blockedReason next = none := by
  unfold destination
  cases hstep : here.step h with
  | none => simp
  | some d => cases hreason : l.blockedReason d <;> grind

theorem Rocket.apply_of_solved (solved : r.completed = true) (l : Level) (c : Command) :
    r.apply l c = ⟨r, .ignored, []⟩ := by
  rw [apply.eq_def, if_pos solved]

theorem Rocket.acts (l : Level) (r : Rocket) (c : Command) : Acts l r c (r.apply l c) := by
  cases hsolved : r.completed with
  | true =>
    rw [apply_of_solved hsolved]
    exact .ignored hsolved
  | false =>
    rw [apply.eq_def, if_neg (by simp [hsolved])]
    cases c with
    | move =>
      cases hway : l.destination r.position r.heading with
      | ok next => simpa [move, mark, hway] using Acts.moved hsolved hway
      | error reason => simpa [move, mark, hway] using Acts.blocked hsolved hway
    | turnLeft => exact .turnedLeft hsolved
    | turnRight => exact .turnedRight hsolved
    | collect =>
      by_cases htank : l.fuel = some r.position
      · simpa [collect, mark, htank] using Acts.collected hsolved htank
      · simpa [collect, mark, htank] using Acts.collectFailed hsolved htank

namespace Acts

theorem completed (h : Acts l r c a) : a.rocket.completed = r.completed := by
  cases h <;> rfl

/-- What a command takes decides between its answers. -/
theorem eq (h : Acts l r c a) (k : Acts l r c b) : a = b := by
  cases h <;> cases k <;> simp_all

/-- The cell that a command finds the rocket on is marked, whatever comes of the command. -/
theorem trail (h : Acts l r c a) (unsolved : r.completed = false) :
    a.rocket.trail = r.trail.insert r.position := by
  cases h with
  | ignored solved => cases unsolved.symm.trans solved
  | _ => rfl

theorem heading (h : Acts l r c a) (unsolved : r.completed = false) :
    a.rocket.heading = c.face r.heading := by
  cases h with
  | ignored solved => cases unsolved.symm.trans solved
  | _ => rfl

theorem collected_iff (h : Acts l r c a) (unsolved : r.completed = false) :
    a.outcome = .collected ↔ c = .collect ∧ l.fuel = some r.position := by
  cases h with
  | ignored solved => cases unsolved.symm.trans solved
  | moved | blocked | turnedLeft | turnedRight => simp
  | collected _ tank => simp [tank]
  | collectFailed _ bare => simp [bare]

/-- Nothing but a fuel tank that is collected brings fuel on board. -/
theorem fuelCollected_iff (h : Acts l r c a) :
    a.rocket.fuelCollected = true ↔ r.fuelCollected = true ∨ a.outcome = .collected := by
  cases h <;> simp [Rocket.mark]

end Acts

theorem Rocket.completed_apply (l : Level) (r : Rocket) (c : Command) :
    (r.apply l c).rocket.completed = r.completed := (r.acts l c).completed

end RocketPuzzle
