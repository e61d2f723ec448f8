import Mathlib.Logic.Function.Iterate
import Mathlib.Logic.Relation
import RocketPuzzle.Proofs.Course

/-! # Which levels can be solved

A level can be solved exactly when there is a way from its start to its goal, by way of the fuel if
it has any. A run cannot leave the cells that can be reached, wherever it collides, and every way
can be driven by turning to each next cell and moving there.
-/
namespace RocketPuzzle

namespace Level

/-- One move leads from `c` to `d`. -/
def Adjacent (l : Level) (c d : Cell) : Prop := ∃ h, l.destination c h = .ok d

def Reaches (l : Level) : Cell → Cell → Prop := Relation.ReflTransGen l.Adjacent

/-- There is a way to the goal, by way of the fuel if the level has any. -/
def HasRoute (l : Level) : Prop :=
  match l.fuel with
  | none => l.Reaches l.start l.goal
  | some f => l.Reaches l.start f ∧ l.Reaches f l.goal

/-- Some program solves the level. -/
def Solvable (l : Level) : Prop :=
  ∃ cs : List Command, cs ≠ [] ∧ ((Rocket.atStart l).follow l 0 cs).verdict l = .success

end Level

/-- The rocket is where a way leads to, and so was the fuel if it is on board. -/
structure Travelled (l : Level) (r : Rocket) : Prop where
  position : l.Reaches l.start r.position
  fuel : r.fuelCollected = true →
    ∃ f, l.fuel = some f ∧ l.Reaches l.start f ∧ l.Reaches f r.position

/-- The commands bring the rocket from one state to another without a collision. -/
inductive Drives (l : Level) : Rocket → List Command → Rocket → Prop where
  | stay (r) : Drives l r [] r
  | go {r c cs t} : (r.apply l c).outcome ≠ .blocked → Drives l (r.apply l c).rocket cs t →
      Drives l r (c :: cs) t

variable {l : Level} {r t u : Rocket} {c : Command} {cs ds : List Command}

namespace Travelled

theorem atStart (l : Level) : Travelled l (.atStart l) where
  position := .refl
  fuel := by simp [Rocket.atStart]

theorem apply (h : Travelled l r) (c : Command) : Travelled l (r.apply l c).rocket := by
  have hacts := r.acts l c
  generalize r.apply l c = a at hacts ⊢
  cases hacts with
  | ignored => exact h
  | moved _ way =>
    have hstep : l.Adjacent r.position _ := ⟨r.heading, way⟩
    refine ⟨h.position.tail hstep, ?_⟩
    intro hc
    obtain ⟨f, hf, hstart, hhere⟩ := h.fuel hc
    exact ⟨f, hf, hstart, hhere.tail hstep⟩
  | blocked | turnedLeft | turnedRight | collectFailed => exact ⟨h.position, h.fuel⟩
  | collected _ tank => exact ⟨h.position, fun _ => ⟨r.position, tank, h.position, .refl⟩⟩

theorem follow (h : Travelled l r) (index : Nat) (cs : List Command) :
    Travelled l (r.follow l index cs).rocket := by
  induction cs generalizing r index with
  | nil => exact h
  | cons c rest ih =>
    simp only [Rocket.follow]
    split
    · exact h.apply c
    · exact ih (h.apply c) (index + 1)

end Travelled

namespace Drives

theorem single (h : (r.apply l c).outcome ≠ .blocked) : Drives l r [c] (r.apply l c).rocket :=
  .go h (.stay _)

theorem trans (h : Drives l r cs t) (k : Drives l t ds u) : Drives l r (cs ++ ds) u := by
  induction h with
  | stay => exact k
  | go hc _ ih => exact .go hc (ih k)

theorem completed (h : Drives l r cs t) : t.completed = r.completed := by
  induction h with
  | stay => rfl
  | go _ _ ih => exact ih.trans (Rocket.completed_apply ..)

theorem follow (h : Drives l r cs t) (index : Nat) :
    (r.follow l index cs).rocket = t ∧ (r.follow l index cs).collided = false := by
  induction h generalizing index with
  | stay => exact ⟨rfl, rfl⟩
  | go hc _ ih =>
    simp only [Rocket.follow, hc, if_false]
    exact ih (index + 1)

end Drives

/-- The quarter turns to the right from one heading to another. -/
def Heading.turnsTo (g h : Heading) : Nat := (h.ordinal + 4 - g.ordinal) % 4

theorem Heading.right_turnsTo (g h : Heading) : Heading.right^[g.turnsTo h] g = h := by
  cases g <;> cases h <;> rfl

theorem drives_turns (fresh : r.completed = false) (n : Nat) :
    ∃ t, Drives l r (List.replicate n .turnRight) t ∧ t.position = r.position ∧
      t.heading = Heading.right^[n] r.heading ∧ t.fuelCollected = r.fuelCollected := by
  induction n generalizing r with
  | zero => exact ⟨r, .stay r, rfl, rfl, rfl⟩
  | succ n ih =>
    have hturn := (r.acts l .turnRight).eq (.turnedRight fresh)
    have hfresh := (Rocket.completed_apply l r .turnRight).trans fresh
    obtain ⟨t, ht, hposition, hheading, hfuel⟩ := ih hfresh
    rw [hturn] at hposition hheading hfuel
    refine ⟨t, .go ?_ ht, hposition, hheading, hfuel⟩
    rw [hturn]
    exact Outcome.noConfusion

/-- One move to a neighbour, wherever the rocket is headed. -/
theorem drives_adjacent {d : Cell} (fresh : r.completed = false)
    (h : l.Adjacent r.position d) :
    ∃ cs t, Drives l r cs t ∧ t.position = d ∧ t.fuelCollected = r.fuelCollected := by
  obtain ⟨g, hg⟩ := h
  obtain ⟨t, hturns, hposition, hheading, hfuel⟩ :=
    drives_turns (l := l) fresh (r.heading.turnsTo g)
  rw [Heading.right_turnsTo] at hheading
  have hway : l.destination t.position t.heading = .ok d := by rw [hposition, hheading, hg]
  have hmove := (t.acts l .move).eq (.moved (hturns.completed.trans fresh) hway)
  have hgo : Drives l t [.move] (t.apply l .move).rocket := .single (by simp [hmove])
  refine ⟨_, _, hturns.trans hgo, ?_, ?_⟩
  · rw [hmove]
  · rw [hmove]
    exact hfuel

theorem drives_reaches {d : Cell} (fresh : r.completed = false) (h : l.Reaches r.position d) :
    ∃ cs t, Drives l r cs t ∧ t.position = d ∧ t.fuelCollected = r.fuelCollected := by
  induction h with
  | refl => exact ⟨[], r, .stay r, rfl, rfl⟩
  | tail _ hstep ih =>
    obtain ⟨cs, t, hdrive, rfl, hfuel⟩ := ih
    obtain ⟨ds, u, hnext, hposition, hsame⟩ :=
      drives_adjacent (hdrive.completed.trans fresh) hstep
    exact ⟨cs ++ ds, u, hdrive.trans hnext, hposition, hsame.trans hfuel⟩

/-- A drive that ends on the goal with all that is needed solves the level. -/
theorem Drives.solves (h : Drives l (.atStart l) cs t) (nonempty : cs ≠ [])
    (goal : t.position = l.goal) (fuel : l.fuel ≠ none → t.fuelCollected = true) :
    l.Solvable := by
  obtain ⟨hrocket, _⟩ := h.follow 0
  refine ⟨cs, nonempty, ?_⟩
  apply Level.judge_eq_success.mpr
  rw [hrocket]
  exact ⟨goal, fuel⟩

theorem Level.Solvable.hasRoute (h : l.Solvable) : l.HasRoute := by
  obtain ⟨cs, _, hsuccess⟩ := h
  obtain ⟨hgoal, hfuel⟩ := Level.judge_eq_success.mp hsuccess
  obtain ⟨hposition, hcollected⟩ := (Travelled.atStart l).follow 0 cs
  dsimp only at hgoal hfuel
  rw [hgoal] at hposition hcollected
  unfold Level.HasRoute
  cases hf : l.fuel with
  | none => exact hposition
  | some f =>
    obtain ⟨g, hg, hstart, hend⟩ := hcollected (hfuel (by simp [hf]))
    cases hf.symm.trans hg
    exact ⟨hstart, hend⟩

theorem Level.HasRoute.solvable (h : l.HasRoute) : l.Solvable := by
  unfold Level.HasRoute at h
  have hfresh : (Rocket.atStart l).completed = false := rfl
  cases hf : l.fuel with
  | none =>
    rw [hf] at h
    -- one turn, so that the program is not empty where the start is the goal
    obtain ⟨t, hturn, hhere, _, _⟩ := drives_turns (l := l) hfresh 1
    have hway : l.Reaches t.position l.goal := hhere ▸ h
    obtain ⟨cs, u, hdrive, hgoal, _⟩ := drives_reaches (hturn.completed.trans hfresh) hway
    exact (hturn.trans hdrive).solves (by simp) hgoal (by simp [hf])
  | some f =>
    rw [hf] at h
    obtain ⟨hstart, hend⟩ := h
    obtain ⟨cs, t, hdrive, rfl, _⟩ := drives_reaches hfresh hstart
    have hopen : t.completed = false := hdrive.completed.trans hfresh
    have hcollect := (t.acts l .collect).eq (.collected hopen hf)
    have hload : Drives l t [.collect] (t.apply l .collect).rocket :=
      .single (by simp [hcollect])
    rw [hcollect] at hload
    obtain ⟨ds, u, hnext, hgoal, hfuel⟩ := drives_reaches (hload.completed.trans hopen) hend
    have hwhole := (hdrive.trans hload).trans hnext
    exact hwhole.solves (by simp) hgoal (fun _ => hfuel)

/-- A level can be solved exactly when there is a way. -/
theorem solvable_iff_hasRoute (l : Level) : l.Solvable ↔ l.HasRoute :=
  ⟨Level.Solvable.hasRoute, Level.HasRoute.solvable⟩

end RocketPuzzle
