import Mathlib.Algebra.Group.Int.Defs
import Mathlib.Algebra.Group.Prod
import RocketPuzzle.Proofs.Retrace

/-! # The plane

The world without machine words: cells are points of the plane of integers, headings are numbers
modulo four, and the grid is a square of the plane. A walker on the plane does what the rocket does,
on every level, at both rims of the grid and from a start outside it.
-/
namespace RocketPuzzle

abbrev Point := Int × Int

/-- The unit vectors by number, clockwise from north. -/
def unit : Fin 4 → Point
  | 0 => (0, -1)
  | 1 => (1, 0)
  | 2 => (0, 1)
  | 3 => (-1, 0)

structure Plane where
  size : Int
  walls : List Point
  fuel : Option Point
  deriving DecidableEq, Repr

/-- The square of the grid, which begins at the origin. -/
def Plane.Inside (p : Plane) (q : Point) : Prop :=
  (0 ≤ q.1 ∧ q.1 < p.size) ∧ (0 ≤ q.2 ∧ q.2 < p.size)

instance (p : Plane) (q : Point) : Decidable (p.Inside q) :=
  inferInstanceAs (Decidable ((_ ∧ _) ∧ (_ ∧ _)))

def Plane.reason? (p : Plane) (q : Point) : Option BlockReason :=
  if ¬ p.Inside q then some .outOfBounds
  else if q ∈ p.walls then some .obstacle
  else none

structure Walker where
  point : Point
  heading : Fin 4
  fuelled : Bool
  deriving DecidableEq, Repr

structure Footstep where
  walker : Walker
  outcome : Outcome
  reasons : List BlockReason
  deriving DecidableEq, Repr

namespace Walker

def next (p : Plane) (w : Walker) : Command → Footstep
  | .move =>
    let target := w.point + unit w.heading
    match p.reason? target with
    | none => ⟨{ w with point := target }, .moved, []⟩
    | some reason => ⟨w, .blocked, [reason]⟩
  | .turnLeft => ⟨{ w with heading := w.heading + 3 }, .turned, []⟩
  | .turnRight => ⟨{ w with heading := w.heading + 1 }, .turned, []⟩
  | .collect =>
    if p.fuel = some w.point then ⟨{ w with fuelled := true }, .collected, []⟩
    else ⟨w, .collectFailed, []⟩

def footsteps (p : Plane) (w : Walker) : List Command → List Footstep
  | [] => []
  | c :: rest => w.next p c :: (w.next p c).walker.footsteps p rest

end Walker

def Cell.point (c : Cell) : Point := (c.x.toNat, c.y.toNat)

def Heading.number (h : Heading) : Fin 4 := Fin.ofNat 4 h.ordinal

def Level.plane (l : Level) : Plane where
  size := l.gridSize.toNat
  walls := l.obstacles.map Cell.point
  fuel := l.fuel.map Cell.point

def Walker.atStart (l : Level) : Walker := ⟨l.start.point, l.startHeading.number, false⟩

def Rocket.walker (r : Rocket) : Walker := ⟨r.position.point, r.heading.number, r.fuelCollected⟩

def Event.reason? : Event → Option BlockReason
  | moveBlocked _ _ reason => some reason
  | _ => none

/-- What is seen of a command; the reasons are those that its events tell. -/
def Applied.footstep (a : Applied) : Footstep :=
  ⟨a.rocket.walker, a.outcome, a.events.filterMap Event.reason?⟩

def Rocket.footsteps (l : Level) (r : Rocket) : List Command → List Footstep
  | [] => []
  | c :: rest => (r.apply l c).footstep :: (r.apply l c).rocket.footsteps l rest

namespace Heading

theorem number_left (h : Heading) : h.left.number = h.number + 3 := by
  cases h <;> rfl

theorem number_right (h : Heading) : h.right.number = h.number + 1 := by
  cases h <;> rfl

theorem unit_number (h : Heading) : unit h.number = h.offset := by
  cases h <;> rfl

end Heading

variable {l : Level} {r : Rocket} {c d : Cell} {h : Heading} {q : Point}

namespace Cell

theorem point_injective : Function.Injective point := by
  rintro ⟨ax, ay⟩ ⟨bx, bY⟩ heq
  simp only [point, Prod.mk.injEq, Int.natCast_inj, UInt32.toNat_inj] at heq
  rw [heq.1, heq.2]

theorem shift_eq_some {a b : UInt32} {k : Int} :
    shift a k = some b ↔ (b.toNat : Int) = a.toNat + k := by
  have hb := b.toNat_lt_size
  simp only [shift, Option.ite_none_right_eq_some, Option.some.injEq]
  constructor
  · rintro ⟨⟨hlow, hhigh⟩, rfl⟩
    rw [UInt32.toNat_ofNat_of_lt' (by omega)]
    omega
  · intro heq
    refine ⟨by omega, ?_⟩
    have hmoved : ((a.toNat : Int) + k).toNat = b.toNat := by omega
    rw [hmoved, UInt32.ofNat_toNat]

/-- Steps are those of the plane, as far as there are cells. -/
theorem step_eq_some : c.step h = some d ↔ d.point = c.point + unit h.number := by
  obtain ⟨dx, dy⟩ := d
  simp [step, point, shift_eq_some, Option.bind_eq_some_iff, Prod.ext_iff, Heading.unit_number]

end Cell

namespace Level

theorem inside_point : l.plane.Inside c.point ↔ l.contains c = true := by
  simp [Plane.Inside, plane, Cell.point, contains, UInt32.lt_iff_toNat_lt]

/-- All of the grid is made of cells, since its size is a machine word. -/
theorem exists_cell (inside : l.plane.Inside q) : ∃ c : Cell, c.point = q := by
  have hsize := l.gridSize.toNat_lt_size
  obtain ⟨⟨hx, hx'⟩, hy, hy'⟩ := inside
  simp only [plane] at hx' hy'
  refine ⟨⟨UInt32.ofNat q.1.toNat, UInt32.ofNat q.2.toNat⟩, ?_⟩
  have hcolumn : q.1.toNat < UInt32.size := by omega
  have hrow : q.2.toNat < UInt32.size := by omega
  simp only [Cell.point, UInt32.toNat_ofNat_of_lt' hcolumn, UInt32.toNat_ofNat_of_lt' hrow]
  exact Prod.ext (Int.toNat_of_nonneg hx) (Int.toNat_of_nonneg hy)

theorem reason?_point : l.plane.reason? c.point = l.blockedReason c := by
  have hwalls : c.point ∈ l.plane.walls ↔ l.isObstacle c = true := by
    simp [plane, isObstacle, Cell.point_injective.eq_iff]
  unfold Plane.reason? blockedReason
  simp only [inside_point, hwalls]
  by_cases hinside : l.contains c = true <;> simp [hinside]

/-- A move that is taken ends where the unit vector points. -/
theorem destination_point (hd : l.destination c h = .ok d) :
    d.point = c.point + unit h.number ∧ l.plane.reason? (c.point + unit h.number) = none := by
  obtain ⟨hstep, hfree⟩ := destination_eq_ok.mp hd
  have hpoint := Cell.step_eq_some.mp hstep
  exact ⟨hpoint, by rw [← hpoint, reason?_point, hfree]⟩

theorem reason?_of_destination {reason : BlockReason} (hd : l.destination c h = .error reason) :
    l.plane.reason? (c.point + unit h.number) = some reason := by
  unfold destination at hd
  cases hstep : c.step h with
  | none =>
    rw [hstep] at hd
    cases hd
    -- a point inside would be a cell, and the step would lead there
    have houtside : ¬ l.plane.Inside (c.point + unit h.number) := by
      intro hinside
      obtain ⟨d, hd⟩ := exists_cell hinside
      cases hstep.symm.trans (Cell.step_eq_some.mpr hd)
    rw [Plane.reason?, if_pos houtside]
  | some next =>
    rw [← Cell.step_eq_some.mp hstep, reason?_point]
    simp only [hstep] at hd
    split at hd
    · next other hreason =>
      cases hd
      exact hreason
    · cases hd

theorem fuel_plane : l.plane.fuel = some c.point ↔ l.fuel = some c := by
  simp [plane, Cell.point_injective.eq_iff]

end Level

namespace Rocket

/-- One command. The mark that it leaves on the trail does not show on the plane. -/
theorem footstep_apply (unsolved : r.completed = false) (k : Command) :
    (r.apply l k).footstep = r.walker.next l.plane k := by
  have h := r.acts l k
  generalize r.apply l k = a at h ⊢
  cases h with
  | ignored solved => cases unsolved.symm.trans solved
  | moved _ way =>
    obtain ⟨hpoint, hfree⟩ := Level.destination_point way
    simp [Applied.footstep, walker, Walker.next, Event.reason?, mark, hpoint, hfree]
  | blocked _ way =>
    have hreason := Level.reason?_of_destination way
    simp [Applied.footstep, walker, Walker.next, Event.reason?, mark, hreason]
  | turnedLeft =>
    simp [Applied.footstep, walker, Walker.next, Event.reason?, mark, Heading.number_left]
  | turnedRight =>
    simp [Applied.footstep, walker, Walker.next, Event.reason?, mark, Heading.number_right]
  | collected _ tank =>
    have hfuel : l.plane.fuel = some r.position.point := Level.fuel_plane.mpr tank
    simp [Applied.footstep, Walker.next, Event.reason?, hfuel, walker, mark]
  | collectFailed _ bare =>
    have hfuel : l.plane.fuel ≠ some r.position.point := Level.fuel_plane.not.mpr bare
    simp [Applied.footstep, Walker.next, Event.reason?, hfuel, walker, mark]

theorem footsteps_eq (unsolved : r.completed = false) (cs : List Command) :
    r.footsteps l cs = r.walker.footsteps l.plane cs := by
  induction cs generalizing r with
  | nil => rfl
  | cons k rest ih =>
    have hstep := footstep_apply (l := l) unsolved k
    have hwalker : (r.apply l k).rocket.walker = (r.walker.next l.plane k).walker :=
      congrArg Footstep.walker hstep
    rw [footsteps, Walker.footsteps, hstep, ih ((completed_apply l r k).trans unsolved), hwalker]

/-- A row of commands from the start of any level, and one more command after it. -/
theorem walks_the_plane (l : Level) (cs : List Command) :
    let start := Rocket.atStart l
    let r := start.applyAll l cs
    start.walker = .atStart l ∧
      start.footsteps l cs = (Walker.atStart l).footsteps l.plane cs ∧
      ∀ k : Command,
        ((r.apply l k).outcome = .collected ↔ k = .collect ∧ l.fuel = some r.position) ∧
        ((r.apply l k).rocket.fuelCollected = true ↔
          r.fuelCollected = true ∨ (r.apply l k).outcome = .collected) := by
  intro start r
  have hfresh : start.completed = false := rfl
  have hunsolved : r.completed = false := (completed_applyAll l start cs).trans hfresh
  refine ⟨rfl, footsteps_eq hfresh cs, ?_⟩
  intro k
  exact ⟨(r.acts l k).collected_iff hunsolved, (r.acts l k).fuelCollected_iff⟩

end Rocket

/-- The last two columns that there are: the grid ends before the cells do. -/
example :
    let l : Level :=
      { id := 1, gridSize := 4294967295, start := ⟨4294967293, 0⟩, startHeading := .east,
        goal := ⟨0, 0⟩ }
    (Rocket.atStart l).footsteps l [.move, .move, .turnLeft, .move] =
      [⟨⟨(4294967294, 0), 1, false⟩, .moved, []⟩,
        ⟨⟨(4294967294, 0), 1, false⟩, .blocked, [.outOfBounds]⟩,
        ⟨⟨(4294967294, 0), 0, false⟩, .turned, []⟩,
        ⟨⟨(4294967294, 0), 0, false⟩, .blocked, [.outOfBounds]⟩] := by
  decide +kernel

end RocketPuzzle
