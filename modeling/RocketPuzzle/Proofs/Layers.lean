import Mathlib.Data.List.Count
import Mathlib.Data.List.Nodup
import Mathlib.Order.WellFounded
import RocketPuzzle.Frame
import RocketPuzzle.Proofs.Moves

/-! # What a frame shows

Every cell of the grid shows the topmost of the layers that cover it. The trail is searched by
halves, and that finds what is in the set of visited cells and nothing else. The rocket is drawn
once where it is on the grid, and nothing else looks like it.
-/
namespace RocketPuzzle

/-! ## The cells of a grid -/

namespace Level

/-- The cells of the grid, row by row. -/
def cells (l : Level) : List Cell :=
  (Frame.axis l).flatMap fun y => (Frame.axis l).map fun x => ⟨x, y⟩

variable {l : Level} {c : Cell} {n : UInt32}

theorem getElem?_axis (h : n < l.gridSize) : (Frame.axis l)[n.toNat]? = some n := by
  have hlt : n.toNat < l.gridSize.toNat := h
  simp [Frame.axis, List.getElem?_range hlt]

theorem mem_axis : n ∈ Frame.axis l ↔ n < l.gridSize := by
  constructor
  · intro h
    obtain ⟨k, hk, rfl⟩ := List.mem_map.mp h
    have hlt := List.mem_range.mp hk
    have hword := Nat.lt_trans hlt l.gridSize.toNat_lt
    rwa [UInt32.lt_iff_toNat_lt, UInt32.toNat_ofNat_of_lt' hword]
  · intro h
    exact List.mem_of_getElem? (getElem?_axis h)

theorem nodup_axis (l : Level) : (Frame.axis l).Nodup := by
  apply List.Nodup.map_on _ List.nodup_range
  intro i hi j hj h
  have hi := Nat.lt_trans (List.mem_range.mp hi) l.gridSize.toNat_lt
  have hj := Nat.lt_trans (List.mem_range.mp hj) l.gridSize.toNat_lt
  rw [← UInt32.toNat_ofNat_of_lt' hi, h, UInt32.toNat_ofNat_of_lt' hj]

theorem mem_cells : c ∈ l.cells ↔ l.contains c = true := by
  obtain ⟨x, y⟩ := c
  simp only [cells, List.mem_flatMap, List.mem_map, mem_axis, Cell.mk.injEq, contains,
    Bool.and_eq_true, decide_eq_true_eq]
  constructor
  · rintro ⟨_, hy, _, hx, rfl, rfl⟩
    exact ⟨hx, hy⟩
  · rintro ⟨hx, hy⟩
    exact ⟨y, hy, x, hx, rfl, rfl⟩

theorem nodup_cells (l : Level) : l.cells.Nodup := by
  rw [cells, List.nodup_flatMap]
  constructor
  · intro y _
    exact l.nodup_axis.map fun _ _ h => (Cell.mk.inj h).1
  · apply l.nodup_axis.imp
    intro y z hne c hy hz
    obtain ⟨_, _, rfl⟩ := List.mem_map.mp hy
    obtain ⟨_, _, h⟩ := List.mem_map.mp hz
    exact hne (Cell.mk.inj h).2.symm

end Level

/-! ## Layers -/

/-- The arrows that a rocket can be drawn as. -/
def Heading.glyphs : List Char := [north, east, south, west].map glyph

/-- What can be drawn on a cell, from top to bottom. -/
inductive Layer where
  | rocket
  | wall
  | star
  | tank
  | trail
  deriving DecidableEq, Repr

namespace Layer

/-- The number of layers above. -/
def depth : Layer → Nat
  | rocket => 0
  | wall => 1
  | star => 2
  | tank => 3
  | trail => 4

def glyph (r : Rocket) : Layer → Char
  | rocket => r.heading.glyph
  | wall => '#'
  | star => '*'
  | tank => 'F'
  | trail => '.'

/-- The layer has something to draw on the cell. -/
def Covers (l : Level) (r : Rocket) (c : Cell) : Layer → Prop
  | rocket => c = r.position
  | wall => c ∈ l.obstacles
  | star => c = l.goal ∧ r.completed = false
  | tank => l.fuel = some c ∧ r.fuelCollected = false
  | trail => c ∈ r.trail

instance (l : Level) (r : Rocket) (c : Cell) : (k : Layer) → Decidable (k.Covers l r c)
  | rocket => inferInstanceAs (Decidable (_ = _))
  | wall => inferInstanceAs (Decidable (_ ∈ _))
  | star | tank => inferInstanceAs (Decidable (_ ∧ _))
  | trail => inferInstanceAs (Decidable (c ∈ r.trail.cells))

/-- The layer covers the cell, and none above it does. -/
structure Topmost (l : Level) (r : Rocket) (c : Cell) (k : Layer) : Prop where
  covers : k.Covers l r c
  above : ∀ j : Layer, j.depth < k.depth → ¬ j.Covers l r c

end Layer

/-- The cell shows `g`: where nothing above it covers the cell, a layer is seen just if it covers
the cell itself, and a cell that nothing covers is blank. -/
structure Draws (l : Level) (r : Rocket) (c : Cell) (g : Char) : Prop where
  layer : ∀ k : Layer, (∀ j : Layer, j.depth < k.depth → ¬ j.Covers l r c) →
    (g = k.glyph r ↔ k.Covers l r c)
  blank : g = ' ' ↔ ∀ k : Layer, ¬ k.Covers l r c

variable {l : Level} {r : Rocket} {c : Cell} {s : Snapshot} {j k : Layer}

namespace Layer

theorem depth_injective : Function.Injective depth := by
  intro j k h
  cases j <;> cases k <;> first | rfl | cases h

/-- No two layers look alike. -/
theorem glyph_injective (r : Rocket) : Function.Injective (glyph r) := by
  intro j k h
  cases hr : r.heading <;> cases j <;> cases k <;>
    first | rfl | simp [glyph, Heading.glyph, hr] at h

theorem glyph_ne_blank (r : Rocket) (k : Layer) : k.glyph r ≠ ' ' := by
  cases hr : r.heading <;> cases k <;> simp [glyph, Heading.glyph, hr]

theorem exists_topmost (h : ∃ k : Layer, k.Covers l r c) : ∃ k : Layer, k.Topmost l r c := by
  obtain ⟨k, hcovers, hleast⟩ := (measure depth).wf.has_min {k | k.Covers l r c} h
  exact ⟨k, hcovers, fun j hj hcovers => hleast j hcovers hj⟩

theorem glyph_mem_arrows : k.glyph r ∈ Heading.glyphs ↔ k = .rocket := by
  cases hr : r.heading <;> cases k <;> simp [glyph, Heading.glyphs, Heading.glyph, hr]

/-- A layer that covers the cell lies nowhere above the topmost one. -/
theorem Topmost.depth_le (h : k.Topmost l r c) (covers : j.Covers l r c) : k.depth ≤ j.depth :=
  Nat.le_of_not_lt fun hlt => h.above j hlt covers

theorem Topmost.draws (h : Topmost l r c k) : Draws l r c (k.glyph r) where
  layer := by
    intro j hj
    constructor
    · intro hglyph
      rw [← glyph_injective r hglyph]
      exact h.covers
    · intro hcovers
      have hother : j.Topmost l r c := ⟨hcovers, hj⟩
      rw [depth_injective (Nat.le_antisymm (h.depth_le hcovers) (hother.depth_le h.covers))]
  blank := by
    constructor
    · exact fun hblank => absurd hblank (glyph_ne_blank r k)
    · exact fun hbare => absurd h.covers (hbare k)

theorem draws_blank (h : ∀ k : Layer, ¬ k.Covers l r c) : Draws l r c ' ' where
  layer := by
    intro k _
    constructor
    · exact fun hglyph => absurd hglyph.symm (glyph_ne_blank r k)
    · exact fun hcovers => absurd hcovers (h k)
  blank := ⟨fun _ => h, fun _ => rfl⟩

end Layer

theorem Trail.sortedContains_iff {t : Trail} :
    sortedContains t.cells.toArray c = true ↔ c ∈ t := by
  have hsorted : t.cells.toArray.toList.Pairwise (· < ·) := t.ascending
  rw [RocketPuzzle.sortedContains_iff hsorted, List.mem_toArray, Trail.mem_def]

theorem Trail.mem_ofList {cells : List Cell} : c ∈ ofList cells ↔ c ∈ cells := by
  have hfrom : ∀ t : Trail, c ∈ cells.foldl insert t ↔ c ∈ cells ∨ c ∈ t := by
    induction cells with
    | nil => simp
    | cons d rest ih =>
      intro t
      rw [List.foldl_cons, ih, mem_insert, List.mem_cons, ← or_assoc, or_comm (a := c ∈ rest)]
  simpa [ofList] using hfrom empty

namespace Frame

/-- The glyph of a cell in the frame of a rocket. -/
def seen (l : Level) (r : Rocket) (c : Cell) : Char :=
  glyph l r.snapshot r.snapshot.visited.toArray c

/-- The layers are looked through from the top. -/
theorem seen_eq (l : Level) (r : Rocket) (c : Cell) :
    seen l r c =
      if Layer.rocket.Covers l r c then Layer.rocket.glyph r
      else if Layer.wall.Covers l r c then Layer.wall.glyph r
      else if Layer.star.Covers l r c then Layer.star.glyph r
      else if Layer.tank.Covers l r c then Layer.tank.glyph r
      else if Layer.trail.Covers l r c then Layer.trail.glyph r
      else ' ' := by
  have htrail := Trail.sortedContains_iff (t := r.trail) (c := c)
  rw [Trail.mem_def] at htrail
  simp [seen, glyph, Rocket.snapshot, Level.isObstacle, Layer.Covers, Layer.glyph, Trail.mem_def,
    htrail]

theorem seen_of_topmost (h : k.Topmost l r c) : seen l r c = k.glyph r := by
  have hcovers := h.covers
  have habove : ∀ j : Layer, j.depth < k.depth → ¬ j.Covers l r c := h.above
  rw [seen_eq]
  cases k with
  | rocket => exact if_pos hcovers
  | wall => rw [if_neg (habove .rocket (by decide)), if_pos hcovers]
  | star =>
    rw [if_neg (habove .rocket (by decide)), if_neg (habove .wall (by decide)), if_pos hcovers]
  | tank =>
    rw [if_neg (habove .rocket (by decide)), if_neg (habove .wall (by decide)),
      if_neg (habove .star (by decide)), if_pos hcovers]
  | trail =>
    rw [if_neg (habove .rocket (by decide)), if_neg (habove .wall (by decide)),
      if_neg (habove .star (by decide)), if_neg (habove .tank (by decide)), if_pos hcovers]

theorem seen_of_bare (h : ∀ k : Layer, ¬ k.Covers l r c) : seen l r c = ' ' := by
  rw [seen_eq, if_neg (h .rocket), if_neg (h .wall), if_neg (h .star), if_neg (h .tank),
    if_neg (h .trail)]

theorem draws_seen (l : Level) (r : Rocket) (c : Cell) : Draws l r c (seen l r c) := by
  by_cases hcovered : ∃ k : Layer, k.Covers l r c
  · obtain ⟨k, htop⟩ := Layer.exists_topmost hcovered
    rw [seen_of_topmost htop]
    exact htop.draws
  · have hbare := not_exists.mp hcovered
    rw [seen_of_bare hbare]
    exact Layer.draws_blank hbare

/-! ## The whole picture -/

/-- The glyphs of a frame, row by row. -/
def glyphs (f : Frame) : List Char := f.rows.flatMap String.toList

/-- The arrows of a frame, whichever way they point. -/
def arrows (f : Frame) : List Char := f.glyphs.filter (· ∈ Heading.glyphs)

theorem rows_compose (l : Level) (r : Rocket) :
    (compose l r.snapshot).rows =
      (axis l).map fun y => String.ofList ((axis l).map fun x => seen l r ⟨x, y⟩) := rfl

theorem glyphs_compose (l : Level) (r : Rocket) :
    (compose l r.snapshot).glyphs = l.cells.map (seen l r) := by
  simp only [glyphs, rows_compose, Level.cells, List.flatMap_map, List.map_flatMap, List.map_map,
    String.toList_ofList]
  rfl

theorem lengths_compose (l : Level) (r : Rocket) :
    (compose l r.snapshot).rows.map String.length =
      List.replicate l.gridSize.toNat l.gridSize.toNat := by
  have hsize : (axis l).length = l.gridSize.toNat := by simp [axis]
  rw [rows_compose, List.map_map, ← hsize, List.map_eq_replicate_iff]
  intro y _
  simp [hsize]

/-- Each cell is found where it belongs. -/
theorem exists_row (r : Rocket) (h : l.contains c = true) :
    ∃ row, (compose l r.snapshot).rows[c.y.toNat]? = some row ∧
      row.toList[c.x.toNat]? = some (seen l r c) := by
  obtain ⟨hx, hy⟩ : c.x < l.gridSize ∧ c.y < l.gridSize := by simpa [Level.contains] using h
  refine ⟨String.ofList ((axis l).map fun x => seen l r ⟨x, c.y⟩), ?_, ?_⟩
  · rw [rows_compose, List.getElem?_map, Level.getElem?_axis hy]
    rfl
  · rw [String.toList_ofList, List.getElem?_map, Level.getElem?_axis hx]
    rfl

/-- Whichever way the rocket looks, nothing else on the grid is an arrow. -/
theorem seen_mem_arrows : seen l r c ∈ Heading.glyphs ↔ c = r.position := by
  have hrocket : seen l r c = Layer.rocket.glyph r ↔ c = r.position :=
    (draws_seen l r c).layer .rocket nofun
  rw [← hrocket]
  by_cases hcovered : ∃ k : Layer, k.Covers l r c
  · obtain ⟨k, htop⟩ := Layer.exists_topmost hcovered
    rw [seen_of_topmost htop, Layer.glyph_mem_arrows, (Layer.glyph_injective r).eq_iff]
  · have hblank : ' ' ∉ Heading.glyphs := by decide
    rw [seen_of_bare (not_exists.mp hcovered)]
    exact iff_of_false hblank fun h => Layer.glyph_ne_blank r .rocket h.symm

theorem arrows_compose (l : Level) (r : Rocket) :
    (compose l r.snapshot).arrows =
      if l.contains r.position = true then [r.heading.glyph] else [] := by
  have hone : l.cells.filter (fun c => seen l r c ∈ Heading.glyphs) =
      List.replicate (l.cells.count r.position) r.position := by
    rw [← List.filter_beq]
    simp only [seen_mem_arrows]
    rfl
  have hfound : seen l r r.position = r.heading.glyph :=
    seen_of_topmost (k := .rocket) ⟨rfl, nofun⟩
  rw [arrows, glyphs_compose, List.filter_map]
  change List.map _ (l.cells.filter fun c => seen l r c ∈ Heading.glyphs) = _
  rw [hone, l.nodup_cells.count, List.map_replicate, hfound]
  simp only [Level.mem_cells]
  split <;> rfl

/-- What is drawn of a rocket: a square of glyphs that shows the layers of each cell, and in it one
arrow where the rocket is on the grid. A trail in ascending order is as good as the set of the cells
that it was made of, whichever they are. -/
theorem draws_the_state (l : Level) (r : Rocket) :
    let f := compose l r.snapshot
    f.rows.map String.length = List.replicate l.gridSize.toNat l.gridSize.toNat ∧
      (∀ c, l.contains c = true →
        ∃ row g, f.rows[c.y.toNat]? = some row ∧ row.toList[c.x.toNat]? = some g ∧
          Draws l r c g) ∧
      f.arrows = (if l.contains r.position = true then [r.heading.glyph] else []) ∧
      ∀ cells c, sortedContains (Trail.ofList cells).cells.toArray c = true ↔ c ∈ cells := by
  refine ⟨lengths_compose l r, ?_, arrows_compose l r, ?_⟩
  · intro c hc
    obtain ⟨row, hrow, hglyph⟩ := exists_row r hc
    exact ⟨row, _, hrow, hglyph, draws_seen l r c⟩
  · intro cells c
    rw [Trail.sortedContains_iff, Trail.mem_ofList]

/-- A wall that stands on the star, and a rocket over the fuel. -/
theorem draws_the_state_over_the_fuel :
    let l : Level := { corridor 1 with fuel := some ⟨1, 1⟩, obstacles := [⟨2, 1⟩] }
    let r := ((Rocket.atStart l).apply l .move).rocket
    let f := compose l r.snapshot
    l.contains ⟨2, 1⟩ = true ∧ f.rows = ["   ", ".>#", "   "] ∧ Draws l r ⟨2, 1⟩ '#' ∧
      f.arrows = ['>'] := by
  intro l r f
  obtain ⟨_, hcells, harrows, _⟩ := draws_the_state l r
  have hinside : l.contains ⟨2, 1⟩ = true := by decide
  have hrows : f.rows = ["   ", ".>#", "   "] := by decide +kernel
  obtain ⟨row, g, hrow, hglyph, hdraws⟩ := hcells ⟨2, 1⟩ hinside
  obtain rfl : ".>#" = row := by
    rw [hrows] at hrow
    exact Option.some.inj hrow
  obtain rfl : '#' = g := Option.some.inj hglyph
  have hrocket : l.contains r.position = true := by decide
  have harrow : r.heading.glyph = '>' := by decide
  rw [if_pos hrocket, harrow] at harrows
  exact ⟨hinside, hrows, hdraws, harrows⟩

end Frame

end RocketPuzzle
