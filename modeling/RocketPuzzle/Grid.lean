/-! # Cells and headings

A square grid has its origin in the top-left corner. Columns grow to the east and rows to the
south, so a step to the north lowers the row.
-/
namespace RocketPuzzle

/-- A cardinal facing, in clockwise order. -/
inductive Heading where
  | north
  | east
  | south
  | west
  deriving DecidableEq, Repr

namespace Heading

def ordinal : Heading → Nat
  | north => 0
  | east => 1
  | south => 2
  | west => 3

def ofOrdinal? : Nat → Option Heading
  | 0 => some north
  | 1 => some east
  | 2 => some south
  | 3 => some west
  | _ => none

/-- A quarter turn clockwise. -/
def right : Heading → Heading
  | north => east
  | east => south
  | south => west
  | west => north

/-- A quarter turn counter-clockwise. -/
def left : Heading → Heading
  | north => west
  | east => north
  | south => east
  | west => south

/-- The columns and rows that one move covers. -/
def offset : Heading → Int × Int
  | north => (0, -1)
  | east => (1, 0)
  | south => (0, 1)
  | west => (-1, 0)

/-- The lower-case name of the facing. -/
def name : Heading → String
  | north => "north"
  | east => "east"
  | south => "south"
  | west => "west"

theorem ofOrdinal?_ordinal (h : Heading) : ofOrdinal? h.ordinal = some h := by
  cases h <;> rfl

theorem left_right (h : Heading) : h.right.left = h := by
  cases h <;> rfl

theorem right_left (h : Heading) : h.left.right = h := by
  cases h <;> rfl

end Heading

/-- A cell by its column and row, counted from zero. -/
structure Cell where
  x : UInt32
  y : UInt32
  deriving DecidableEq, Repr

namespace Cell

/-- Column first, then row. -/
def Before (a b : Cell) : Prop := a.x < b.x ∨ a.x = b.x ∧ a.y < b.y

instance : LT Cell := ⟨Before⟩

instance (a b : Cell) : Decidable (a < b) :=
  inferInstanceAs (Decidable (_ ∨ _ ∧ _))

/-- A coordinate moved by `d`, or nothing where no coordinate has that value. -/
def shift (c : UInt32) (d : Int) : Option UInt32 :=
  let moved := (c.toNat : Int) + d
  if 0 ≤ moved ∧ moved < UInt32.size then some (UInt32.ofNat moved.toNat) else none

/-- The neighbour along `h`, or nothing at the rim of the coordinates. The rim of a level lies
inside it and is the level's own rule. -/
def step (c : Cell) (h : Heading) : Option Cell := do
  let x ← shift c.x h.offset.1
  let y ← shift c.y h.offset.2
  return ⟨x, y⟩

theorem lt_irrefl (a : Cell) : ¬ a < a := by
  rintro (h | ⟨_, h⟩) <;> exact UInt32.lt_irrefl _ h

theorem lt_trans {a b c : Cell} (h : a < b) (k : b < c) : a < c := by
  rcases h with h | ⟨hx, hy⟩ <;> rcases k with k | ⟨kx, ky⟩
  · exact .inl (UInt32.lt_trans h k)
  · exact .inl (kx ▸ h)
  · exact .inl (hx ▸ k)
  · exact .inr ⟨hx.trans kx, UInt32.lt_trans hy ky⟩

theorem lt_iff {a b : Cell} :
    a < b ↔ a.x.toNat < b.x.toNat ∨ a.x = b.x ∧ a.y.toNat < b.y.toNat := Iff.rfl

theorem lt_trichotomy (a b : Cell) : a < b ∨ a = b ∨ b < a := by
  obtain ⟨ax, ay⟩ := a
  obtain ⟨bx, bY⟩ := b
  simp only [lt_iff, mk.injEq, ← UInt32.toNat_inj]
  omega

end Cell

end RocketPuzzle
