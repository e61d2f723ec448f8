import RocketPuzzle.Grid

/-! # Trails

The set of cells that the rocket has left behind, kept in ascending order without repetition.
Main statements: `Trail.mem_insert` says what an insertion does to the set, and `sortedContains_iff`
says that the search by halves finds exactly the members of a sorted row.
-/
namespace RocketPuzzle

/-- A cell put at its place in an ascending row, unless it is there already. -/
def insertCell (c : Cell) : List Cell → List Cell
  | [] => [c]
  | d :: rest => if c < d then c :: d :: rest else if c = d then d :: rest else d :: insertCell c rest

theorem mem_insertCell {c e : Cell} {l : List Cell} : e ∈ insertCell c l ↔ e = c ∨ e ∈ l := by
  induction l with
  | nil => simp [insertCell]
  | cons d rest ih =>
    unfold insertCell
    split
    · simp
    · split
      · next h => simp [h]
      · simp only [List.mem_cons, ih]
        constructor
        · rintro (h | h | h) <;> simp [h]
        · rintro (h | h | h) <;> simp [h]

theorem pairwise_insertCell {c : Cell} {l : List Cell} (h : l.Pairwise (· < ·)) :
    (insertCell c l).Pairwise (· < ·) := by
  induction l with
  | nil => simp [insertCell]
  | cons d rest ih =>
    obtain ⟨hd, hr⟩ := List.pairwise_cons.1 h
    unfold insertCell
    split
    · next hc =>
      exact List.pairwise_cons.2 ⟨fun e he => by
        rcases List.mem_cons.1 he with rfl | he
        · exact hc
        · exact Cell.lt_trans hc (hd e he), h⟩
    · next hc =>
      split
      · exact h
      · next hne =>
        refine List.pairwise_cons.2 ⟨fun e he => ?_, ih hr⟩
        rcases mem_insertCell.1 he with rfl | he
        · rcases Cell.lt_trichotomy e d with k | k | k
          · exact absurd k hc
          · exact absurd k hne
          · exact k
        · exact hd e he

/-- A set of cells in ascending order. -/
structure Trail where
  cells : List Cell := []
  ascending : cells.Pairwise (· < ·) := by simp
  deriving DecidableEq, Repr

namespace Trail

instance : Membership Cell Trail := ⟨fun t c => c ∈ t.cells⟩

def empty : Trail := {}

def insert (t : Trail) (c : Cell) : Trail :=
  ⟨insertCell c t.cells, pairwise_insertCell t.ascending⟩

def ofList (cells : List Cell) : Trail := cells.foldl insert empty

theorem mem_def {t : Trail} {c : Cell} : c ∈ t ↔ c ∈ t.cells := Iff.rfl

@[simp] theorem not_mem_empty (c : Cell) : c ∉ empty := by
  simp [mem_def, empty]

@[simp] theorem mem_insert {t : Trail} {c e : Cell} : e ∈ t.insert c ↔ e = c ∨ e ∈ t :=
  mem_insertCell

end Trail

/-- Search by halves for `c` among the places `low`, …, `high - 1` of an ascending row. -/
def searchCell (row : Array Cell) (c : Cell) (low high : Nat) : Bool :=
  if low < high then
    let mid := (low + high) / 2
    match row[mid]? with
    | none => false
    | some d =>
      if d = c then true
      else if d < c then searchCell row c (mid + 1) high
      else searchCell row c low mid
  else false
termination_by high - low
decreasing_by all_goals omega

theorem searchCell_iff {row : Array Cell} {c : Cell} (sorted : row.toList.Pairwise (· < ·))
    {low high : Nat} (bound : high ≤ row.size) :
    searchCell row c low high = true ↔ ∃ i, low ≤ i ∧ i < high ∧ row[i]? = some c := by
  have order : ∀ {i j : Nat} {a b : Cell}, i < j → row[i]? = some a → row[j]? = some b → a < b := by
    intro i j a b hij hi hj
    obtain ⟨hi', rfl⟩ := Array.getElem?_eq_some_iff.1 hi
    obtain ⟨hj', rfl⟩ := Array.getElem?_eq_some_iff.1 hj
    exact List.pairwise_iff_getElem.1 sorted i j hi' hj' hij
  fun_induction searchCell row c low high with
  | case1 low high h mid hmid =>
    have : mid < row.size := by omega
    simp [Array.getElem?_eq_getElem this] at hmid
  | case2 low high h mid hmid => exact ⟨fun _ => ⟨mid, by omega, by omega, hmid⟩, fun _ => rfl⟩
  | case3 low high h mid d hmid hne hlt ih =>
    refine (ih bound).trans ⟨?_, ?_⟩
    · rintro ⟨i, hl, hh, hi⟩
      exact ⟨i, by omega, hh, hi⟩
    · rintro ⟨i, hl, hh, hi⟩
      refine ⟨i, ?_, hh, hi⟩
      rcases Nat.lt_trichotomy i mid with k | rfl | k
      · exact absurd (Cell.lt_trans hlt (order k hi hmid)) (Cell.lt_irrefl _)
      · exact absurd (Option.some.inj (hmid.symm.trans hi)) hne
      · omega
  | case4 low high h mid d hmid hne hlt ih =>
    refine (ih (by omega)).trans ⟨?_, ?_⟩
    · rintro ⟨i, hl, hh, hi⟩
      exact ⟨i, hl, by omega, hi⟩
    · rintro ⟨i, hl, hh, hi⟩
      refine ⟨i, hl, ?_, hi⟩
      rcases Nat.lt_trichotomy i mid with k | rfl | k
      · exact k
      · exact absurd (Option.some.inj (hmid.symm.trans hi)) hne
      · exact absurd (order k hmid hi) hlt
  | case5 low high h =>
    simp only [Bool.false_eq_true, false_iff, not_exists]
    rintro i ⟨hl, hh, _⟩
    omega

/-- Whether a row of cells in ascending order holds `c`. -/
def sortedContains (row : Array Cell) (c : Cell) : Bool := searchCell row c 0 row.size

theorem sortedContains_iff {row : Array Cell} {c : Cell}
    (sorted : row.toList.Pairwise (· < ·)) : sortedContains row c = true ↔ c ∈ row := by
  rw [sortedContains, searchCell_iff sorted (Nat.le_refl _), Array.mem_iff_getElem?]
  constructor
  · rintro ⟨i, _, _, hi⟩
    exact ⟨i, hi⟩
  · rintro ⟨i, hi⟩
    exact ⟨i, Nat.zero_le _, (Array.getElem?_eq_some_iff.1 hi).1, hi⟩

end RocketPuzzle
