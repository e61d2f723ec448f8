import RocketPuzzle.Catalog.Text

/-! # Catalogs without a fault

The check of a catalog finds no fault exactly when the catalog has none, and only such a catalog is
read from a text.
-/
namespace RocketPuzzle

/-- The grid has cells, and all that has a place on it lies inside. -/
structure Level.Sound (l : Level) : Prop where
  grid : l.gridSize ≠ 0
  start : l.contains l.start = true
  goal : l.contains l.goal = true
  fuel : ∀ f ∈ l.fuel, l.contains f = true

structure Curriculum.Sound (c : Curriculum) : Prop where
  tutorial : c.tutorial.Sound
  levels : ∀ l ∈ c.levels, l.Sound
  apart : ∀ l ∈ c.levels, l.id ≠ c.tutorial.id
  distinct : (c.levels.map Level.id).Nodup

namespace Catalog

theorem cellFault?_eq_none {l : Level} {feature : Feature} {c : Cell} :
    cellFault? l feature c = none ↔ l.contains c = true := by
  by_cases h : l.contains c = true <;> simp [cellFault?, h]

theorem levelFault?_eq_none {l : Level} : levelFault? l = none ↔ l.Sound := by
  by_cases hgrid : l.gridSize = 0
  · simp only [levelFault?, hgrid, if_true, reduceCtorEq, false_iff]
    exact fun h => h.grid hgrid
  · simp only [levelFault?, hgrid, if_false, Option.or_eq_none_iff, Option.bind_eq_none_iff,
      cellFault?_eq_none]
    constructor
    · rintro ⟨hstart, hgoal, hfuel⟩
      exact ⟨hgrid, hstart, hgoal, hfuel⟩
    · rintro ⟨_, hstart, hgoal, hfuel⟩
      exact ⟨hstart, hgoal, hfuel⟩

theorem levelsFault?_eq_none {tutorial : UInt32} {seen : List UInt32} {ls : List Level} :
    levelsFault? tutorial seen ls = none ↔
      (∀ l ∈ ls, l.Sound ∧ l.id ≠ tutorial ∧ l.id ∉ seen) ∧ (ls.map Level.id).Nodup := by
  -- Induction on the levels; `seen` holds the numbers of those before them.
  induction ls generalizing seen with
  | nil => simp [levelsFault?]
  | cons l rest ih =>
    rw [levelsFault?, Option.or_eq_none_iff, levelFault?_eq_none, List.map_cons,
      List.nodup_cons]
    by_cases htutorial : l.id = tutorial
    · simp [htutorial]
    by_cases hseen : l.id ∈ seen
    · simp [htutorial, hseen]
    simp only [htutorial, hseen, if_false, ih]
    constructor
    · rintro ⟨hl, hrest, hnodup⟩
      refine ⟨?_, ?_, hnodup⟩
      · intro m hm
        rcases List.mem_cons.mp hm with rfl | hm
        · exact ⟨hl, htutorial, hseen⟩
        · obtain ⟨hsound, happart, hnew⟩ := hrest m hm
          exact ⟨hsound, happart, fun h => hnew (List.mem_cons_of_mem _ h)⟩
      · intro hmem
        obtain ⟨m, hm, hid⟩ := List.mem_map.mp hmem
        exact (hrest m hm).2.2 (hid ▸ List.mem_cons_self ..)
    · rintro ⟨hall, hfresh, hnodup⟩
      refine ⟨(hall l (List.mem_cons_self ..)).1, ?_, hnodup⟩
      intro m hm
      obtain ⟨hsound, happart, hnew⟩ := hall m (List.mem_cons_of_mem _ hm)
      refine ⟨hsound, happart, ?_⟩
      intro hmem
      rcases List.mem_cons.mp hmem with hid | hmem
      · exact hfresh (hid ▸ List.mem_map_of_mem hm)
      · exact hnew hmem

theorem fault?_eq_none {c : Curriculum} : fault? c = none ↔ c.Sound := by
  rw [fault?, Option.or_eq_none_iff, levelFault?_eq_none, levelsFault?_eq_none]
  constructor
  · rintro ⟨htutorial, hlevels, hnodup⟩
    exact ⟨htutorial, fun l hl => (hlevels l hl).1, fun l hl => (hlevels l hl).2.1, hnodup⟩
  · rintro ⟨htutorial, hlevels, happart, hnodup⟩
    exact ⟨htutorial, fun l hl => ⟨hlevels l hl, happart l hl, List.not_mem_nil⟩, hnodup⟩

theorem checked_eq_ok {c : Curriculum} : (checked (some c)).1 = .ok c ↔ c.Sound := by
  rw [← fault?_eq_none, checked]
  cases fault? c <;> simp

/-- A text is accepted if it spells a curriculum without a fault. -/
theorem ofText_eq_ok {text : String} {c : Curriculum} :
    (ofText text).1 = .ok c ↔ parse? text = some c ∧ fault? c = none := by
  cases hd : parse? text with
  | none => simp [ofText, hd, checked]
  | some d =>
    cases hf : fault? d with
    | none =>
      simp only [ofText, hd, checked, hf, Except.ok.injEq, Option.some.injEq]
      constructor
      · rintro rfl
        exact ⟨rfl, hf⟩
      · exact And.left
    | some fault =>
      simp only [ofText, hd, checked, hf, reduceCtorEq, Option.some.injEq, false_iff, not_and]
      rintro rfl hnone
      cases hf.symm.trans hnone

theorem sound_of_ofText {text : String} {c : Curriculum} (h : (ofText text).1 = .ok c) : c.Sound :=
  fault?_eq_none.mp (ofText_eq_ok.mp h).2

end Catalog

/-- Every level that can be in play is sound if the catalog is. -/
theorem Curriculum.Sound.active {c : Curriculum} (h : c.Sound) (inTutorial : Bool) (index : Nat) :
    (c.active inTutorial index).Sound := by
  cases inTutorial with
  | true => exact h.tutorial
  | false =>
    cases hl : c.levels[index]? with
    | none => simpa [Curriculum.active, hl] using h.tutorial
    | some l => simpa [Curriculum.active, hl] using h.levels l (List.mem_of_getElem? hl)

end RocketPuzzle
