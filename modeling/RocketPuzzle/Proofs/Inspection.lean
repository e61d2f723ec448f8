import RocketPuzzle.Proofs.Moves
import RocketPuzzle.Proofs.Validity

/-! # The first fault of a catalog

A catalog that is turned down is turned down for the first rule that is broken in it: the tutorial
is looked at before the levels, the levels in their order, and the rules of an entry in theirs.
-/
namespace RocketPuzzle.Catalog

/-- What an entry of the catalog is held to: a grid with cells, a feature within it, a number other
than the tutorial's, and a number that no earlier level has. -/
inductive Rule where
  | grid
  | inside (feature : Feature)
  | apart
  | unused
  deriving DecidableEq, Repr

def Rule.rank : Rule → Nat
  | grid => 0
  | inside .start => 1
  | inside .goal => 2
  | inside .fuel => 3
  | apart => 4
  | unused => 5

theorem Rule.rank_injective {a b : Rule} (h : a.rank = b.rank) : a = b := by
  rcases a with _ | (_ | _ | _) | _ | _ <;> rcases b with _ | (_ | _ | _) | _ | _ <;>
    first | rfl | cases h

def Feature.cell? (l : Level) : Feature → Option Cell
  | start => some l.start
  | goal => some l.goal
  | fuel => l.fuel

/-- A rule that a level breaks by itself, and the fault that this is. -/
inductive Flaw (l : Level) : Rule → Fault → Prop where
  | grid (empty : l.gridSize = 0) : Flaw l .grid (.emptyGrid l.id)
  | inside {feature cell} (placed : feature.cell? l = some cell)
      (outside : l.contains cell = false) :
      Flaw l (.inside feature) (.outsideGrid l.id feature cell l.gridSize)

/-- A rule that an entry breaks. The tutorial is entry zero, and the levels follow it. -/
inductive Breach (c : Curriculum) : Nat → Rule → Fault → Prop where
  | tutorial {rule f} (flaw : Flaw c.tutorial rule f) : Breach c 0 rule f
  | level {k l rule f} (entry : c.levels[k]? = some l) (flaw : Flaw l rule f) :
      Breach c (k + 1) rule f
  | apart {k l} (entry : c.levels[k]? = some l) (same : l.id = c.tutorial.id) :
      Breach c (k + 1) .apart (.tutorialIdReused l.id)
  | unused {j k l m} (entry : c.levels[k]? = some l) (before : j < k)
      (earlier : c.levels[j]? = some m) (same : m.id = l.id) :
      Breach c (k + 1) .unused (.duplicateId l.id)

/-- The fault of the breach that comes before all others, by its entry and then by its rule. -/
def FirstFault (c : Curriculum) (f : Fault) : Prop :=
  ∃ entry rule, Breach c entry rule f ∧ ∀ entry' rule' f', Breach c entry' rule' f' →
    entry < entry' ∨ entry = entry' ∧ rule.rank ≤ rule'.rank

variable {l : Level} {c : Curriculum} {rule : Rule} {f g : Fault} {entry : Nat}

namespace Flaw

theorem not_sound (h : Flaw l rule f) : ¬ l.Sound := by
  intro sound
  cases h with
  | grid empty => exact sound.grid empty
  | @inside feature cell placed outside =>
    have hinside : l.contains cell = true := by
      cases feature with
      | start =>
        cases placed
        exact sound.start
      | goal =>
        cases placed
        exact sound.goal
      | fuel => exact sound.fuel cell placed
    rw [hinside] at outside
    cases outside

theorem unique (h : Flaw l rule f) (k : Flaw l rule g) : f = g := by
  cases h with
  | grid =>
    cases k
    rfl
  | inside placed =>
    cases k with
    | inside placed' =>
      cases placed.symm.trans placed'
      rfl

theorem rank_lt (h : Flaw l rule f) : rule.rank < 4 := by
  cases h with
  | grid => decide
  | @inside feature => cases feature <;> decide

/-- Flaws have at least the rank `n` where the grid has cells and holds whatever comes before. -/
theorem le_rank {n : Nat} (h : Flaw l rule f) (grid : l.gridSize ≠ 0)
    (before : ∀ feature : Feature, (Rule.inside feature).rank < n →
      ∀ cell, feature.cell? l = some cell → l.contains cell = true) : n ≤ rule.rank := by
  cases h with
  | grid empty => exact absurd empty grid
  | @inside feature cell placed outside =>
    apply Nat.le_of_not_lt
    intro hlt
    rw [before feature hlt cell placed] at outside
    cases outside

end Flaw

theorem cellFault?_eq_some {feature : Feature} {cell : Cell} :
    cellFault? l feature cell = some f ↔
      l.contains cell = false ∧ .outsideGrid l.id feature cell l.gridSize = f := by
  by_cases h : l.contains cell = true <;> simp [cellFault?, h]

/-- The fault of a level is the flaw of the lowest rank. -/
theorem levelFault?_first (h : levelFault? l = some f) :
    ∃ rule, Flaw l rule f ∧ ∀ rule' f', Flaw l rule' f' → rule.rank ≤ rule'.rank := by
  by_cases hgrid : l.gridSize = 0
  · rw [levelFault?, if_pos hgrid] at h
    cases h
    exact ⟨.grid, .grid hgrid, fun _ _ _ => Nat.zero_le _⟩
  · rw [levelFault?, if_neg hgrid] at h
    rcases Option.or_eq_some_iff.mp h with hstart | ⟨hstart, h⟩
    · obtain ⟨houtside, rfl⟩ := cellFault?_eq_some.mp hstart
      refine ⟨.inside .start, .inside rfl houtside, fun _ _ k => k.le_rank hgrid ?_⟩
      intro feature hlt
      cases feature <;> exact absurd hlt (by decide)
    rcases Option.or_eq_some_iff.mp h with hgoal | ⟨hgoal, h⟩
    · obtain ⟨houtside, rfl⟩ := cellFault?_eq_some.mp hgoal
      refine ⟨.inside .goal, .inside rfl houtside, fun _ _ k => k.le_rank hgrid ?_⟩
      intro feature hlt cell hcell
      cases feature with
      | start =>
        cases hcell
        exact cellFault?_eq_none.mp hstart
      | goal | fuel => exact absurd hlt (by decide)
    · obtain ⟨cell, hcell, hfuel⟩ := Option.bind_eq_some_iff.mp h
      obtain ⟨houtside, rfl⟩ := cellFault?_eq_some.mp hfuel
      refine ⟨.inside .fuel, .inside hcell houtside, fun _ _ k => k.le_rank hgrid ?_⟩
      intro feature hlt cell hcell
      cases feature with
      | start =>
        cases hcell
        exact cellFault?_eq_none.mp hstart
      | goal =>
        cases hcell
        exact cellFault?_eq_none.mp hgoal
      | fuel => exact absurd hlt (by decide)

theorem levelsFault?_append (tutorial : UInt32) (seen : List UInt32) (pre post : List Level) :
    levelsFault? tutorial seen (pre ++ post) =
      (levelsFault? tutorial seen pre).or
        (levelsFault? tutorial ((pre.map Level.id).reverse ++ seen) post) := by
  induction pre generalizing seen with
  | nil => rfl
  | cons l rest ih =>
    rw [List.cons_append, levelsFault?, levelsFault?, Option.or_assoc]
    congr 1
    split
    · rfl
    · split
      · rfl
      · rw [ih]
        simp

/-- The levels before the first faulty one have no fault. -/
theorem levelsFault?_split {tutorial : UInt32} {seen : List UInt32} {ls : List Level}
    (h : levelsFault? tutorial seen ls = some f) :
    ∃ pre l post, ls = pre ++ l :: post ∧ levelsFault? tutorial seen pre = none ∧
      levelsFault? tutorial ((pre.map Level.id).reverse ++ seen) [l] = some f := by
  induction ls generalizing seen with
  | nil => cases h
  | cons l rest ih =>
    rw [← List.singleton_append, levelsFault?_append] at h
    rcases Option.or_eq_some_iff.mp h with hfirst | ⟨hfirst, hrest⟩
    · exact ⟨[], l, rest, rfl, rfl, hfirst⟩
    · obtain ⟨pre, m, post, rfl, hpre, hfault⟩ := ih hrest
      refine ⟨l :: pre, m, post, rfl, ?_, ?_⟩
      · rw [← List.singleton_append, levelsFault?_append, hfirst, hpre]
        rfl
      · simpa using hfault

namespace Breach

theorem unique (h : Breach c entry rule f) (k : Breach c entry rule g) : f = g := by
  cases h with
  | tutorial flaw =>
    cases k with
    | tutorial flaw' => exact flaw.unique flaw'
  | level here flaw =>
    cases k with
    | level here' flaw' =>
      cases here.symm.trans here'
      exact flaw.unique flaw'
    | apart | unused => cases flaw
  | apart here =>
    cases k with
    | level _ flaw => cases flaw
    | apart here' =>
      cases here.symm.trans here'
      rfl
  | unused here =>
    cases k with
    | level _ flaw => cases flaw
    | unused here' =>
      cases here.symm.trans here'
      rfl

theorem not_sound (h : Breach c entry rule f) : ¬ c.Sound := by
  intro sound
  cases h with
  | tutorial flaw => exact flaw.not_sound sound.tutorial
  | level here flaw => exact flaw.not_sound (sound.levels _ (List.mem_of_getElem? here))
  | apart here same => exact sound.apart _ (List.mem_of_getElem? here) same
  | @unused j k l m here before earlier same =>
    have hdistinct := List.pairwise_iff_getElem.mp (List.pairwise_map.mp sound.distinct)
    obtain ⟨hk, rfl⟩ := List.getElem?_eq_some_iff.mp here
    obtain ⟨hj, rfl⟩ := List.getElem?_eq_some_iff.mp earlier
    exact hdistinct j k hj hk before same

/-- What the first entries break does not depend on the entries after them. -/
theorem of_append {tutorial : Level} {pre post : List Level}
    (h : Breach ⟨tutorial, pre ++ post⟩ entry rule f) (early : entry ≤ pre.length) :
    Breach ⟨tutorial, pre⟩ entry rule f := by
  have hsame : ∀ {k : Nat} {l : Level}, k < pre.length → (pre ++ post)[k]? = some l →
      pre[k]? = some l := fun hk h => (List.getElem?_append_left hk).symm.trans h
  cases h with
  | tutorial flaw => exact .tutorial flaw
  | level here flaw => exact .level (hsame early here) flaw
  | apart here same => exact .apart (hsame early here) same
  | unused here before earlier same =>
    exact .unused (hsame early here) before (hsame (Nat.lt_trans before early) earlier) same

end Breach

theorem FirstFault.unique (h : FirstFault c f) (k : FirstFault c g) : f = g := by
  obtain ⟨entry, rule, hbreach, hfirst⟩ := h
  obtain ⟨entry', rule', hbreach', hfirst'⟩ := k
  have hle := hfirst _ _ _ hbreach'
  have hge := hfirst' _ _ _ hbreach
  obtain rfl : entry = entry' := by omega
  obtain rfl : rule = rule' := Rule.rank_injective (by omega)
  exact hbreach.unique hbreach'

/-- The fault of an entry is its breach of the lowest rank. -/
theorem levelsFault?_first {tutorial : Level} {pre : List Level} (post : List Level)
    (h : levelsFault? tutorial.id (pre.map Level.id).reverse [l] = some f) :
    ∃ rule, Breach ⟨tutorial, pre ++ l :: post⟩ (pre.length + 1) rule f ∧
      ∀ rule' f', Breach ⟨tutorial, pre ++ l :: post⟩ (pre.length + 1) rule' f' →
        rule.rank ≤ rule'.rank := by
  have hhere : (pre ++ l :: post)[pre.length]? = some l := by simp
  rw [levelsFault?] at h
  rcases Option.or_eq_some_iff.mp h with hflaw | ⟨hsound, h⟩
  · obtain ⟨rule, hflaw, hfirst⟩ := levelFault?_first hflaw
    refine ⟨rule, .level hhere hflaw, ?_⟩
    intro rule' f' k
    cases k with
    | level here flaw =>
      cases hhere.symm.trans here
      exact hfirst _ _ flaw
    | apart => exact Nat.le_of_lt hflaw.rank_lt
    | unused => exact Nat.le_of_lt (Nat.lt_succ_of_lt hflaw.rank_lt)
  have hflawless : ∀ {rule f}, ¬ Flaw l rule f :=
    fun flaw => flaw.not_sound (levelFault?_eq_none.mp hsound)
  split at h
  · next hsame =>
    cases h
    refine ⟨.apart, .apart hhere hsame, ?_⟩
    intro rule' f' k
    cases k with
    | level here flaw =>
      cases hhere.symm.trans here
      exact absurd flaw hflawless
    | apart => exact Nat.le_refl _
    | unused => decide
  · next happart =>
    split at h
    · next hused =>
      cases h
      obtain ⟨m, hm, hid⟩ := List.mem_map.mp (List.mem_reverse.mp hused)
      obtain ⟨j, hj, rfl⟩ := List.getElem_of_mem hm
      have hearlier : (pre ++ l :: post)[j]? = some pre[j] := by
        rw [List.getElem?_append_left hj, List.getElem?_eq_getElem hj]
      refine ⟨.unused, .unused hhere hj hearlier hid, ?_⟩
      intro rule' f' k
      cases k with
      | level here flaw =>
        cases hhere.symm.trans here
        exact absurd flaw hflawless
      | apart here same =>
        cases hhere.symm.trans here
        exact absurd same happart
      | unused => exact Nat.le_refl _
    · cases h

theorem firstFault_of_fault? (h : fault? c = some f) : FirstFault c f := by
  obtain ⟨tutorial, levels⟩ := c
  rcases Option.or_eq_some_iff.mp h with htutorial | ⟨htutorial, hlevels⟩
  · obtain ⟨rule, hflaw, hfirst⟩ := levelFault?_first htutorial
    refine ⟨0, rule, .tutorial hflaw, ?_⟩
    intro entry' rule' f' k
    cases k with
    | tutorial flaw => exact Or.inr ⟨rfl, hfirst _ _ flaw⟩
    | level | apart | unused => exact Or.inl (Nat.succ_pos _)
  · obtain ⟨pre, l, post, rfl, hpre, hfault⟩ := levelsFault?_split hlevels
    have hsound : Curriculum.Sound ⟨tutorial, pre⟩ :=
      fault?_eq_none.mp (Option.or_eq_none_iff.mpr ⟨htutorial, hpre⟩)
    rw [List.append_nil] at hfault
    obtain ⟨rule, hbreach, hfirst⟩ := levelsFault?_first post hfault
    refine ⟨pre.length + 1, rule, hbreach, ?_⟩
    intro entry' rule' f' k
    -- the entries before this one are sound by themselves
    rcases Nat.lt_or_ge pre.length entry' with hlater | hearly
    · rcases Nat.lt_or_eq_of_le hlater with hlt | rfl
      · exact Or.inl hlt
      · exact Or.inr ⟨rfl, hfirst _ _ k⟩
    · exact absurd hsound (k.of_append hearly).not_sound

theorem fault?_eq_some : fault? c = some f ↔ FirstFault c f := by
  constructor
  · exact firstFault_of_fault?
  · intro hfirst
    cases hfault : fault? c with
    | none =>
      obtain ⟨_, _, hbreach, _⟩ := hfirst
      exact absurd (fault?_eq_none.mp hfault) hbreach.not_sound
    | some g => rw [(firstFault_of_fault? hfault).unique hfirst]

/-- Every catalog is accepted as it stands or turned down for its first fault, and which of the two
is decided by the rules alone. -/
theorem checked_by_the_rules (c : Curriculum) :
    (checked (some c) = (.ok c, [.catalogLoaded c.size]) ↔ c.Sound) ∧
      (∀ f, checked (some c) = (.error (.faulty f), [.catalogRejected f.message]) ↔
        FirstFault c f) ∧
      (c.Sound ∨ ∃ f, FirstFault c f) ∧
      ∀ text, parse? text = some c → ofText text = checked (some c) := by
  simp only [← fault?_eq_none, ← fault?_eq_some]
  refine ⟨?_, ?_, ?_, ?_⟩
  · cases hfault : fault? c <;> simp [checked, hfault]
  · intro f
    cases hfault : fault? c with
    | none => simp [checked, hfault]
    | some g =>
      simp only [checked, hfault, Prod.mk.injEq, Except.error.injEq, Error.faulty.injEq,
        Option.some.injEq]
      constructor
      · exact And.left
      · rintro rfl
        exact ⟨rfl, rfl⟩
  · cases fault? c with
    | none => exact Or.inl rfl
    | some f => exact Or.inr ⟨f, rfl⟩
  · intro text hparsed
    rw [ofText, hparsed]

/-- The second level has its goal and its fuel outside, and the number of the first. -/
def faultyText : String :=
  "tutorial = [0,\"\",\"\",\"\",3,[0,1],\"EAST\",[2,1]]\n" ++
  "level = [[1,\"\",\"\",\"\",3,[0,1],\"EAST\",[2,1]]," ++
  "[1,\"\",\"\",\"\",3,[0,1],\"EAST\",[5,1],[1,3]]]"

def faulty : Curriculum :=
  ⟨corridor 0, [corridor 1, { corridor 1 with goal := ⟨5, 1⟩, fuel := some ⟨1, 3⟩ }]⟩

theorem checked_by_the_rules_goal :
    parse? faultyText = some faulty ∧ FirstFault faulty (.outsideGrid 1 .goal ⟨5, 1⟩ 3) ∧
      (ofText faultyText).1 = .error (.faulty (.outsideGrid 1 .goal ⟨5, 1⟩ 3)) := by
  have hparsed : parse? faultyText = some faulty := by decide +kernel
  have hfirst : FirstFault faulty (.outsideGrid 1 .goal ⟨5, 1⟩ 3) :=
    fault?_eq_some.mp (by decide)
  obtain ⟨_, herror, _, htext⟩ := checked_by_the_rules faulty
  refine ⟨hparsed, hfirst, ?_⟩
  rw [htext faultyText hparsed, (herror _).mpr hfirst]

end RocketPuzzle.Catalog
