import RocketPuzzle.Proofs.Layers
import RocketPuzzle.Proofs.Logbook
import RocketPuzzle.Proofs.Numeral

/-! # What a frame tells

The state of a session in play can be read off its frame. Only the trail is told in part: not where
the grid ends, and not where something else is drawn over it.
-/
namespace RocketPuzzle

/-! ## The status line -/

/-- A number is told apart from what follows it by the first character that is no digit. -/
theorem Text.toString_append_inj {m n : Nat} {c : Char} {us vs : List Char}
    (hc : isDigit c = false)
    (h : (toString m).toList ++ c :: us = (toString n).toList ++ c :: vs) : m = n ∧ us = vs := by
  have hspan : ∀ (k : Nat) (ws : List Char),
      ((toString k).toList ++ c :: ws).takeWhile isDigit = (toString k).toList := by
    intro k ws
    rw [List.takeWhile_append_of_pos (digits_toString k).2.1,
      List.takeWhile_cons_of_neg (by simp [hc]), List.append_nil]
  have hdigits : (toString m).toList = (toString n).toList := by
    rw [← hspan m us, h, hspan]
  constructor
  · rw [← (digits_toString m).2.2, hdigits, (digits_toString n).2.2]
  · rw [hdigits] at h
    exact (List.cons.inj (List.append_cancel_left h)).2

/-- No name of a facing is the beginning of another one. -/
theorem Heading.name_append_inj {h k : Heading} {us vs : List Char}
    (same : h.name.toList ++ us = k.name.toList ++ vs) : h = k ∧ us = vs := by
  cases h <;> cases k <;> simp [name] at same <;> exact ⟨rfl, same⟩

theorem Message.text_injective : Function.Injective Message.text := by
  intro a b h
  cases a <;> cases b <;> first | rfl | simp [text] at h

/-- What the status line leaves out could not be otherwise. -/
structure Snapshot.Legible (l : Level) (p : Snapshot) : Prop where
  hasFuel : p.hasFuel = l.hasFuel
  fuel : p.fuelCollected = true → l.hasFuel = true
  ended : p.completed = true → p.running = false

namespace Frame

variable {l : Level} {p q : Snapshot} {us vs : List Char}

theorem toList_statusOf (l : Level) (p : Snapshot) :
    (statusOf l p).toList =
      "at (".toList ++ ((toString p.position.x.toNat).toList ++ ',' :: ' ' ::
        ((toString p.position.y.toNat).toList ++ ')' :: (" facing ".toList ++
          (p.heading.name.toList ++ ((fuelStatus l p).toList ++ (runStatus p).toList))))) := by
  simp [statusOf, cellText]

theorem fuelStatus_append_inj (hp : p.fuelCollected = true → l.hasFuel = true)
    (hq : q.fuelCollected = true → l.hasFuel = true)
    (h : (fuelStatus l p).toList ++ us = (fuelStatus l q).toList ++ vs) :
    p.fuelCollected = q.fuelCollected ∧ us = vs := by
  cases hfuel : l.hasFuel <;> cases hpf : p.fuelCollected <;> cases hqf : q.fuelCollected <;>
    simp_all [fuelStatus]

theorem runStatus_inj (hp : p.completed = true → p.running = false)
    (hq : q.completed = true → q.running = false) (h : runStatus p = runStatus q) :
    p.running = q.running ∧ p.completed = q.completed := by
  cases hpr : p.running <;> cases hqr : q.running <;> cases hpc : p.completed <;>
    cases hqc : q.completed <;> simp_all [runStatus]

/-- What the status line says of a snapshot. -/
structure SameStatus (p q : Snapshot) : Prop where
  position : p.position = q.position
  heading : p.heading = q.heading
  fuelCollected : p.fuelCollected = q.fuelCollected
  running : p.running = q.running
  completed : p.completed = q.completed

theorem statusOf_inj (hp : p.Legible l) (hq : q.Legible l) (h : statusOf l p = statusOf l q) :
    SameStatus p q := by
  have hline := congrArg String.toList h
  rw [toList_statusOf, toList_statusOf] at hline
  obtain ⟨hx, hline⟩ := Text.toString_append_inj rfl (List.append_cancel_left hline)
  obtain ⟨hy, hline⟩ := Text.toString_append_inj rfl (List.cons.inj hline).2
  obtain ⟨hheading, hline⟩ := Heading.name_append_inj (List.append_cancel_left hline)
  obtain ⟨hfuel, hline⟩ := fuelStatus_append_inj hp.fuel hq.fuel hline
  obtain ⟨hrunning, hcompleted⟩ := runStatus_inj hp.ended hq.ended (String.toList_inj.mp hline)
  have hposition : p.position = q.position :=
    congrArg₂ Cell.mk (UInt32.toNat_inj.mp hx) (UInt32.toNat_inj.mp hy)
  exact ⟨hposition, hheading, hfuel, hrunning, hcompleted⟩

end Frame

/-! ## The trail under the other layers -/

/-- Something is drawn over the trail. -/
def Hidden (l : Level) (r : Rocket) (c : Cell) : Prop := ∃ k : Layer, k ≠ .trail ∧ k.Covers l r c

/-- Two rockets that look the same: they differ at most in what their trails have in hidden places
and outside the grid. -/
structure Alike (l : Level) (r t : Rocket) : Prop where
  position : t.snapshot.position = r.snapshot.position
  heading : t.snapshot.heading = r.snapshot.heading
  hasFuel : t.snapshot.hasFuel = r.snapshot.hasFuel
  fuelCollected : t.snapshot.fuelCollected = r.snapshot.fuelCollected
  completed : t.snapshot.completed = r.snapshot.completed
  running : t.snapshot.running = r.snapshot.running
  message : t.snapshot.message = r.snapshot.message
  visited : ∀ c, ¬ (c ∈ t.snapshot.visited ↔ c ∈ r.snapshot.visited) →
    l.contains c = false ∨ Hidden l r c

variable {l : Level} {r t : Rocket} {c : Cell} {k : Layer}

theorem Layer.covers_congr (position : t.position = r.position)
    (completed : t.completed = r.completed) (fuel : t.fuelCollected = r.fuelCollected)
    (above : k ≠ .trail) : k.Covers l t c ↔ k.Covers l r c := by
  cases k <;> simp_all [Covers]

theorem Layer.depth_lt_trail (above : k ≠ .trail) : k.depth < trail.depth := by
  cases k <;> first | decide | exact absurd rfl above

theorem Layer.glyph_congr (heading : t.heading = r.heading) (k : Layer) :
    k.glyph t = k.glyph r := by
  cases k <;> simp [glyph, heading]

namespace Frame

/-- Where nothing is drawn over the trail, it is seen. -/
theorem seen_eq_trail (h : ¬ Hidden l r c) : seen l r c = '.' ↔ c ∈ r.trail := by
  apply (draws_seen l r c).layer .trail
  intro j hj hcovers
  refine h ⟨j, ?_, hcovers⟩
  rintro rfl
  exact Nat.lt_irrefl _ hj

/-- What is seen of a cell does not depend on a trail that is hidden there. -/
theorem seen_congr (heading : t.heading = r.heading)
    (above : ∀ k : Layer, k ≠ .trail → (k.Covers l t c ↔ k.Covers l r c))
    (trail : ¬ Hidden l r c → (c ∈ t.trail ↔ c ∈ r.trail)) : seen l t c = seen l r c := by
  by_cases hhidden : Hidden l r c
  · obtain ⟨j, hj, hcovers⟩ := hhidden
    obtain ⟨k, htop⟩ := Layer.exists_topmost ⟨j, hcovers⟩
    have hover : ∀ i : Layer, i.depth ≤ k.depth → i ≠ .trail := by
      rintro i hi rfl
      have := htop.depth_le hcovers
      have := Layer.depth_lt_trail hj
      omega
    have htop' : k.Topmost l t c := by
      refine ⟨(above k (hover k (Nat.le_refl _))).mpr htop.covers, ?_⟩
      intro i hi
      rw [above i (hover i (Nat.le_of_lt hi))]
      exact htop.above i hi
    rw [seen_of_topmost htop, seen_of_topmost htop', Layer.glyph_congr heading]
  · have hall : ∀ k : Layer, k.Covers l t c ↔ k.Covers l r c := by
      intro k
      by_cases hk : k = .trail
      · rw [hk]
        exact trail hhidden
      · exact above k hk
    simp only [seen_eq, hall, Layer.glyph_congr heading]

theorem alike_of_compose_eq (hr : r.snapshot.Legible l) (ht : t.snapshot.Legible l)
    (h : compose l r.snapshot = compose l t.snapshot) : Alike l r t := by
  have hstatus := statusOf_inj hr ht (congrArg Frame.status h)
  have hmessage : r.message = t.message :=
    Option.map_injective Message.text_injective (congrArg Frame.message h)
  have hglyphs : l.cells.map (seen l r) = l.cells.map (seen l t) := by
    rw [← glyphs_compose, h, glyphs_compose]
  have habove : ∀ c (k : Layer), k ≠ .trail → (k.Covers l r c ↔ k.Covers l t c) := fun _ _ =>
    Layer.covers_congr hstatus.position hstatus.completed hstatus.fuelCollected
  refine ⟨hstatus.position.symm, hstatus.heading.symm, ht.hasFuel.trans hr.hasFuel.symm,
    hstatus.fuelCollected.symm, hstatus.completed.symm, hstatus.running.symm, hmessage.symm, ?_⟩
  intro c hne
  by_contra hshown
  obtain ⟨hinside, hfree⟩ := not_or.mp hshown
  have hfree' : ¬ Hidden l t c := by
    rintro ⟨k, hk, hcovers⟩
    exact hfree ⟨k, hk, (habove c k hk).mpr hcovers⟩
  have hcell : c ∈ l.cells := Level.mem_cells.mpr (Bool.of_not_eq_false hinside)
  have hseen : seen l r c = seen l t c := List.map_inj_left.mp hglyphs c hcell
  apply hne
  change c ∈ t.trail ↔ c ∈ r.trail
  rw [← seen_eq_trail hfree, ← seen_eq_trail hfree', hseen]

end Frame

namespace Alike

theorem seen_eq (h : Alike l r t) (inside : l.contains c = true) :
    Frame.seen l t c = Frame.seen l r c := by
  have habove : ∀ k : Layer, k ≠ .trail → (k.Covers l t c ↔ k.Covers l r c) := fun _ =>
    Layer.covers_congr h.position h.completed h.fuelCollected
  apply Frame.seen_congr h.heading habove
  intro hfree
  by_contra hne
  rcases h.visited c hne with houtside | hhidden
  · cases inside.symm.trans houtside
  · exact hfree hhidden

theorem compose_eq (h : Alike l r t) :
    Frame.compose l r.snapshot = Frame.compose l t.snapshot := by
  have hrows : (Frame.compose l r.snapshot).rows = (Frame.compose l t.snapshot).rows := by
    rw [Frame.rows_compose, Frame.rows_compose]
    apply List.map_congr_left
    intro y hy
    congr 1
    apply List.map_congr_left
    intro x hx
    apply (h.seen_eq _).symm
    simp [Level.contains, Level.mem_axis.mp hx, Level.mem_axis.mp hy]
  have hstatus : Frame.statusOf l r.snapshot = Frame.statusOf l t.snapshot := by
    simp only [Frame.statusOf, Frame.fuelStatus, Frame.runStatus, h.position, h.heading,
      h.fuelCollected, h.running, h.completed]
  rw [Frame.compose, Frame.compose, Frame.mk.injEq]
  exact ⟨rfl, hrows, hstatus, by rw [h.message]⟩

end Alike

/-! ## Sessions in play -/

namespace Rocket

theorem calls_map_apply (l : Level) (r : Rocket) (cs : List Command) :
    (r.calls l (cs.map .apply)).rocket = r.applyAll l cs := by
  induction cs generalizing r with
  | nil => rfl
  | cons c rest ih => exact ih _

end Rocket

theorem Reachable.legible {s : Session} (h : Reachable s) : s.rocket.snapshot.Legible s.level := by
  obtain ⟨c, p, rs, rfl⟩ := h
  have hcoherent := Session.requests_coherent c p rs
  have hretraced := Session.requests_retraceable c p rs
  generalize ((Session.new c p).handleAll rs).session = s at hcoherent hretraced ⊢
  have hlogged := (Logged.atStart s.level).calls (s.done.map .apply)
  rw [Rocket.calls_map_apply] at hlogged
  constructor
  · exact hretraced.hasFuel.trans hlogged.needsFuel
  · intro hfuel
    obtain ⟨f, hf, _⟩ := hlogged.fuel (hretraced.fuelCollected.symm.trans hfuel)
    rw [Level.hasFuel, hf]
    rfl
  · intro hcompleted
    rw [Bool.eq_false_iff]
    intro hrunning
    cases (hcoherent.completed_iff.mp hcompleted).symm.trans (hcoherent.running_iff.mp hrunning)

/-- Two sessions with the same level in play are drawn as the same frame just if their rockets are
alike, whichever ways they came there. -/
theorem Frame.identifies_the_state {l : Level} {s t : Session} (hs : Reachable s)
    (ht : Reachable t) (loaded : s.level = l) (same : t.level = l) :
    compose l s.rocket.snapshot = compose l t.rocket.snapshot ↔ Alike l s.rocket t.rocket := by
  have hlegible := hs.legible
  have hlegible' := ht.legible
  rw [loaded] at hlegible
  rw [same] at hlegible'
  exact ⟨alike_of_compose_eq hlegible hlegible', Alike.compose_eq⟩

/-- A stepped run that has just begun, and one that has turned there and back: the trail under the
rocket is not seen. -/
theorem Frame.identifies_the_state_under_the_rocket :
    let source := Source.commands [.turnLeft, .turnRight, .move]
    let s := ((Session.new corridors {}).handleAll [.step source]).session
    let t := ((Session.new corridors {}).handleAll [.step source, .step source]).session
    Reachable s ∧ Reachable t ∧ s.level = corridor 1 ∧ t.level = corridor 1 ∧
      compose (corridor 1) s.rocket.snapshot = compose (corridor 1) t.rocket.snapshot ∧
      Alike (corridor 1) s.rocket t.rocket ∧ s.rocket.snapshot.visited = [] ∧
      t.rocket.snapshot.visited = [⟨0, 1⟩] := by
  intro source s t
  have hs : Reachable s := ⟨_, _, _, rfl⟩
  have ht : Reachable t := ⟨_, _, _, rfl⟩
  have hloaded : s.level = corridor 1 := by decide
  have hsame : t.level = corridor 1 := by decide
  have hframe : compose (corridor 1) s.rocket.snapshot = compose (corridor 1) t.rocket.snapshot :=
    by decide +kernel
  exact ⟨hs, ht, hloaded, hsame, hframe, (identifies_the_state hs ht hloaded hsame).mp hframe,
    by decide, by decide⟩

end RocketPuzzle
