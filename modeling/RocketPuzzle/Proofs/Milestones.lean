import Mathlib.Data.List.Count
import RocketPuzzle.CommandLine
import RocketPuzzle.Proofs.Numeral

/-! # Milestones

The solution of a level and that of the whole catalog are announced, each in a line of its own. No
two milestones share a line, and neither a frame nor a remark is such a line, so that counting lines
is counting events.
-/
namespace RocketPuzzle

theorem Frame.getLast?_text (f : Frame) : f.text.toList.getLast? = some '\n' := by
  have hlines : f.lines ≠ [] := by simp [lines]
  rw [text, ← List.dropLast_concat_getLast hlines, String.toList_join]
  simp

namespace CommandLine

variable {e f : Event} {line : String}

theorem announce_injective : Function.Injective announce := by
  intro a b h
  have hlines : (a ++ "\n").toList = (b ++ "\n").toList :=
    congrArg String.toList (Emission.print.inj h)
  rw [String.toList_append, String.toList_append] at hlines
  exact String.toList_inj.mp (List.append_cancel_right hlines)

/-- The line for a solved level. -/
def levelLine (id : UInt32) : String := s!"Level {id} complete!"

/-- The line for the last of them. -/
def certificateLine : String := "Every level complete. Certificate earned!"

theorem announcement?_levelCompleted (id : UInt32) :
    announcement? (.levelCompleted id) = some (levelLine id) := rfl

theorem announcement?_curriculumCompleted :
    announcement? .curriculumCompleted = some certificateLine := rfl

theorem toList_levelLine (id : UInt32) :
    (levelLine id).toList =
      "Level ".toList ++ (toString id.toNat).toList ++ " complete!".toList := by
  change ("Level " ++ toString id.toNat ++ " complete!").toList = _
  rw [String.toList_append, String.toList_append]

theorem levelLine_injective : Function.Injective levelLine := by
  intro a b h
  have hlines := congrArg String.toList h
  rw [toList_levelLine, toList_levelLine] at hlines
  have hdigits : (toString a.toNat).toList = (toString b.toNat).toList :=
    List.append_cancel_left (List.append_cancel_right hlines)
  apply UInt32.toNat_inj.mp
  rw [← (Text.digits_toString a.toNat).2.2, hdigits, (Text.digits_toString b.toNat).2.2]

theorem head?_levelLine (id : UInt32) : (levelLine id).toList.head? = some 'L' := by
  rw [toList_levelLine]
  rfl

theorem getLast?_levelLine (id : UInt32) : (levelLine id).toList.getLast? = some '!' := by
  rw [toList_levelLine, List.getLast?_append]
  rfl

/-- An announcement begins like no remark and ends like no frame. -/
theorem announcement?_bounds (h : announcement? e = some line) :
    line.toList.head? ≠ some 'S' ∧ line.toList.getLast? = some '!' := by
  cases e with
  | levelCompleted id =>
    obtain rfl : levelLine id = line := Option.some.inj h
    exact ⟨by simp [head?_levelLine], getLast?_levelLine id⟩
  | curriculumCompleted =>
    cases h
    decide
  | _ => cases h

theorem announcement?_inj (h : announcement? e = some line) (k : announcement? f = some line) :
    e = f := by
  have hapart : ∀ id, levelLine id ≠ certificateLine := by
    intro id hsame
    have hhead := head?_levelLine id
    rw [hsame] at hhead
    revert hhead
    decide
  have hsame := h.trans k.symm
  cases e with
  | levelCompleted a =>
    cases f with
    | levelCompleted b => rw [levelLine_injective (Option.some.inj hsame)]
    | curriculumCompleted => exact absurd (Option.some.inj hsame) (hapart a)
    | _ => cases k
  | curriculumCompleted =>
    cases f with
    | levelCompleted b => exact absurd (Option.some.inj hsame.symm) (hapart b)
    | curriculumCompleted => rfl
    | _ => cases k
  | _ => cases h

theorem count_announce (h : announcement? e = some line) (es : List Event) :
    ((es.filterMap announcement?).map announce).count (announce line) = es.count e := by
  rw [List.count_map_of_injective _ _ announce_injective, List.count_filterMap, List.count]
  congr 1
  funext f
  rw [Bool.eq_iff_iff, beq_iff_eq, beq_iff_eq]
  constructor
  · exact fun k => announcement?_inj k h
  · rintro rfl
    exact h

theorem shown_ne_announce (h : announcement? e = some line) (f : Frame) :
    Emission.print f.shown ≠ announce line := by
  intro hshown
  have hline : f.text = line := announce_injective hshown
  have hlast := (announcement?_bounds h).2
  rw [← hline, f.getLast?_text] at hlast
  cases hlast

/-- A remark announces nothing. -/
theorem count_remark (h : announcement? e = some line) (p : Program) (l : Level) :
    (remark p l).count (announce line) = 0 := by
  rw [List.count_eq_zero]
  intro hmem
  unfold remark at hmem
  split at hmem
  · have hline := announce_injective (List.mem_singleton.mp hmem)
    apply (announcement?_bounds h).1
    rw [hline]
    change ("Solved with " ++ toString p.blockCount ++ _ ++ _ ++ ".").toList.head? = _
    simp
  · cases hmem

namespace Play

/-- How often a milestone has been announced or still is to be told. -/
def tally (p : Play) (e : Event) (line : String) : Nat :=
  p.emitted.count (announce line) + p.untold.count e

theorem tally_opened (h : announcement? e = some line) (s : Session) (source : Source)
    (stepping realtime : Bool) : (opened s source stepping realtime).tally e line = 0 := by
  simp [tally, opened, shown_ne_announce h]

theorem tally_ask (e : Event) (line : String) (p : Play) (pause : Option Duration)
    (request : Session → Effect) :
    (p.ask pause request).tally e line = p.tally e line + (request p.session).events.count e := by
  have hpauses : (if p.realtime then pause.toList.map Emission.wait else []).count
      (announce line) = 0 := by
    rw [List.count_eq_zero]
    cases p.realtime <;> simp [announce]
  simp [tally, ask, List.count_append, hpauses, Nat.add_assoc]

theorem tally_tell (h : announcement? e = some line) (p : Play) :
    p.tell.tally e line = p.tally e line := by
  have hframe := shown_ne_announce h (picture p.session)
  have hlines := count_announce h p.untold
  unfold tally tell
  split
  · simp [List.count_append, hlines, hframe]
  · simp [List.count_append, hlines]

end Play

end CommandLine

end RocketPuzzle
