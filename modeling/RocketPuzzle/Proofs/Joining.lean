import RocketPuzzle.Proofs.Layout
import RocketPuzzle.Proofs.Spelling

/-! # Scripts one after another

A script that is accepted leaves the reader as it was, but for the blocks. So a second script on
the lines after it is read as it is by itself, and its blocks come after those of the first.
-/
namespace RocketPuzzle.Script

/-- The open repeats and the blocks of the innermost body, with blocks put before all of them. -/
def putBefore (earlier : List Block) :
    List OpenRepeat → List Block → List OpenRepeat × List Block
  | [], blocks => ([], blocks ++ earlier)
  | o :: outer, blocks =>
    let (outer, before) := putBefore earlier outer o.before
    ({ o with before } :: outer, blocks)

/-- The reader, had there been blocks before everything that it has read; these are in reverse. -/
def Reader.after (earlier : List Block) (r : Reader) : Reader where
  opened := (putBefore earlier r.opened r.blocks).1
  blocks := (putBefore earlier r.opened r.blocks).2
  due := r.due

variable {earlier blocks : List Block} {opened : List OpenRepeat} {r : Reader} {t : Token}
  {x : Except Program.Error Reader}

theorem length_putBefore : (putBefore earlier opened blocks).1.length = opened.length := by
  induction opened generalizing blocks with
  | nil => rfl
  | cons o outer ih => exact congrArg (· + 1) ih

/-- A block that is read last has nothing to do with those before everything else. -/
theorem putBefore_cons (b : Block) : putBefore earlier opened (b :: blocks) =
    ((putBefore earlier opened blocks).1, b :: (putBefore earlier opened blocks).2) := by
  cases opened <;> rfl

theorem Reader.after_push (b : Block) : (r.push b).after earlier = (r.after earlier).push b := by
  simp [Reader.after, Reader.push, putBefore_cons]

theorem Takes.after (h : Takes r t x) : Takes (r.after earlier) t (x.map (.after earlier)) := by
  have hlength : (r.after earlier).opened.length = r.opened.length := length_putBefore
  cases h with
  | simple due here means =>
    change Takes _ _ (.ok ((r.push _).after earlier))
    rw [Reader.after_push]
    exact .simple due here means
  | repeats due here means => exact .repeats due here means
  | unknown due here means => exact .unknown due here means
  | stray due here => exact .stray due here
  | @closes o outer due here opened =>
    have hopened : (r.after earlier).opened =
        { o with before := (putBefore earlier outer o.before).2 } ::
          (putBefore earlier outer o.before).1 := by
      simp [Reader.after, opened, putBefore]
    have hblocks : (r.after earlier).blocks = r.blocks := by
      simp [Reader.after, opened, putBefore]
    have hcloses : Takes (r.after earlier) t _ := .closes due here hopened
    rw [hblocks] at hcloses
    change Takes _ _ (.ok (Reader.after earlier { opened := outer, blocks := _ :: o.before }))
    simpa only [Reader.after, putBefore_cons] using hcloses
  | unmatched due here opened =>
    exact .unmatched due here (by simp [Reader.after, opened, putBefore])
  | counts due here means => exact .counts due here means
  | uncounted due means => exact .uncounted due means
  | opens due here room => exact .opens due here (by rwa [hlength])
  | tooDeep due here full => exact .tooDeep due here (by rwa [hlength])
  | bodiless due here => exact .bodiless due here

theorem readsAlong_after (earlier : List Block) :
    ReadsAlong (.after earlier) id id (earlier.reverse ++ ·) where
  next r t := by
    rw [id, (r.takes t).after.eq]
    cases r.next t <;> rfl
  finish r := by
    obtain ⟨opened, own, due⟩ := r
    cases due with
    | count | body => rfl
    | block =>
      cases opened with
      | cons o outer => rfl
      | nil => simp [Reader.finish, Reader.after, putBefore, Except.map, Except.mapError]

/-- A reader that is through with a script has nothing but its blocks. -/
theorem Reader.eq_of_finish (h : r.finish = .ok blocks) : r = Reader.after blocks.reverse {} := by
  obtain ⟨opened, own, due⟩ := r
  cases due with
  | count | body => cases h
  | block =>
    cases opened with
    | cons o outer => cases h
    | nil =>
      cases h
      simp [Reader.after, putBefore]

theorem blocks_append {ts us : List Token} (h : Script.blocks ts = .ok blocks) :
    Script.blocks (ts ++ us) = (Script.blocks us).map (blocks ++ ·) := by
  obtain ⟨r, hreads, hfinish⟩ := reads_of_blocks h
  have hlater := (readsAlong_after blocks.reverse).blocks {} us
  rw [← Reader.eq_of_finish hfinish, List.map_id, List.reverse_reverse] at hlater
  unfold Reads at hreads
  have hall : Script.blocks (ts ++ us) = us.foldlM Reader.next r >>= Reader.finish := by
    rw [Script.blocks, List.foldlM_append, hreads]
    rfl
  rw [hall, hlater, Script.blocks]
  cases us.foldlM Reader.next {} >>= Reader.finish <;> rfl

theorem parts_newline (a b : List Char) : Parts a ['\n'] b := ⟨fun _ => Or.inr rfl, nofun⟩

/-- What follows on the lines after an accepted script is read as if it stood alone. -/
theorem scripts_concatenate {a b : String} {p : Program} (accepted : parse a = .ok p) :
    (∀ q, parse b = .ok q → parse (a ++ "\n" ++ b) = .ok ⟨p.blocks ++ q.blocks⟩) ∧
      ∀ e, parse b = .error e →
        parse (a ++ "\n" ++ b) = .error (e.relocate (· + (a.utf8ByteSize + 1))) := by
  have hline : "\n".toList = ['\n'] := by decide
  have htokens := tokens_parts (.separator (by decide) .nil) (parts_newline a.toList b.toList)
  have hall : parse (a ++ "\n" ++ b) =
      ((parse b).map fun q => ⟨p.blocks ++ q.blocks⟩).mapError
        (.relocate (· + (a.utf8ByteSize + 1))) := by
    unfold parse
    rw [String.toList_append, String.toList_append, List.append_assoc, hline, htokens,
      blocks_append (parse_eq_ok.mp accepted), blocks_relocate, utf8ByteSize_eq_bytes]
    cases Script.blocks (tokens b.toList) <;> rfl
  constructor
  · intro q hq
    rw [hall, hq]
    rfl
  · intro e he
    rw [hall, he]
    rfl

theorem scripts_concatenate_after_a_comment :
    let a := "REPEAT +2\x7bmove\x7d # ü"
    let b := "left \x7d"
    parse a = .ok ⟨[.repeated 2 [.move]]⟩ ∧
      parse "left" = .ok ⟨[.turnLeft]⟩ ∧ parse b = .error (.unmatchedBrace 5) ∧
      parse (a ++ "\n" ++ "left") = .ok ⟨[.repeated 2 [.move], .turnLeft]⟩ ∧
      parse (a ++ "\n" ++ b) = .error (.unmatchedBrace 26) := by
  intro a b
  have hfirst : parse a = .ok ⟨[.repeated 2 [.move]]⟩ := by decide +kernel
  have hsecond : parse "left" = .ok ⟨[.turnLeft]⟩ := by decide +kernel
  have herror : parse b = .error (.unmatchedBrace 5) := by decide +kernel
  have hsize : a.utf8ByteSize = 20 := by decide +kernel
  have hplace : (Program.Error.unmatchedBrace 5).relocate (· + (a.utf8ByteSize + 1)) =
      .unmatchedBrace 26 := by rw [hsize]; rfl
  refine ⟨hfirst, hsecond, herror, (scripts_concatenate hfirst).1 _ hsecond, ?_⟩
  rw [(scripts_concatenate hfirst).2 _ herror, hplace]

end RocketPuzzle.Script
