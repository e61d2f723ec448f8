import RocketPuzzle.Proofs.Reading
import RocketPuzzle.Proofs.Scanning

/-! # Layout

Blanks, separators and comments can be put anywhere but into a word or a comment. The script stays
the same program or keeps its error, which only moves along with the text that it is about.
-/
namespace RocketPuzzle.Script

/-- Separators, and comments with the ends of their lines. -/
inductive IsLayout : List Char → Prop where
  | nil : IsLayout []
  | separator {c w} : isSeparator c = true → IsLayout w → IsLayout (c :: w)
  | comment {line w} : '\n' ∉ line → IsLayout w → IsLayout ('#' :: line ++ '\n' :: w)

/-- The last line of the text has a comment in it. -/
def EndsInComment (a : List Char) : Prop :=
  ∃ before line, a = before ++ '#' :: line ∧ '\n' ∉ line

/-- The point between two texts is inside neither a comment nor a word. -/
structure Seam (a b : List Char) : Prop where
  comment : EndsInComment a → b = []
  word : ∀ c ∈ a.getLast?, ∀ d ∈ b.head?, isDelimiter c = true ∨ isDelimiter d = true

/-- The layout `w` ends what the text `a` is in, so that the text `b` begins anew after it. -/
structure Parts (a w b : List Char) : Prop where
  comment : EndsInComment a → b = [] ∨ w.head? = some '\n'
  word : w = [] → ∀ c ∈ a.getLast?, ∀ d ∈ b.head?, isDelimiter c = true ∨ isDelimiter d = true

variable {offset : Nat} {a b w line : List Char} {s : Symbol}

theorem Parts.of_append (front : List Char) (h : Parts (front ++ a) w b) : Parts a w b where
  comment := by
    rintro ⟨before, line, rfl, hline⟩
    exact h.comment ⟨front ++ before, line, by simp, hline⟩
  word := by
    intro hw c hc
    apply h.word hw c
    rw [List.getLast?_append, Option.mem_def.mp hc]
    rfl

theorem Seam.parts (h : Seam a b) : Parts a w b :=
  ⟨fun k => Or.inl (h.comment k), fun _ => h.word⟩

theorem isDelimiter_of_isSeparator {c : Char} (h : isSeparator c = true) :
    isDelimiter c = true := by
  simp [isDelimiter, h]

theorem IsLayout.isDelimiter_head (h : IsLayout w) : ∀ c ∈ w.head?, isDelimiter c = true := by
  intro c hc
  cases h with
  | nil => cases hc
  | separator hd =>
    cases hc
    exact isDelimiter_of_isSeparator hd
  | comment =>
    cases hc
    rfl

/-! ## Layout has no tokens -/

theorem tokensFrom_layout (h : IsLayout w) :
    tokensFrom .gap offset (w ++ b) = tokensFrom .gap (offset + bytes w) b := by
  induction h generalizing offset with
  | nil => rfl
  | separator hc _ ih =>
    rw [List.cons_append, tokensFrom_separator hc, ih, bytes, Nat.add_assoc]
  | comment hline _ ih =>
    rw [List.append_assoc, List.cons_append (a := '\n'), tokensFrom_comment hline, ih]
    simp [bytes, bytes_append, Nat.add_assoc]

/-- After a comment that has not ended, layout goes on with it or ends it. -/
theorem tokensFrom_lastComment_layout (h : IsLayout w) (hline : '\n' ∉ line) :
    tokensFrom .gap offset ('#' :: line ++ w) = [] := by
  induction h generalizing line with
  | nil =>
    rw [List.append_nil]
    exact tokensFrom_lastComment hline
  | @separator c w _ hw ih =>
    by_cases hc : c = '\n'
    · subst hc
      rw [tokensFrom_comment hline, ← List.append_nil w, tokensFrom_layout hw]
      rfl
    · have hlonger : '\n' ∉ line ++ [c] := by simp [hline, Ne.symm hc]
      have hall := ih hlonger
      rwa [List.cons_append, List.append_assoc] at hall
  | @comment inner w hinner hw _ =>
    have hlonger : '\n' ∉ line ++ '#' :: inner := by simp [hline, hinner]
    have hsame : '#' :: line ++ ('#' :: inner ++ '\n' :: w) =
        '#' :: (line ++ '#' :: inner) ++ '\n' :: w := by simp
    rw [hsame, tokensFrom_comment hlonger, ← List.append_nil w, tokensFrom_layout hw]
    rfl

theorem Parts.endsBefore (h : Parts (s.text ++ a) w b) (hw : IsLayout w) (hs : s.IsWritable)
    (hends : s.EndsBefore a) : s.EndsBefore (a ++ (w ++ b)) := by
  cases s with
  | opening | closing => trivial
  | word text =>
    intro d hd
    cases a with
    | cons c a =>
      cases hd
      exact hends _ rfl
    | nil =>
      cases hw' : w with
      | cons c v =>
        rw [hw'] at hd
        cases hd
        exact hw.isDelimiter_head _ (by rw [hw']; rfl)
      | nil =>
        -- the word stands right before `b`, and its last character is no delimiter
        rw [hw'] at hd
        have hlast := List.getLast?_eq_some_getLast hs.1
        have hmem := hs.2 _ (List.getLast_mem hs.1)
        rcases h.word hw' _ (by simpa [Symbol.text] using hlast) d hd with hc | hc
        · rw [hmem] at hc
          cases hc
        · exact hc

/-- What follows after some layout is read as it is, and so is what stands before it. -/
theorem tokensFrom_parts (hw : IsLayout w) (h : Parts a w b) :
    tokensFrom .gap offset (a ++ (w ++ b)) =
      tokensFrom .gap offset a ++ tokensFrom .gap (offset + bytes a + bytes w) b := by
  induction composed a generalizing offset with
  | nil => exact tokensFrom_layout hw
  | @separator c a hc _ ih =>
    have hrest : Parts a w b := Parts.of_append [c] h
    rw [List.cons_append, tokensFrom_separator hc, tokensFrom_separator hc, ih hrest, bytes]
    simp only [Nat.add_assoc]
  | @comment line a hline _ ih =>
    have hrest : Parts a w b := Parts.of_append ('#' :: line ++ ['\n']) (by simpa using h)
    rw [List.append_assoc, List.cons_append (a := '\n'), tokensFrom_comment hline,
      tokensFrom_comment hline, ih hrest]
    simp [bytes, bytes_append, Nat.add_assoc]
  | @lastComment line hline =>
    rw [tokensFrom_lastComment hline]
    rcases h.comment ⟨[], line, rfl, hline⟩ with rfl | hw'
    · rw [List.append_nil, tokensFrom_lastComment_layout hw hline]
      rfl
    · cases hw with
      | nil => cases hw'
      | comment => cases hw'
      | separator _ hv =>
        cases hw'
        rw [List.cons_append (a := '\n'), tokensFrom_comment hline, tokensFrom_layout hv]
        simp [bytes, bytes_append, Nat.add_assoc]
  | @symbol s a hs hends _ ih =>
    have hrest : Parts a w b := h.of_append s.text
    rw [List.append_assoc, tokensFrom_ended hs (h.endsBefore hw hs hends), ih hrest,
      tokensFrom_ended hs hends, bytes_append]
    simp only [Nat.add_assoc, List.cons_append]

theorem tokensFrom_shift (k : Nat) (text : List Char) :
    tokensFrom .gap (offset + k) text =
      (tokensFrom .gap offset text).map (.relocate (· + k)) := by
  have hcomm : ∀ n, offset + k + n = offset + n + k := fun n => Nat.add_right_comm _ _ _
  induction composed text generalizing offset with
  | nil => rfl
  | separator hc _ ih =>
    rw [tokensFrom_separator hc, tokensFrom_separator hc, hcomm]
    exact ih fun n => Nat.add_right_comm _ _ _
  | comment hline _ ih =>
    rw [tokensFrom_comment hline, tokensFrom_comment hline, hcomm]
    exact ih fun n => Nat.add_right_comm _ _ _
  | lastComment hline => rw [tokensFrom_lastComment hline, tokensFrom_lastComment hline]; rfl
  | symbol hs hends _ ih =>
    rw [tokensFrom_ended hs hends, tokensFrom_ended hs hends, hcomm, List.map_cons,
      ih fun n => Nat.add_right_comm _ _ _]
    rfl

/-- Layout moves what stands after it, and nothing else. -/
theorem tokens_parts (hw : IsLayout w) (h : Parts a w b) :
    tokens (a ++ (w ++ b)) = tokens a ++ (tokens b).map (.relocate (· + (bytes a + bytes w))) := by
  have hall : tokens (a ++ (w ++ b)) = tokens a ++ tokensFrom .gap (0 + bytes a + bytes w) b :=
    tokensFrom_parts hw h
  rw [Nat.add_assoc, tokensFrom_shift] at hall
  exact hall

/-! ## Scripts with layout -/

theorem parse_relocate {text moved : String} {f : Nat → Nat}
    (h : tokens moved.toList = (tokens text.toList).map (.relocate f)) :
    parse moved = (parse text).mapError (.relocate f) := by
  unfold parse
  rw [h, blocks_relocate]
  cases blocks (tokens text.toList) <;> rfl

/-- Tokens before the end of `a` stay where they are, those after it move on by `k` bytes. -/
theorem relocate_tokens (a b : List Char) (k : Nat) :
    let behind : Nat → Nat := fun n => if bytes a ≤ n then n + k else n
    (tokens a ++ (tokens b).map (Token.relocate (· + bytes a))).map (.relocate behind) =
      tokens a ++ (tokens b).map (.relocate (· + (bytes a + k))) := by
  intro behind
  have hfirst : (tokens a).map (.relocate behind) = tokens a := by
    refine (List.map_congr_left ?_).trans (List.map_id _)
    intro t ht
    have hbefore := (offset_bounds ht).2
    have hstays : behind t.offset = t.offset := if_neg (by omega)
    simp [Token.relocate, hstays]
  have hsecond : ∀ t : Token, (t.relocate (· + bytes a)).relocate behind =
      t.relocate (· + (bytes a + k)) := by
    intro t
    have hmoves : behind (t.offset + bytes a) = t.offset + bytes a + k := if_pos (by omega)
    simp [Token.relocate, hmoves, Nat.add_assoc]
  rw [List.map_append, hfirst, List.map_map]
  congr 2
  funext t
  exact hsecond t

/-- Layout at any point that is inside neither a word nor a comment leaves the program as it is, and
moves an error that lies behind that point by its own length. -/
theorem layout_does_not_matter {a w b : String} (layout : IsLayout w.toList)
    (seam : Seam a.toList b.toList) :
    parse (a ++ w ++ b) = (parse (a ++ b)).mapError (.relocate fun offset =>
      if a.utf8ByteSize ≤ offset then offset + w.utf8ByteSize else offset) := by
  apply parse_relocate
  have hplain := tokens_parts .nil (seam.parts (w := []))
  have hspaced := tokens_parts layout seam.parts
  rw [String.toList_append, String.toList_append, List.append_assoc, hspaced,
    String.toList_append, utf8ByteSize_eq_bytes, utf8ByteSize_eq_bytes, ← relocate_tokens]
  exact congrArg (List.map _) hplain.symm

theorem layout_does_not_matter_inside_a_body :
    let a := "repeat 2\x7bmove"
    let w := "\u00a0;# ü # \x7b \n"
    let b := "\x7b\x7d"
    IsLayout w.toList ∧ Seam a.toList b.toList ∧
      parse (a ++ b) = .error (.unexpectedToken "\x7b" 13) ∧
      parse (a ++ w ++ b) = .error (.unexpectedToken "\x7b" 26) := by
  intro a w b
  have hw : w.toList = '\u00a0' :: ';' :: ('#' :: " ü # \x7b ".toList ++ ['\n']) := by decide
  have hlayout : IsLayout w.toList := by
    rw [hw]
    exact .separator (by decide) (.separator (by decide) (.comment (by decide) .nil))
  have hseam : Seam a.toList b.toList := by
    constructor
    · rintro ⟨before, line, hsame, -⟩
      have hmem : '#' ∈ a.toList := by simp [hsame]
      exact absurd hmem (by decide)
    · intro c _ d hd
      have hb : b.toList.head? = some '\x7b' := by decide
      rw [hb] at hd
      cases hd
      exact Or.inr rfl
  have herror : parse (a ++ b) = .error (.unexpectedToken "\x7b" 13) := by decide +kernel
  refine ⟨hlayout, hseam, herror, ?_⟩
  rw [layout_does_not_matter hlayout hseam, herror]
  decide +kernel

end RocketPuzzle.Script
