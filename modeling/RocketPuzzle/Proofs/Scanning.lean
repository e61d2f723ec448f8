import Mathlib.Data.List.TakeWhile
import RocketPuzzle.Proofs.Lexing

/-! # Texts part by part

Every text is a row of separators, comments and symbols, and the lexer goes over each of them by
itself. So a token stands in the text at its offset, whole, and the text before it has the tokens
before it. Text that is put in between moves the tokens after it and no others.
-/
namespace RocketPuzzle.Script

theorem bytes_append (a b : List Char) : bytes (a ++ b) = bytes a + bytes b := by
  induction a with
  | nil => simp [bytes]
  | cons c rest ih => simp [bytes, ih, Nat.add_assoc]

theorem utf8ByteSize_eq_bytes (s : String) : s.utf8ByteSize = bytes s.toList := by
  have hall : ∀ cs : List Char, (String.ofList cs).utf8ByteSize = bytes cs := by
    intro cs
    induction cs with
    | nil => rfl
    | cons c rest ih => simp [String.ofList_cons, bytes, ih]
  rw [← hall, String.ofList_toList]

/-- The parts of a text, from left to right. -/
inductive Composed : List Char → Prop where
  | nil : Composed []
  | separator {c rest} : isSeparator c = true → Composed rest → Composed (c :: rest)
  | comment {line rest} : '\n' ∉ line → Composed rest → Composed ('#' :: line ++ '\n' :: rest)
  | lastComment {line} : '\n' ∉ line → Composed ('#' :: line)
  | symbol {s : Symbol} {rest} :
      s.IsWritable → s.EndsBefore rest → Composed rest → Composed (s.text ++ rest)

variable {offset : Nat} {c : Char} {a b w line rest text : List Char} {s : Symbol} {t : Token}

theorem Symbol.IsWritable.text_ne_nil (h : s.IsWritable) : s.text ≠ [] := by
  cases s with
  | word w => exact h.1
  | opening | closing => exact List.cons_ne_nil _ _

theorem Symbol.IsWritable.bytes_pos (h : s.IsWritable) : 0 < bytes s.text := by
  obtain ⟨c, cs, hs⟩ := List.exists_cons_of_ne_nil h.text_ne_nil
  have hsize := c.utf8Size_pos
  rw [hs, bytes]
  omega

/-! ## What the lexer does with each part -/

/-- Inside a comment nothing is told up to the end of the line. -/
theorem tokensFrom_line (h : '\n' ∉ line) :
    tokensFrom .comment offset (line ++ rest) = tokensFrom .comment (offset + bytes line) rest := by
  induction line generalizing offset with
  | nil => rfl
  | cons c line ih =>
    obtain ⟨hc, hline⟩ : '\n' ≠ c ∧ '\n' ∉ line := by simpa using h
    have hnext : Mode.next .comment offset c = (.comment, []) := by simp [Mode.next, Ne.symm hc]
    rw [List.cons_append, tokensFrom, hnext]
    simp only [List.nil_append, ih hline]
    simp [bytes, Nat.add_assoc]

theorem tokensFrom_comment (h : '\n' ∉ line) :
    tokensFrom .gap offset ('#' :: line ++ '\n' :: rest) =
      tokensFrom .gap (offset + bytes ('#' :: line ++ ['\n'])) rest := by
  have hstart : tokensFrom .gap offset ('#' :: line ++ '\n' :: rest) =
      tokensFrom .comment (offset + '#'.utf8Size) (line ++ '\n' :: rest) := rfl
  have hend : ∀ n, tokensFrom .comment n ('\n' :: rest) =
      tokensFrom .gap (n + '\n'.utf8Size) rest := fun _ => rfl
  rw [hstart, tokensFrom_line h, hend]
  simp [bytes, bytes_append, Nat.add_assoc]

theorem tokensFrom_lastComment (h : '\n' ∉ line) : tokensFrom .gap offset ('#' :: line) = [] := by
  have hstart : tokensFrom .gap offset ('#' :: line) =
      tokensFrom .comment (offset + '#'.utf8Size) (line ++ []) := by
    rw [List.append_nil]
    rfl
  rw [hstart, tokensFrom_line h]
  rfl

/-! ## Every text is made of parts -/

theorem composed_word (h : isDelimiter c = false)
    (later : ∀ cs : List Char, cs.length < (c :: rest).length → Composed cs) :
    Composed (c :: rest) := by
  let inside : Char → Bool := fun d => !isDelimiter d
  have hsplit : c :: rest = Symbol.text (.word (String.ofList (c :: rest.takeWhile inside))) ++
      rest.dropWhile inside := by
    rw [Symbol.text, String.toList_ofList, List.cons_append, List.takeWhile_append_dropWhile]
  have hlength : (rest.dropWhile inside).length < (c :: rest).length :=
    Nat.lt_succ_of_le (List.dropWhile_suffix inside).length_le
  rw [hsplit]
  refine .symbol ⟨?_, ?_⟩ ?_ (later _ hlength)
  · rw [String.toList_ofList]
    exact List.cons_ne_nil _ _
  · rw [String.toList_ofList]
    intro d hd
    rcases List.mem_cons.mp hd with rfl | hd
    · exact h
    · simpa [inside] using List.mem_takeWhile_imp hd
  · intro d hd
    have hfirst := List.head?_dropWhile_not inside rest
    rw [Option.mem_def.mp hd] at hfirst
    simpa [inside] using hfirst

theorem composed_comment
    (later : ∀ cs : List Char, cs.length < ('#' :: rest).length → Composed cs) :
    Composed ('#' :: rest) := by
  let inside : Char → Bool := fun d => d ≠ '\n'
  have hline : '\n' ∉ rest.takeWhile inside := by
    intro hmem
    have hinside := List.mem_takeWhile_imp hmem
    simp [inside] at hinside
  have hsplit := List.takeWhile_append_dropWhile (p := inside) (l := rest)
  cases hafter : rest.dropWhile inside with
  | nil =>
    rw [hafter, List.append_nil] at hsplit
    rw [← hsplit]
    exact .lastComment hline
  | cons d after =>
    have hfirst := List.head?_dropWhile_not inside rest
    rw [hafter] at hfirst
    obtain rfl : d = '\n' := by simpa [inside] using hfirst
    have hlength : after.length < ('#' :: rest).length := by
      have hsuffix := (List.dropWhile_suffix (l := rest) inside).length_le
      rw [hafter] at hsuffix
      simp only [List.length_cons] at hsuffix ⊢
      omega
    rw [← hsplit, hafter]
    exact .comment hline (later _ hlength)

theorem composed (text : List Char) : Composed text := by
  induction hn : text.length using Nat.strongRecOn generalizing text with
  | ind n ih =>
    subst hn
    cases text with
    | nil => exact .nil
    | cons c rest =>
      have hlater : ∀ cs : List Char, cs.length < (c :: rest).length → Composed cs :=
        fun cs hcs => ih _ hcs cs rfl
      have hrest : Composed rest := hlater rest (Nat.lt_succ_self _)
      by_cases hword : isDelimiter c = false
      · exact composed_word hword hlater
      · by_cases hseparator : isSeparator c = true
        · exact .separator hseparator hrest
        · simp only [isDelimiter, Bool.or_eq_true, beq_iff_eq, Bool.not_eq_false] at hword
          rcases hword with ((h | rfl) | rfl) | rfl
          · exact absurd h hseparator
          · exact .symbol (s := .opening) trivial trivial hrest
          · exact .symbol (s := .closing) trivial trivial hrest
          · exact composed_comment hlater

/-! ## Where the tokens are -/

/-- A token is in the text where it says, and no token is lost or won by cutting the text there. -/
theorem tokensFrom_split {before after : List Token}
    (h : tokensFrom .gap offset text = before ++ t :: after) :
    ∃ left right, text = left ++ t.symbol.text ++ right ∧ t.offset = offset + bytes left ∧
      t.symbol.IsWritable ∧ t.symbol.EndsBefore right ∧ tokensFrom .gap offset left = before := by
  induction composed text generalizing offset before with
  | nil => simp [tokensFrom, Mode.flush] at h
  | @separator c rest hc _ ih =>
    rw [tokensFrom_separator hc] at h
    obtain ⟨left, right, rfl, hoffset, hwhole, hends, hbefore⟩ := ih h
    refine ⟨c :: left, right, rfl, ?_, hwhole, hends, ?_⟩
    · rw [hoffset, bytes, Nat.add_assoc]
    · rw [tokensFrom_separator hc, hbefore]
  | @comment line rest hline _ ih =>
    rw [tokensFrom_comment hline] at h
    obtain ⟨left, right, rfl, hoffset, hwhole, hends, hbefore⟩ := ih h
    refine ⟨'#' :: line ++ '\n' :: left, right, by simp, ?_, hwhole, hends, ?_⟩
    · rw [hoffset]
      simp [bytes, bytes_append, Nat.add_assoc]
    · rw [tokensFrom_comment hline, hbefore]
  | lastComment hline =>
    rw [tokensFrom_lastComment hline] at h
    simp at h
  | @symbol s rest hs hends _ ih =>
    rw [tokensFrom_ended hs hends] at h
    cases before with
    | nil =>
      obtain ⟨rfl, _⟩ := List.cons.inj h
      exact ⟨[], rest, rfl, rfl, hs, hends, rfl⟩
    | cons first before =>
      obtain ⟨rfl, hrest⟩ := List.cons.inj h
      obtain ⟨left, right, rfl, hoffset, hwhole, hlast, hbefore⟩ := ih hrest
      refine ⟨s.text ++ left, right, by simp, ?_, hwhole, hlast, ?_⟩
      · rw [hoffset, bytes_append, Nat.add_assoc]
      · have hcut : s.EndsBefore left := by
          cases s with
          | opening | closing => trivial
          | word w =>
            intro d hd
            apply hends d
            rw [List.append_assoc, List.head?_append, Option.mem_def.mp hd]
            rfl
        rw [tokensFrom_ended hs hcut, hbefore]

theorem offset_bounds (h : t ∈ tokensFrom .gap offset text) :
    offset ≤ t.offset ∧ t.offset < offset + bytes text := by
  obtain ⟨before, after, h⟩ := List.append_of_mem h
  obtain ⟨left, right, rfl, hoffset, hwhole, -, -⟩ := tokensFrom_split h
  have hsize := hwhole.bytes_pos
  simp only [bytes_append]
  omega

end RocketPuzzle.Script
