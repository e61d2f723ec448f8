import Mathlib.Data.List.Sort
import RocketPuzzle.Proofs.Layout

/-! # Scripts taken apart

Each brace outside comments is a token, and so is each run of characters outside comments that no
delimiter interrupts, as far as it goes. The tokens of a script are these and no others, in the
order in which they stand there, and all that is between them is layout.
-/
namespace RocketPuzzle.Script

/-- A word has not begun before its first character; a brace is whole by itself. -/
def Symbol.BeginsAfter : Symbol → List Char → Prop
  | word _, before => ∀ c ∈ before.getLast?, isDelimiter c = true
  | opening, _ | closing, _ => True

/-- The symbol stands between two texts, outside comments and whole. Since no symbol has a `#` in
it, it is outside comments from its first character to its last. -/
structure Symbol.StandsBetween (s : Symbol) (before after : List Char) : Prop where
  outside : ¬ EndsInComment before
  writable : s.IsWritable
  begins : s.BeginsAfter before
  ends : s.EndsBefore after

/-- The token's symbol stands in the text, and the token tells the byte at which it begins. -/
def Token.StandsIn (t : Token) (text : String) : Prop :=
  ∃ before after : String, text = before ++ String.ofList t.symbol.text ++ after ∧
    t.offset = before.utf8ByteSize ∧ t.symbol.StandsBetween before.toList after.toList

/-- From byte `offset` on there is layout, then a token, and so on. The last comment may go on to the
end of the text. -/
inductive Spaced : Nat → List Char → List Token → Prop where
  | last {offset w} : IsLayout w → Spaced offset w []
  | lastComment {offset w line} : IsLayout w → '\n' ∉ line → Spaced offset (w ++ '#' :: line) []
  | token {offset w s rest ts} : IsLayout w → s.IsWritable → s.EndsBefore rest →
      Spaced (offset + bytes w + bytes s.text) rest ts →
      Spaced offset (w ++ (s.text ++ rest)) (⟨s, offset + bytes w⟩ :: ts)

/-- The tokens are the text's, all of them, from left to right. -/
structure Dissection (text : String) (ts : List Token) : Prop where
  /-- There is one for each brace and for each run, and there are no others. -/
  mem_iff : ∀ t, t ∈ ts ↔ t.StandsIn text
  ordered : ts.Pairwise fun t u => t.offset < u.offset
  /-- No byte belongs to two tokens. -/
  disjoint : ts.Pairwise fun t u => t.offset + bytes t.symbol.text ≤ u.offset
  /-- Between them there are only separators and whole comments. -/
  spaced : Spaced 0 text.toList ts

variable {offset : Nat} {c : Char} {a b w rest front text left right : List Char} {s : Symbol}
  {t : Token} {ts : List Token}

/-! ## Points outside comments and words -/

/-- The comment began in the second text, or it began in the first and that line goes on. -/
theorem EndsInComment.of_append (h : EndsInComment (a ++ b)) :
    EndsInComment b ∨ EndsInComment a ∧ '\n' ∉ b := by
  obtain ⟨before, line, hsplit, hline⟩ := h
  rcases List.append_eq_append_iff.mp hsplit with ⟨front, rfl, hb⟩ | ⟨back, rfl, hb⟩
  · exact Or.inl ⟨front, line, hb, hline⟩
  · cases back with
    | nil => exact Or.inl ⟨[], line, hb.symm, hline⟩
    | cons d back =>
      obtain ⟨rfl, rfl⟩ := List.cons.inj hb
      obtain ⟨hback, hrest⟩ : '\n' ∉ back ∧ '\n' ∉ b := by simpa using hline
      exact Or.inr ⟨⟨before, back, rfl, hback⟩, hrest⟩

theorem not_endsInComment (h : '#' ∉ a) : ¬ EndsInComment a := by
  rintro ⟨before, line, rfl, -⟩
  simp at h

/-- A comment begins at a `#` and goes on up to the end of its line. -/
theorem endsInComment_concat :
    EndsInComment (a ++ [c]) ↔ c = '#' ∨ EndsInComment a ∧ c ≠ '\n' := by
  constructor
  · intro h
    rcases h.of_append with h | ⟨ha, hc⟩
    · by_cases hopens : c = '#'
      · exact Or.inl hopens
      · exact absurd h (not_endsInComment (by simpa using Ne.symm hopens))
    · refine Or.inr ⟨ha, ?_⟩
      rintro rfl
      exact hc (List.mem_singleton_self _)
  · rintro (rfl | ⟨⟨before, line, rfl, hline⟩, hc⟩)
    · exact ⟨a, [], rfl, List.not_mem_nil⟩
    · exact ⟨before, line ++ [c], by simp, by simp [hline, Ne.symm hc]⟩

theorem Symbol.IsWritable.not_endsInComment (h : s.IsWritable) : ¬ EndsInComment s.text := by
  apply Script.not_endsInComment
  intro hmem
  cases s with
  | word text => exact absurd (h.2 _ hmem) (by decide)
  | opening | closing => simp [Symbol.text] at hmem

theorem Seam.append (h : Seam a (b ++ rest)) (k : Seam b rest) : Seam (a ++ b) rest where
  comment := by
    intro hends
    rcases hends.of_append with hb | ⟨ha, -⟩
    · exact k.comment hb
    · exact (List.append_eq_nil_iff.mp (h.comment ha)).2
  word := by
    intro c hc
    cases b with
    | nil => exact h.word c (by simpa using hc)
    | cons d b => exact k.word c (by simpa using hc)

theorem seam_nil : Seam [] rest where
  comment hends := absurd hends (not_endsInComment List.not_mem_nil)
  word := nofun

theorem seam_concat (hc : isDelimiter c = true) (opens : c ≠ '#')
    (closes : EndsInComment a → c = '\n') : Seam (a ++ [c]) rest where
  comment := by
    intro hends
    rcases endsInComment_concat.mp hends with h | ⟨ha, h⟩
    · exact absurd h opens
    · exact absurd (closes ha) h
  word := by
    intro d hd _ _
    obtain rfl : c = d := by simpa using hd
    exact Or.inl hc

theorem IsLayout.seam (h : IsLayout w) : Seam w rest := by
  induction h with
  | nil => exact seam_nil
  | @separator c w hc _ ih =>
    have hopens : c ≠ '#' := by
      rintro rfl
      cases hc
    have hfirst : Seam [c] (w ++ rest) :=
      seam_concat (a := []) (isDelimiter_of_isSeparator hc) hopens
        fun hends => absurd hends (not_endsInComment List.not_mem_nil)
    exact hfirst.append ih
  | @comment line w _ _ ih =>
    have hfirst : Seam ('#' :: line ++ ['\n']) (w ++ rest) :=
      seam_concat rfl (by decide) fun _ => rfl
    simpa using hfirst.append ih

theorem Symbol.EndsBefore.seam (h : s.EndsBefore rest) (hs : s.IsWritable) : Seam s.text rest where
  comment hends := absurd hends hs.not_endsInComment
  word := by
    intro c hc d hd
    cases s with
    | word text => exact Or.inr (h d hd)
    | opening | closing =>
      cases hc
      exact Or.inl rfl

/-- Where a symbol stands, the text comes apart before it. -/
theorem standsBetween_iff : s.StandsBetween left right ↔
    s.IsWritable ∧ s.EndsBefore right ∧ Seam left (s.text ++ right) := by
  constructor
  · intro h
    refine ⟨h.writable, h.ends, fun hends => absurd hends h.outside, ?_⟩
    intro c hc d hd
    cases s with
    | word text => exact Or.inl (h.begins c hc)
    | opening | closing =>
      cases hd
      exact Or.inr rfl
  · rintro ⟨hs, hends, hseam⟩
    refine ⟨?_, hs, ?_, hends⟩
    · intro hcomment
      exact hs.text_ne_nil (List.append_eq_nil_iff.mp (hseam.comment hcomment)).1
    · cases s with
      | opening | closing => trivial
      | word text =>
        intro c hc
        -- the word's first character is no delimiter
        obtain ⟨d, cs, htext⟩ := List.exists_cons_of_ne_nil hs.1
        have hd : isDelimiter d = false := hs.2 d (by simp [htext])
        rcases hseam.word c hc d (by simp [Symbol.text, htext]) with h | h
        · exact h
        · rw [hd] at h
          cases h

/-! ## Layout and tokens in turn -/

theorem IsLayout.append (h : IsLayout a) (k : IsLayout b) : IsLayout (a ++ b) := by
  induction h with
  | nil => exact k
  | separator hc _ ih => exact .separator hc ih
  | comment hline _ ih =>
    rw [List.append_assoc]
    exact .comment hline ih

theorem IsLayout.append_spaced (hw : IsLayout w) (h : Spaced (offset + bytes w) text ts) :
    Spaced offset (w ++ text) ts := by
  generalize hstart : offset + bytes w = start at h
  cases h with
  | last hv => exact .last (hw.append hv)
  | lastComment hv hline =>
    rw [← List.append_assoc]
    exact .lastComment (hw.append hv) hline
  | @token _ v s rest ts hv hs hends hrest =>
    have hoffset : start + bytes v = offset + bytes (w ++ v) := by
      rw [bytes_append, ← hstart, Nat.add_assoc]
    rw [hoffset] at hrest ⊢
    rw [← List.append_assoc]
    exact .token (hw.append hv) hs hends hrest

theorem spaced_tokensFrom (offset : Nat) (text : List Char) :
    Spaced offset text (tokensFrom .gap offset text) := by
  induction composed text generalizing offset with
  | nil => exact .last .nil
  | @separator c rest hc _ ih =>
    rw [tokensFrom_separator hc]
    have hlayout : IsLayout [c] := .separator hc .nil
    exact hlayout.append_spaced (ih _)
  | @comment line rest hline _ ih =>
    rw [tokensFrom_comment hline]
    have hlayout : IsLayout ('#' :: line ++ ['\n']) := .comment hline .nil
    have hsplit : '#' :: line ++ '\n' :: rest = '#' :: line ++ ['\n'] ++ rest := by simp
    rw [hsplit]
    exact hlayout.append_spaced (ih _)
  | lastComment hline =>
    rw [tokensFrom_lastComment hline]
    exact .lastComment .nil hline
  | symbol hs hends _ ih =>
    rw [tokensFrom_ended hs hends]
    exact .token .nil hs hends (ih _)

theorem disjoint_tokensFrom (offset : Nat) (text : List Char) :
    (tokensFrom .gap offset text).Pairwise fun t u =>
      t.offset + bytes t.symbol.text ≤ u.offset := by
  induction composed text generalizing offset with
  | nil => exact .nil
  | separator hc _ ih =>
    rw [tokensFrom_separator hc]
    exact ih _
  | comment hline _ ih =>
    rw [tokensFrom_comment hline]
    exact ih _
  | lastComment hline =>
    rw [tokensFrom_lastComment hline]
    exact .nil
  | symbol hs hends _ ih =>
    rw [tokensFrom_ended hs hends]
    exact .cons (fun _ hu => (offset_bounds hu).1) (ih _)

/-- The seam goes on from each part to the next, so that every symbol is whole and none is in a
comment. -/
theorem Spaced.stands (h : Spaced offset text ts) (hoffset : offset = bytes front)
    (seam : Seam front text) (ht : t ∈ ts) :
    ∃ left right, front ++ text = left ++ t.symbol.text ++ right ∧ t.offset = bytes left ∧
      t.symbol.StandsBetween left right := by
  induction h generalizing front with
  | last | lastComment => cases ht
  | @token offset w s rest ts hw hs hends _ ih =>
    have hbefore : Seam (front ++ w) (s.text ++ rest) := seam.append hw.seam
    have hbytes : offset + bytes w = bytes (front ++ w) := by rw [hoffset, bytes_append]
    rcases List.mem_cons.mp ht with rfl | ht
    · exact ⟨front ++ w, rest, by simp, hbytes, standsBetween_iff.mpr ⟨hs, hends, hbefore⟩⟩
    · have hnext : offset + bytes w + bytes s.text = bytes (front ++ w ++ s.text) := by
        rw [hbytes, ← bytes_append]
      obtain ⟨left, right, hsplit, hplace⟩ := ih hnext (hbefore.append (hends.seam hs)) ht
      exact ⟨left, right, by rw [← hsplit]; simp, hplace⟩

/-! ## The tokens of a text -/

theorem Symbol.StandsBetween.mem_tokens (h : s.StandsBetween left right) :
    ⟨s, bytes left⟩ ∈ tokens (left ++ s.text ++ right) := by
  obtain ⟨hs, hends, hseam⟩ := standsBetween_iff.mp h
  have hall : tokens (left ++ ([] ++ (s.text ++ right))) =
      tokens left ++ tokensFrom .gap (0 + bytes left + bytes []) (s.text ++ right) :=
    tokensFrom_parts .nil hseam.parts
  rw [List.nil_append, ← List.append_assoc, tokensFrom_ended hs hends] at hall
  rw [hall]
  simp [bytes]

theorem mem_tokens : t ∈ tokens text ↔ ∃ left right, text = left ++ t.symbol.text ++ right ∧
    t.offset = bytes left ∧ t.symbol.StandsBetween left right := by
  constructor
  · intro ht
    exact (spaced_tokensFrom 0 text).stands rfl seam_nil ht
  · rintro ⟨left, right, rfl, hoffset, hstands⟩
    obtain ⟨s, offset⟩ := t
    cases hoffset
    exact hstands.mem_tokens

theorem mem_tokens_toList {text : String} : t ∈ tokens text.toList ↔ t.StandsIn text := by
  rw [mem_tokens]
  constructor
  · rintro ⟨left, right, htext, hoffset, hstands⟩
    refine ⟨String.ofList left, String.ofList right, ?_, ?_, ?_⟩
    · rw [← String.ofList_append, ← String.ofList_append, ← htext, String.ofList_toList]
    · rw [utf8ByteSize_eq_bytes, String.toList_ofList, hoffset]
    · rwa [String.toList_ofList, String.toList_ofList]
  · rintro ⟨before, after, rfl, hoffset, hstands⟩
    refine ⟨before.toList, after.toList, by simp, ?_, hstands⟩
    rw [hoffset, utf8ByteSize_eq_bytes]

theorem pairwise_offset (text : List Char) :
    (tokens text).Pairwise fun t u => t.offset < u.offset := by
  refine (disjoint_tokensFrom 0 text).imp_of_mem ?_
  intro t u ht _ hle
  obtain ⟨_, _, _, _, hstands⟩ := mem_tokens.mp ht
  have := hstands.writable.bytes_pos
  omega

/-- The tokens of a script are the only ones that take it apart. -/
theorem tokens_dissect (text : String) (ts : List Token) :
    tokens text.toList = ts ↔ Dissection text ts := by
  constructor
  · rintro rfl
    exact ⟨fun _ => mem_tokens_toList, pairwise_offset _, disjoint_tokensFrom 0 _,
      spaced_tokensFrom 0 _⟩
  · intro h
    have hirrefl : Std.Irrefl fun t u : Token => t.offset < u.offset := ⟨fun _ => Nat.lt_irrefl _⟩
    have hantisymm : Std.Antisymm fun t u : Token => t.offset < u.offset :=
      ⟨fun _ _ htu hut => absurd hut (Nat.lt_asymm htu)⟩
    apply (pairwise_offset _).eq_of_mem_iff h.ordered
    intro t
    rw [mem_tokens_toList, h.mem_iff]

/-- A comment right after a word, one that is not ended, and a blank of two bytes. -/
example : tokens "left#\x7b\nü;\u00a0\x7dmove # end".toList =
    [⟨.word "left", 0⟩, ⟨.word "ü", 7⟩, ⟨.closing, 12⟩, ⟨.word "move", 13⟩] := by
  decide

end RocketPuzzle.Script
