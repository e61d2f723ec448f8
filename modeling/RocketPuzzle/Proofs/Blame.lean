import RocketPuzzle.Proofs.Reading
import RocketPuzzle.Proofs.Scanning
import RocketPuzzle.Proofs.Spelling

/-! # What an error points at

The reader remembers where the braces are that it has not seen closed, and where the repeat began
that it is in the middle of. So an error about a script has its place in the text, the first one
where something is wrong. Only a body that is never closed is known to be so no sooner than at the
end.
-/
namespace RocketPuzzle

namespace Script

/-! ## Braces -/

/-- A brace that was opened before the tokens is closed by one of them. It has `inner` more inside
it that are still open. -/
def closes : Nat → List Token → Bool
  | _, [] => false
  | inner, ⟨.word _, _⟩ :: rest => closes inner rest
  | inner, ⟨.opening, _⟩ :: rest => closes (inner + 1) rest
  | 0, ⟨.closing, _⟩ :: _ => true
  | inner + 1, ⟨.closing, _⟩ :: rest => closes inner rest

def AllClosed (ts : List Token) : Prop :=
  ∀ before offset after, ts = before ++ ⟨.opening, offset⟩ :: after → closes 0 after = true

/-- Each brace has its other one among the tokens. -/
inductive Matched : List Token → Prop where
  | nil : Matched []
  | word {ts text offset} : Matched ts → Matched (ts ++ [⟨.word text, offset⟩])
  | braces {ts body openedAt closedAt} : Matched ts → Matched body →
      Matched (ts ++ ⟨.opening, openedAt⟩ :: (body ++ [⟨.closing, closedAt⟩]))

/-- The braces that are not closed among the tokens, the last one first. -/
inductive Opens : List Nat → List Token → Prop where
  | none {ts} : Matched ts → Opens [] ts
  | inside {outer offset before body} : Opens outer before → Matched body →
      Opens (offset :: outer) (before ++ ⟨.opening, offset⟩ :: body)

variable {ts us rest : List Token} {inner offset : Nat} {outer : List Nat} {text : String}

theorem Matched.closes_append (h : Matched ts) :
    closes inner (ts ++ rest) = closes inner rest := by
  induction h generalizing inner rest with
  | nil => rfl
  | word _ ih =>
    rw [List.append_assoc, ih]
    rfl
  | braces _ _ ihfirst ihbody =>
    rw [List.append_assoc, ihfirst, List.cons_append, closes, List.append_assoc, ihbody]
    rfl

theorem Matched.closes_eq (h : Matched ts) : closes inner ts = false := by
  rw [← List.append_nil ts, h.closes_append]
  rfl

theorem closes_append (h : closes inner ts = true) : closes inner (ts ++ us) = true := by
  fun_induction closes inner ts with
  | case1 => cases h
  | case2 inner _ _ rest ih => exact ih h
  | case3 inner _ rest ih => exact ih h
  | case4 => rfl
  | case5 inner _ rest ih => exact ih h

theorem AllClosed.append (h : AllClosed ts) (k : AllClosed us) : AllClosed (ts ++ us) := by
  intro before offset after hsplit
  rcases List.append_eq_append_iff.mp hsplit with ⟨front, rfl, hus⟩ | ⟨back, hts, hback⟩
  · exact k front offset after hus
  · cases back with
    | nil => exact k [] offset after hback.symm
    | cons t back =>
      obtain ⟨rfl, rfl⟩ := List.cons.inj hback
      exact closes_append (h before offset back hts)

theorem Matched.allClosed (h : Matched ts) : AllClosed ts := by
  induction h with
  | nil =>
    intro before offset after hsplit
    simp at hsplit
  | word _ ih =>
    apply ih.append
    intro before offset after hsplit
    cases before <;> simp at hsplit
  | @braces ts body openedAt closedAt _ hbody ihfirst ihbody =>
    have hlast : AllClosed [⟨.closing, closedAt⟩] := by
      intro before offset after hsplit
      cases before <;> simp at hsplit
    apply ihfirst.append
    intro before offset after hsplit
    cases before with
    | nil =>
      obtain ⟨-, rfl⟩ := List.cons.inj hsplit
      rw [hbody.closes_append]
      rfl
    | cons t before => exact ihbody.append hlast before offset after (List.cons.inj hsplit).2

theorem Opens.word (h : Opens outer ts) : Opens outer (ts ++ [⟨.word text, offset⟩]) := by
  cases h with
  | none hts => exact .none hts.word
  | inside hbefore hbody =>
    rw [List.append_assoc]
    exact .inside hbefore hbody.word

theorem Opens.closing (h : Opens (inner :: outer) ts) :
    Opens outer (ts ++ [⟨.closing, offset⟩]) := by
  cases h with
  | inside hbefore hbody =>
    rw [List.append_assoc, List.cons_append]
    cases hbefore with
    | none hts => exact .none (hts.braces hbody)
    | inside hfirst hmiddle =>
      rw [List.append_assoc]
      exact .inside hfirst (hmiddle.braces hbody)

/-! ## What the reader remembers -/

/-- Where the repeat began that is not read as far as its body. -/
def Due.repeatAt? : Due → Option Nat
  | block => none
  | count repeatAt => some repeatAt
  | body repeatAt _ => some repeatAt

/-- The tokens of which the reader knows where they stand. -/
structure Recalls (r : Reader) (ts : List Token) : Prop where
  reads : Reads {} ts r
  opens : Opens (r.opened.map OpenRepeat.openedAt) ts
  due : ∀ repeatAt, r.due.repeatAt? = some repeatAt →
    ∃ before word after s, ts = before ++ ⟨.word word, repeatAt⟩ :: after ∧
      Spells word "repeat" ∧ Reads {} before s ∧ s.due = .block

variable {r s : Reader} {t : Token}

theorem Recalls.next (h : Recalls r ts) (k : r.next t = .ok s) : Recalls s (ts ++ [t]) := by
  have hreads : Reads {} (ts ++ [t]) s := h.reads.append (.single k)
  -- a repeat goes on being the one that is read when a token is added
  have hdue : ∀ repeatAt, r.due.repeatAt? = some repeatAt →
      ∃ before word after s, ts ++ [t] = before ++ ⟨.word word, repeatAt⟩ :: after ∧
        Spells word "repeat" ∧ Reads {} before s ∧ s.due = .block := by
    intro repeatAt hat
    obtain ⟨before, word, after, u, rfl, hword, hbefore, hblock⟩ := h.due repeatAt hat
    exact ⟨before, word, after ++ [t], u, by simp, hword, hbefore, hblock⟩
  obtain ⟨symbol, offset⟩ := t
  have htakes := r.takes ⟨symbol, offset⟩
  rw [k] at htakes
  cases htakes with
  | simple _ here _ =>
    cases here
    exact ⟨hreads, h.opens.word, nofun⟩
  | @repeats text due here means =>
    cases here
    refine ⟨hreads, h.opens.word, ?_⟩
    rintro _ ⟨⟩
    exact ⟨ts, text, [], r, rfl, keyword?_repeats.mp means, h.reads, due⟩
  | @closes o outer _ here opened =>
    cases here
    have hopens := h.opens
    rw [opened] at hopens
    exact ⟨hreads, hopens.closing, nofun⟩
  | counts due here _ =>
    cases here
    refine ⟨hreads, h.opens.word, ?_⟩
    rw [due] at hdue
    exact hdue
  | opens due here _ =>
    cases here
    exact ⟨hreads, .inside h.opens .nil, nofun⟩

theorem Recalls.run (h : Recalls r ts) (k : Reads r us s) : Recalls s (ts ++ us) := by
  induction us generalizing r ts with
  | nil =>
    cases k
    rwa [List.append_nil]
  | cons t us ih =>
    obtain ⟨u, hnext, hrest⟩ := k.uncons
    have hall := ih (h.next hnext) hrest
    rwa [List.append_assoc] at hall

theorem Reads.recalls (h : Reads {} ts r) : Recalls r ts :=
  Recalls.run ⟨.refl {}, .none .nil, nofun⟩ h

end Script

namespace Program.Error

/-- Where the error is. -/
def offset? : Program.Error → Option Nat
  | unexpectedToken _ offset | missingRepeatCount offset | missingRepeatBody offset
  | unclosedRepeat offset | unmatchedBrace offset | nestingTooDeep offset _ => some offset
  | malformedJson | tooManyCommands _ => none

open Script in
/-- What the error says of the tokens before its place, of the one at it and of those after it. -/
def Fits (before : List Token) (s : Symbol) (after : List Token) : Program.Error → Prop
  | unexpectedToken token _ => s.text = token.toList
  | unmatchedBrace _ => s = .closing ∧ AllClosed before
  | unclosedRepeat _ => s = .opening ∧ closes 0 after = false ∧ AllClosed after
  | missingRepeatCount _ | missingRepeatBody _ | nestingTooDeep _ _ =>
    ∃ word, s = .word word ∧ Spells word "repeat"
  | malformedJson | tooManyCommands _ => False

end Program.Error

namespace Script

/-- The token has the fault that the error tells of, and what stands before it is a script as far as
it goes. -/
structure FaultAt (e : Program.Error) (before : List Token) (t : Token) (after : List Token) :
    Prop where
  place : e.offset? = some t.offset
  fits : e.Fits before t.symbol after
  first : (∀ offset, e ≠ .unclosedRepeat offset) → ∃ r, Reads {} before r ∧ r.due = .block

def Faulty (ts : List Token) (e : Program.Error) : Prop :=
  ∃ before t after, ts = before ++ t :: after ∧ FaultAt e before t after

variable {ts rest : List Token} {r : Reader} {t : Token} {e : Program.Error} {repeatAt : Nat}

/-- An error about the repeat that is being read has its place at the word it begins with. -/
theorem Recalls.faulty_repeat (h : Recalls r ts) (due : r.due.repeatAt? = some repeatAt)
    (place : e.offset? = some repeatAt)
    (fits : ∀ before word after, Spells word "repeat" → e.Fits before (.word word) after) :
    Faulty (ts ++ rest) e := by
  obtain ⟨before, word, after, s, rfl, hword, hreads, hblock⟩ := h.due _ due
  refine ⟨before, ⟨.word word, repeatAt⟩, after ++ rest, by simp, place, ?_, ?_⟩
  · exact fits before word _ hword
  · exact fun _ => ⟨s, hreads, hblock⟩

theorem Recalls.faulty_next (h : Recalls r ts) (k : r.next t = .error e) :
    Faulty (ts ++ t :: rest) e := by
  have hhere : ∀ {e : Program.Error}, r.due = .block → e.offset? = some t.offset →
      e.Fits ts t.symbol rest → Faulty (ts ++ t :: rest) e := by
    intro e hdue hplace hfits
    exact ⟨ts, t, rest, rfl, hplace, hfits, fun _ => ⟨r, h.reads, hdue⟩⟩
  have htakes := r.takes t
  rw [k] at htakes
  cases htakes with
  | unknown due here _ => exact hhere due rfl (by rw [here]; rfl)
  | stray due here => exact hhere due rfl (by rw [here]; rfl)
  | unmatched due here opened =>
    have hopens := h.opens
    rw [opened] at hopens
    cases hopens with
    | none hmatched => exact hhere due rfl ⟨here, hmatched.allClosed⟩
  | uncounted due _ =>
    exact h.faulty_repeat (by rw [due]; rfl) rfl fun _ word _ hword => ⟨word, rfl, hword⟩
  | tooDeep due _ _ =>
    exact h.faulty_repeat (by rw [due]; rfl) rfl fun _ word _ hword => ⟨word, rfl, hword⟩
  | bodiless due _ =>
    exact h.faulty_repeat (by rw [due]; rfl) rfl fun _ word _ hword => ⟨word, rfl, hword⟩

theorem Recalls.faulty_finish (h : Recalls r ts) (k : r.finish = .error e) : Faulty ts e := by
  rw [← List.append_nil ts]
  unfold Reader.finish at k
  cases hd : r.due with
  | count repeatAt =>
    rw [hd] at k
    cases k
    exact h.faulty_repeat (by rw [hd]; rfl) rfl fun _ word _ hword => ⟨word, rfl, hword⟩
  | body repeatAt times =>
    rw [hd] at k
    cases k
    exact h.faulty_repeat (by rw [hd]; rfl) rfl fun _ word _ hword => ⟨word, rfl, hword⟩
  | block =>
    have hopens := h.opens
    cases ho : r.opened with
    | nil =>
      rw [hd, ho] at k
      cases k
    | cons o outer =>
      rw [hd, ho] at k
      cases k
      rw [ho] at hopens
      cases hopens with
      | @inside _ _ before body _ hbody =>
        refine ⟨before, ⟨.opening, o.openedAt⟩, body, List.append_nil _, rfl, ?_, ?_⟩
        · exact ⟨rfl, hbody.closes_eq, hbody.allClosed⟩
        · exact fun hother => absurd rfl (hother o.openedAt)

theorem faulty_of_blocks (h : blocks ts = .error e) : Faulty ts e := by
  rcases blocks_eq_error h with ⟨before, t, after, r, rfl, hreads, herror⟩ | ⟨r, hreads, herror⟩
  · exact hreads.recalls.faulty_next herror
  · exact hreads.recalls.faulty_finish herror

/-- Where a block is due, nothing but a closing brace can be missing. -/
theorem blocks_of_due_block (h : Reads {} ts r) (due : r.due = .block) :
    (∃ bs, blocks ts = .ok bs) ∨ ∃ offset, blocks ts = .error (.unclosedRepeat offset) := by
  rw [blocks_of_reads h, Reader.finish, due]
  cases r.opened with
  | nil => exact Or.inl ⟨_, rfl⟩
  | cons o outer => exact Or.inr ⟨_, rfl⟩

/-- The error is about what stands in a script from the end of `before` on. -/
structure PointsAt (e : Program.Error) (before after : String) : Prop where
  boundary : e.offset? = some before.utf8ByteSize
  /-- A whole token stands there, and it has the fault. -/
  token : ∃ s rest later, after.toList = s.text ++ rest ∧ s.IsWritable ∧ s.EndsBefore rest ∧
    tokens (before ++ after).toList =
      tokens before.toList ++ ⟨s, before.utf8ByteSize⟩ :: later ∧
    e.Fits (tokens before.toList) s later
  /-- Nothing before it is wrong. -/
  first : (∀ offset, e ≠ .unclosedRepeat offset) →
    (∃ p, parse before = .ok p) ∨ ∃ offset, parse before = .error (.unclosedRepeat offset)

/-- An error has its place in the text, between two characters and before a whole token that has the
fault. But for a body that is never closed, the text before it has no fault. -/
theorem errors_point_at_faults {text : String} {e : Program.Error} (h : parse text = .error e) :
    ∃ before after, text = before ++ after ∧ PointsAt e before after := by
  have hblocks : blocks (tokens text.toList) = .error e := by
    unfold parse at h
    cases hb : blocks (tokens text.toList) with
    | ok bs =>
      rw [hb] at h
      cases h
    | error e' =>
      rw [hb] at h
      cases h
      rfl
  obtain ⟨first, t, later, htokens, hplace, hfits, hfirst⟩ := faulty_of_blocks hblocks
  obtain ⟨left, right, htext, hoffset, hwhole, hends, hleft⟩ := tokensFrom_split htokens
  obtain ⟨s, offset⟩ := t
  rw [Nat.zero_add] at hoffset
  change offset = bytes left at hoffset
  have hsize : (String.ofList left).utf8ByteSize = offset := by
    rw [utf8ByteSize_eq_bytes, String.toList_ofList, hoffset]
  have hbefore : tokens (String.ofList left).toList = first := by
    rw [String.toList_ofList]
    exact hleft
  have hsame : text = String.ofList left ++ String.ofList (s.text ++ right) := by
    rw [← String.ofList_append, ← List.append_assoc, ← htext, String.ofList_toList]
  refine ⟨_, _, hsame, ?_, ⟨s, right, later, String.toList_ofList, hwhole, hends, ?_, ?_⟩, ?_⟩
  · rw [hsize]
    exact hplace
  · rw [← hsame, hbefore, hsize]
    exact htokens
  · rw [hbefore]
    exact hfits
  · intro hother
    obtain ⟨r, hreads, hdue⟩ := hfirst hother
    rw [← hbefore] at hreads
    rcases blocks_of_due_block hreads hdue with ⟨bs, hbs⟩ | ⟨place, herror⟩
    · exact Or.inl ⟨⟨bs⟩, parse_eq_ok.mpr hbs⟩
    · right
      refine ⟨place, ?_⟩
      rw [parse, herror]
      rfl

theorem errors_point_at_faults_of_a_count :
    let text := "# ü\nmove Repeat +x \x7bleft\x7d\x7d"
    parse text = .error (.missingRepeatCount 10) ∧
      ∃ before after, text = before ++ after ∧
        PointsAt (.missingRepeatCount 10) before after := by
  intro text
  have herror : parse text = .error (.missingRepeatCount 10) := by decide +kernel
  exact ⟨herror, errors_point_at_faults herror⟩

end Script

end RocketPuzzle
