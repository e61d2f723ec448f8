import RocketPuzzle.Script.Parser

/-! # One token at a time

All that the reader can make of a token, once and for all. A change of the reader that goes along
with every token goes along with whole rows of them: so tokens that stand elsewhere are read the
same, and only the offsets in an error change.
-/
namespace RocketPuzzle

namespace Script

/-- What the reader makes of a token. -/
inductive Takes (r : Reader) (t : Token) : Except Program.Error Reader → Prop where
  | simple {text b} (due : r.due = .block) (here : t.symbol = .word text)
      (means : keyword? text = some (.simple b)) : Takes r t (.ok (r.push b))
  | repeats {text} (due : r.due = .block) (here : t.symbol = .word text)
      (means : keyword? text = some .repeats) : Takes r t (.ok { r with due := .count t.offset })
  | unknown {text} (due : r.due = .block) (here : t.symbol = .word text)
      (means : keyword? text = none) : Takes r t (.error (.unexpectedToken text t.offset))
  | stray (due : r.due = .block) (here : t.symbol = .opening) :
      Takes r t (.error (.unexpectedToken "\x7b" t.offset))
  | closes {o outer} (due : r.due = .block) (here : t.symbol = .closing)
      (opened : r.opened = o :: outer) :
      Takes r t (.ok
        { opened := outer, blocks := .repeated o.times r.blocks.reverse :: o.before })
  | unmatched (due : r.due = .block) (here : t.symbol = .closing) (opened : r.opened = []) :
      Takes r t (.error (.unmatchedBrace t.offset))
  | counts {repeatAt text times} (due : r.due = .count repeatAt) (here : t.symbol = .word text)
      (means : count? text = some times) : Takes r t (.ok { r with due := .body repeatAt times })
  | uncounted {repeatAt} (due : r.due = .count repeatAt)
      (means : ∀ text, t.symbol = .word text → count? text = none) :
      Takes r t (.error (.missingRepeatCount repeatAt))
  | opens {repeatAt times} (due : r.due = .body repeatAt times) (here : t.symbol = .opening)
      (room : r.opened.length ≠ Program.maxDepth) :
      Takes r t (.ok { opened := ⟨times, t.offset, r.blocks⟩ :: r.opened })
  | tooDeep {repeatAt times} (due : r.due = .body repeatAt times) (here : t.symbol = .opening)
      (full : r.opened.length = Program.maxDepth) :
      Takes r t (.error (.nestingTooDeep repeatAt Program.maxDepth))
  | bodiless {repeatAt times} (due : r.due = .body repeatAt times) (here : t.symbol ≠ .opening) :
      Takes r t (.error (.missingRepeatBody repeatAt))

variable {r s u : Reader} {t : Token} {x : Except Program.Error Reader} {ts us : List Token}
  {e : Program.Error} {f : Nat → Nat}

theorem Reader.takes (r : Reader) (t : Token) : Takes r t (r.next t) := by
  unfold Reader.next
  cases hd : r.due with
  | block =>
    cases hs : t.symbol with
    | opening => exact .stray hd hs
    | closing =>
      simp only [Reader.close]
      cases ho : r.opened with
      | nil => exact .unmatched hd hs ho
      | cons o outer => exact .closes hd hs ho
    | word text =>
      simp only [Reader.word]
      cases hk : keyword? text with
      | none => exact .unknown hd hs hk
      | some key =>
        cases key with
        | simple b => exact .simple hd hs hk
        | repeats => exact .repeats hd hs hk
  | count repeatAt =>
    cases hs : t.symbol with
    | opening | closing => exact .uncounted hd (by simp [hs])
    | word text =>
      cases hc : count? text with
      | none =>
        simp only [hc]
        apply Takes.uncounted hd
        intro other hother
        cases hs.symm.trans hother
        exact hc
      | some times =>
        simp only [hc]
        exact .counts hd hs hc
  | body repeatAt times =>
    cases hs : t.symbol with
    | word text => exact .bodiless hd (by simp [hs])
    | closing => exact .bodiless hd (by simp [hs])
    | opening =>
      simp only [Reader.openBody]
      split
      · next hfull => exact .tooDeep hd hs hfull
      · next hroom => exact .opens hd hs hroom

theorem Takes.eq (h : Takes r t x) : r.next t = x := by
  cases h with
  | simple due here means => simp [Reader.next, Reader.word, due, here, means]
  | repeats due here means => simp [Reader.next, Reader.word, due, here, means]
  | unknown due here means => simp [Reader.next, Reader.word, due, here, means]
  | stray due here => simp [Reader.next, due, here]
  | closes due here opened => simp [Reader.next, Reader.close, due, here, opened]
  | unmatched due here opened => simp [Reader.next, Reader.close, due, here, opened]
  | counts due here means => simp [Reader.next, due, here, means]
  | uncounted due means =>
    cases hs : t.symbol with
    | opening | closing => simp [Reader.next, due, hs]
    | word text => simp [Reader.next, due, hs, means text hs]
  | opens due here room => simp [Reader.next, Reader.openBody, due, here, room]
  | tooDeep due here full => simp [Reader.next, Reader.openBody, due, here, full]
  | bodiless due here =>
    cases hs : t.symbol with
    | opening => exact absurd hs here
    | word | closing => simp [Reader.next, due, hs]

/-! ## Rows of tokens -/

/-- The reader gets from one state to another over the tokens. -/
def Reads (r : Reader) (ts : List Token) (s : Reader) : Prop := ts.foldlM Reader.next r = .ok s

theorem Reads.refl (r : Reader) : Reads r [] r := rfl

theorem Reads.cons (h : r.next t = .ok s) (k : Reads s ts u) : Reads r (t :: ts) u := by
  unfold Reads
  rw [List.foldlM_cons, h]
  exact k

theorem Reads.single (h : r.next t = .ok s) : Reads r [t] s := .cons h (.refl s)

theorem Reads.append (h : Reads r ts s) (k : Reads s us u) : Reads r (ts ++ us) u := by
  unfold Reads
  rw [List.foldlM_append, h]
  exact k

theorem Reads.uncons (h : Reads r (t :: ts) s) : ∃ u, r.next t = .ok u ∧ Reads u ts s := by
  unfold Reads at h
  rw [List.foldlM_cons] at h
  cases hn : r.next t with
  | error e =>
    rw [hn] at h
    cases h
  | ok u =>
    rw [hn] at h
    exact ⟨u, rfl, h⟩

theorem blocks_of_reads (h : Reads {} ts r) : blocks ts = r.finish := by
  unfold Reads at h
  rw [blocks, h]
  rfl

theorem reads_of_blocks {bs : List Block} (h : blocks ts = .ok bs) :
    ∃ r, Reads {} ts r ∧ r.finish = .ok bs := by
  unfold blocks at h
  cases hr : ts.foldlM Reader.next {} with
  | error e =>
    rw [hr] at h
    cases h
  | ok r =>
    rw [hr] at h
    exact ⟨r, hr, h⟩

/-- Reading goes on token by token until one is refused. -/
theorem foldlM_eq_error (h : ts.foldlM Reader.next r = .error e) :
    ∃ before t after s, ts = before ++ t :: after ∧ Reads r before s ∧ s.next t = .error e := by
  induction ts generalizing r with
  | nil => cases h
  | cons t rest ih =>
    rw [List.foldlM_cons] at h
    cases hn : r.next t with
    | error e' =>
      rw [hn] at h
      cases h
      exact ⟨[], t, rest, r, rfl, .refl r, hn⟩
    | ok s =>
      rw [hn] at h
      obtain ⟨before, u, after, last, rfl, hreads, herror⟩ := ih h
      exact ⟨t :: before, u, after, last, rfl, .cons hn hreads, herror⟩

theorem blocks_eq_error (h : blocks ts = .error e) :
    (∃ before t after s, ts = before ++ t :: after ∧ Reads {} before s ∧ s.next t = .error e) ∨
      ∃ s, Reads {} ts s ∧ s.finish = .error e := by
  unfold blocks at h
  cases hr : ts.foldlM Reader.next {} with
  | error e' =>
    rw [hr] at h
    cases h
    exact Or.inl (foldlM_eq_error hr)
  | ok s =>
    rw [hr] at h
    exact Or.inr ⟨s, hr, h⟩

/-! ## Reading along -/

/-- The reader can be changed before it reads the changed tokens or afterwards: what comes out is
the same but for the blocks and the errors, which change too. -/
structure ReadsAlong (φ : Reader → Reader) (τ : Token → Token)
    (ε : Program.Error → Program.Error) (β : List Block → List Block) : Prop where
  next : ∀ r t, (φ r).next (τ t) = ((r.next t).map φ).mapError ε
  finish : ∀ r, (φ r).finish = (r.finish.map β).mapError ε

theorem ReadsAlong.blocks {φ : Reader → Reader} {τ : Token → Token}
    {ε : Program.Error → Program.Error} {β : List Block → List Block}
    (h : ReadsAlong φ τ ε β) (r : Reader) (ts : List Token) :
    (ts.map τ).foldlM Reader.next (φ r) >>= Reader.finish =
      ((ts.foldlM Reader.next r >>= Reader.finish).map β).mapError ε := by
  induction ts generalizing r with
  | nil => exact h.finish r
  | cons t rest ih =>
    rw [List.map_cons, List.foldlM_cons, List.foldlM_cons, h.next]
    cases r.next t with
    | error e => rfl
    | ok s => exact ih s

end Script

/-! ## Tokens that stand elsewhere -/

/-- The same error about tokens that have been moved. -/
def Program.Error.relocate (f : Nat → Nat) : Program.Error → Program.Error
  | malformedJson => malformedJson
  | unexpectedToken token offset => unexpectedToken token (f offset)
  | missingRepeatCount offset => missingRepeatCount (f offset)
  | missingRepeatBody offset => missingRepeatBody (f offset)
  | unclosedRepeat offset => unclosedRepeat (f offset)
  | unmatchedBrace offset => unmatchedBrace (f offset)
  | nestingTooDeep offset limit => nestingTooDeep (f offset) limit
  | tooManyCommands limit => tooManyCommands limit

namespace Script

def Token.relocate (f : Nat → Nat) (t : Token) : Token := { t with offset := f t.offset }

def Due.relocate (f : Nat → Nat) : Due → Due
  | block => block
  | count repeatAt => count (f repeatAt)
  | body repeatAt times => body (f repeatAt) times

def OpenRepeat.relocate (f : Nat → Nat) (o : OpenRepeat) : OpenRepeat :=
  { o with openedAt := f o.openedAt }

def Reader.relocate (f : Nat → Nat) (r : Reader) : Reader where
  opened := r.opened.map (.relocate f)
  blocks := r.blocks
  due := r.due.relocate f

theorem Takes.relocate (h : Takes r t x) :
    Takes (r.relocate f) (t.relocate f) ((x.map (.relocate f)).mapError (.relocate f)) := by
  have hdue : ∀ {d}, r.due = d → (r.relocate f).due = d.relocate f :=
    fun h => congrArg (Due.relocate f) h
  have hlength : (r.relocate f).opened.length = r.opened.length := List.length_map _
  cases h with
  | simple due here means => exact .simple (hdue due) here means
  | repeats due here means => exact .repeats (hdue due) here means
  | unknown due here means => exact .unknown (hdue due) here means
  | stray due here => exact .stray (hdue due) here
  | @closes o outer due here opened =>
    have hopened : (r.relocate f).opened = o.relocate f :: outer.map (.relocate f) :=
      congrArg (List.map (OpenRepeat.relocate f)) opened
    have hcloses : Takes (r.relocate f) (t.relocate f) _ := .closes (hdue due) here hopened
    exact hcloses
  | unmatched due here opened =>
    have hopened : (r.relocate f).opened = [] := congrArg (List.map (OpenRepeat.relocate f)) opened
    exact .unmatched (hdue due) here hopened
  | counts due here means => exact .counts (hdue due) here means
  | uncounted due means => exact .uncounted (hdue due) means
  | opens due here room => exact .opens (hdue due) here (by rwa [hlength])
  | tooDeep due here full => exact .tooDeep (hdue due) here (by rwa [hlength])
  | bodiless due here => exact .bodiless (hdue due) here

theorem readsAlong_relocate (f : Nat → Nat) :
    ReadsAlong (.relocate f) (.relocate f) (.relocate f) id where
  next r t := (r.takes t).relocate.eq
  finish r := by
    obtain ⟨opened, own, due⟩ := r
    cases due with
    | count | body => rfl
    | block => cases opened <;> rfl

theorem blocks_relocate (f : Nat → Nat) (ts : List Token) :
    blocks (ts.map (.relocate f)) = (blocks ts).mapError (.relocate f) := by
  have hall := (readsAlong_relocate f).blocks {} ts
  change blocks (ts.map (.relocate f)) = ((blocks ts).map id).mapError (.relocate f) at hall
  rw [hall]
  cases blocks ts <;> rfl

end Script

end RocketPuzzle
