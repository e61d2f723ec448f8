import RocketPuzzle.Json
import RocketPuzzle.Proofs.JsonTokens

/-! # What is written is read

The reader makes of the tokens of a written datum that datum, so writing and reading lose nothing.
-/
namespace RocketPuzzle.Json

namespace Reader

variable {stack : List Frame} {t : Token} {ts : List Token}

/-- After an opening bracket a list goes on as one that is still empty, unless it ends there. -/
theorem next_firstItem (h : t ≠ .closeList) :
    next (firstItem stack) t = next (value (.list [] :: stack)) t := by
  cases t with
  | closeList => exact absurd rfl h
  | _ => rfl

end Reader

theorem exists_spell_eq_cons (d : Datum) : ∃ t ts, spell d = t :: ts ∧ t ≠ .closeList := by
  cases d <;> exact ⟨_, _, rfl, nofun⟩

theorem exists_spellItems_eq_cons (d : Datum) (rest : List Datum) :
    ∃ t ts, spellItems (d :: rest) = t :: ts ∧ t ≠ .closeList := by
  obtain ⟨t, ts, hd, ht⟩ := exists_spell_eq_cons d
  cases rest with
  | nil => exact ⟨t, ts, hd, ht⟩
  | cons e rest => exact ⟨t, ts ++ .comma :: spellItems (e :: rest), by simp [spellItems, hd], ht⟩

theorem exists_spellFields_eq_cons (name : Option String) (d : Datum)
    (rest : List (Option String × Datum)) :
    ∃ ts, spellFields ((name, d) :: rest) = .text (some (name.getD "")) :: ts := by
  cases rest with
  | nil => exact ⟨_, rfl⟩
  | cons e rest => exact ⟨_, rfl⟩

/-- The reader gets from one state to another over the tokens. -/
def Reads (r : Reader) (ts : List Token) (s : Reader) : Prop := ts.foldlM Reader.next r = some s

variable {r s u : Reader} {t : Token} {ts us : List Token}

theorem Reads.cons (h : r.next t = some s) (k : Reads s ts u) : Reads r (t :: ts) u := by
  unfold Reads
  rw [List.foldlM_cons, h]
  exact k

theorem Reads.append (h : Reads r ts s) (k : Reads s us u) : Reads r (ts ++ us) u := by
  unfold Reads
  rw [List.foldlM_append, h]
  exact k

theorem Reads.last (h : Reads r ts s) (k : s.next t = some u) : Reads r (ts ++ [t]) u :=
  h.append (.cons k rfl)

/-- Only what becomes of the first token counts. -/
theorem Reads.of_next_eq (h : r.next t = s.next t) (k : Reads s (t :: ts) u) :
    Reads r (t :: ts) u := by
  unfold Reads at *
  rwa [List.foldlM_cons, h, ← List.foldlM_cons]

mutual

theorem reads_spell {allowed : Char → Prop} :
    (d : Datum) → d.HasForm allowed → (stack : List Frame) →
      Reads (.value stack) (spell d) (.resume stack d)
  | .null, _, _ | .natural _, _, _ | .text _, _, _ => .cons rfl rfl
  | .list [], _, stack => .cons (s := .firstItem stack) rfl (.cons rfl rfl)
  | .list (d :: rest), h, stack => by
    have hitems := reads_spellItems (d :: rest) h nofun stack []
    obtain ⟨t, ts, hspell, ht⟩ := exists_spellItems_eq_cons d rest
    rw [hspell] at hitems
    have hfirst : Reads (.firstItem stack) (t :: ts) _ :=
      hitems.of_next_eq (Reader.next_firstItem ht)
    have hlast := hfirst.last (t := .closeList) rfl
    rw [← hspell, List.append_nil, List.reverse_reverse] at hlast
    exact .cons (s := .firstItem stack) rfl hlast
  | .table [], _, stack => .cons (s := .firstName stack) rfl (.cons rfl rfl)
  | .table ((name, d) :: rest), h, stack => by
    have hfields := reads_spellFields ((name, d) :: rest) h nofun stack []
    obtain ⟨ts, hspell⟩ := exists_spellFields_eq_cons name d rest
    rw [hspell] at hfields
    have hfirst : Reads (.firstName stack) (.text (some (name.getD "")) :: ts) _ :=
      hfields.of_next_eq rfl
    have hlast := hfirst.last (t := .closeTable) rfl
    rw [← hspell, List.append_nil, List.reverse_reverse] at hlast
    exact .cons (s := .firstName stack) rfl hlast

theorem reads_spellItems {allowed : Char → Prop} :
    (items : List Datum) → Datum.HaveForm allowed items → items ≠ [] → (stack : List Frame) →
      (before : List Datum) →
      Reads (.value (.list before :: stack)) (spellItems items)
        (.afterItem stack (items.reverse ++ before))
  | [], _, hne, _, _ => absurd rfl hne
  | [d], h, _, stack, before => reads_spell d h.1 (.list before :: stack)
  | d :: e :: rest, h, _, stack, before => by
    have hd := reads_spell d h.1 (.list before :: stack)
    have hrest := reads_spellItems (e :: rest) h.2 nofun stack (d :: before)
    have hboth := hd.append (.cons (t := .comma) rfl hrest)
    simpa [spellItems] using hboth

theorem reads_spellFields {allowed : Char → Prop} :
    (fields : List (Option String × Datum)) → Datum.FieldsHaveForm allowed fields →
      fields ≠ [] → (stack : List Frame) → (before : List (Option String × Datum)) →
      Reads (.name stack before) (spellFields fields)
        (.afterField stack (fields.reverse ++ before))
  | [], _, hne, _, _ => absurd rfl hne
  | [(name, d)], h, _, stack, before => by
    obtain ⟨⟨n, rfl, _⟩, hd, _⟩ := h
    have hvalue := reads_spell d hd (.table before (some n) :: stack)
    exact .cons (s := .colon stack before (some n)) rfl (.cons rfl hvalue)
  | (name, d) :: e :: rest, h, _, stack, before => by
    obtain ⟨⟨n, rfl, _⟩, hd, hothers⟩ := h
    have hvalue := reads_spell d hd (.table before (some n) :: stack)
    have hrest := reads_spellFields (e :: rest) hothers nofun stack ((some n, d) :: before)
    have hboth := hvalue.append (.cons (t := .comma) rfl hrest)
    have hall : Reads (.name stack before) (spellFields ((some n, d) :: e :: rest)) _ :=
      .cons (s := .colon stack before (some n)) rfl (.cons rfl hboth)
    simpa using hall

end

/-- What has a form in the format is read back as it was written. -/
theorem read?_write {allowed : Char → Prop} {d : Datum} (h : d.HasForm allowed) :
    read? (Text.ofChars (write d)) = some d := by
  have hread : (spell d).foldlM Reader.next (.value []) = some (.finished d) := reads_spell d h []
  rw [read?, tokens?_write h]
  change (spell d).foldlM Reader.next (.value []) >>= Reader.result? = some d
  rw [hread]
  rfl

end RocketPuzzle.Json
