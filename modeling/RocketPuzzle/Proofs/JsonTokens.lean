import RocketPuzzle.Json.Token
import RocketPuzzle.Json.Writer
import RocketPuzzle.Proofs.Numeral

/-! # What is written, token by token

The lexer finds in a written datum the tokens that the writer had in mind, whatever characters its
texts are made of. A number ends only where something else begins, so at the end of a datum the
lexer may still be inside a word.
-/
namespace RocketPuzzle

namespace Datum

mutual

/-- The datum has a form in the exchange format, and its texts are made of allowed characters. -/
def HasForm (allowed : Char → Prop) : Datum → Prop
  | null => True
  | natural n => n < UInt64.size
  | text s => ∀ c ∈ s.toList, allowed c
  | list items => HaveForm allowed items
  | table fields => FieldsHaveForm allowed fields
  | scalar | date | broken => False

def HaveForm (allowed : Char → Prop) : List Datum → Prop
  | [] => True
  | d :: rest => d.HasForm allowed ∧ HaveForm allowed rest

def FieldsHaveForm (allowed : Char → Prop) : List (Option String × Datum) → Prop
  | [] => True
  | (name, d) :: rest =>
    (∃ s, name = some s ∧ ∀ c ∈ s.toList, allowed c) ∧ d.HasForm allowed ∧
      FieldsHaveForm allowed rest

end

end Datum

namespace Json

mutual

/-- The tokens that a datum is written with. -/
def spell : Datum → List Token
  | .null | .scalar | .date | .broken => [.leaf .null]
  | .natural n => [.leaf (.natural n)]
  | .text s => [.text (some s)]
  | .list items => .openList :: (spellItems items ++ [.closeList])
  | .table fields => .openTable :: (spellFields fields ++ [.closeTable])

def spellItems : List Datum → List Token
  | [] => []
  | [d] => spell d
  | d :: rest => spell d ++ .comma :: spellItems rest

def spellFields : List (Option String × Datum) → List Token
  | [] => []
  | [(name, d)] => .text (some (name.getD "")) :: .colon :: spell d
  | (name, d) :: rest =>
    .text (some (name.getD "")) :: .colon :: (spell d ++ .comma :: spellFields rest)

end

/-! ## Stretches of text -/

/-- The characters take the lexer from a gap to a gap and leave it with the tokens `after`, the
last one first. -/
def Lexes (before : List Token) (cs : List Char) (after : List Token) : Prop :=
  (Text.ofChars cs).foldlM Lexer.next ⟨.gap, before⟩ = some ⟨.gap, after⟩

/-- The same, but for a word that may still go on. -/
def Reaches (before : List Token) (cs : List Char) (after : List Token) : Prop :=
  ∃ l, (Text.ofChars cs).foldlM Lexer.next ⟨.gap, before⟩ = some l ∧
    l.endWord = some ⟨.gap, after⟩

variable {ts us vs : List Token} {cs ds : List Char} {c : Char} {t : Token}

theorem foldlM_append (l : Lexer) (cs ds : List Char) :
    (Text.ofChars (cs ++ ds)).foldlM Lexer.next l =
      (Text.ofChars cs).foldlM Lexer.next l >>= (Text.ofChars ds).foldlM Lexer.next := by
  rw [Text.ofChars, List.map_append, List.foldlM_append]
  rfl

theorem Lexes.reaches (h : Lexes ts cs us) : Reaches ts cs us := ⟨_, h, rfl⟩

theorem Lexes.then (h : Lexes ts cs us) (k : Reaches us ds vs) : Reaches ts (cs ++ ds) vs := by
  obtain ⟨l, hl, hend⟩ := k
  refine ⟨l, ?_, hend⟩
  rw [foldlM_append, h]
  exact hl

theorem ne_of_punctuation (h : punctuation? c = some t) : isSpace c = false ∧ c ≠ '"' := by
  constructor
  · cases hs : isSpace c with
    | false => rfl
    | true =>
      simp only [isSpace, Bool.or_eq_true, beq_iff_eq] at hs
      rcases hs with ((rfl | rfl) | rfl) | rfl <;> cases h
  · rintro rfl
    cases h

/-- Punctuation ends a word and is a token of its own. -/
theorem Reaches.punctuation (h : Reaches ts cs us) (hc : punctuation? c = some t) :
    Lexes ts (cs ++ [c]) (t :: us) := by
  obtain ⟨l, hl, hend⟩ := h
  obtain ⟨hspace, hquote⟩ := ne_of_punctuation hc
  have houtside : l.outside c = some ⟨.gap, t :: us⟩ := by
    simp [Lexer.outside, hspace, hquote, hc, hend, Lexer.emit]
  have hnext : l.next (.char c) = some ⟨.gap, t :: us⟩ := by
    obtain ⟨mode, tokens⟩ := l
    cases mode with
    | gap => exact houtside
    | bare => exact houtside
    | quoted => cases hend
    | escape => cases hend
    | hex => cases hend
  unfold Lexes
  rw [foldlM_append, hl]
  change (l.next (.char c) >>= fun k => some k) = _
  rw [hnext]
  rfl

theorem lexes_nil (ts : List Token) : Lexes ts [] ts := rfl

theorem lexes_punctuation (ts : List Token) (hc : punctuation? c = some t) :
    Lexes ts [c] (t :: ts) := (lexes_nil ts).reaches.punctuation hc

/-! ## Words and quoted texts -/

/-- A digit is part of a word. -/
theorem plain_of_digit (h : Text.isDigit c = true) :
    isSpace c = false ∧ (c == '"') = false ∧ punctuation? c = none := by
  have hother : ∀ d, Text.isDigit d = false → (c == d) = false := fun _ hd =>
    Text.beq_of_isDigit h hd
  refine ⟨?_, hother '"' rfl, ?_⟩
  · simp [isSpace, hother ' ' rfl, hother '\t' rfl, hother '\n' rfl, hother '\r' rfl]
  · simp [punctuation?, hother '[' rfl, hother ']' rfl, hother '\x7b' rfl, hother '\x7d' rfl,
      hother ',' rfl, hother ':' rfl]

theorem foldlM_digits (read : List Char) (h : ∀ c ∈ cs, Text.isDigit c = true) :
    (Text.ofChars cs).foldlM Lexer.next ⟨.bare read, ts⟩ =
      some ⟨.bare (cs.reverse ++ read), ts⟩ := by
  induction cs generalizing read with
  | nil => rfl
  | cons c rest ih =>
    obtain ⟨hc, hrest⟩ := List.forall_mem_cons.mp h
    obtain ⟨hspace, hquote, hplain⟩ := plain_of_digit hc
    have hnext : Lexer.next ⟨.bare read, ts⟩ (.char c) = some ⟨.bare (c :: read), ts⟩ := by
      simp [Lexer.next, Lexer.outside, hspace, hquote, hplain]
    rw [Text.ofChars, List.map_cons, List.foldlM_cons, hnext]
    change (Text.ofChars rest).foldlM Lexer.next _ = _
    rw [ih (c :: read) hrest]
    simp

theorem reaches_digits {d : Datum} (hne : cs ≠ []) (h : ∀ c ∈ cs, Text.isDigit c = true)
    (hd : bare? cs = some d) : Reaches ts cs (.leaf d :: ts) := by
  obtain ⟨c, rest, rfl⟩ := List.exists_cons_of_ne_nil hne
  obtain ⟨hc, hrest⟩ := List.forall_mem_cons.mp h
  obtain ⟨hspace, hquote, hplain⟩ := plain_of_digit hc
  have hfirst : Lexer.next ⟨.gap, ts⟩ (.char c) = some ⟨.bare [c], ts⟩ := by
    simp [Lexer.next, Lexer.outside, hspace, hquote, hplain]
  refine ⟨⟨.bare (rest.reverse ++ [c]), ts⟩, ?_, ?_⟩
  · rw [Text.ofChars, List.map_cons, List.foldlM_cons, hfirst]
    exact foldlM_digits [c] hrest
  · have hword : (rest.reverse ++ [c]).reverse = c :: rest := by simp
    simp only [Lexer.endWord, hword, hd]
    rfl

theorem numeral?_digits (hne : cs ≠ []) (h : ∀ c ∈ cs, Text.isDigit c = true)
    (hzero : cs.head? = some '0' → cs.length = 1) :
    numeral? cs = some ⟨false, cs, [], none⟩ := by
  have hall : cs.takeWhile Text.isDigit = cs := by
    simpa using @List.takeWhile_append_of_pos _ _ cs [] h
  have hrest : cs.dropWhile Text.isDigit = [] := by
    simpa using @List.dropWhile_append_of_pos _ _ cs [] h
  have hdigits : digits? cs = some (cs, []) := by
    unfold digits?
    rw [hall, hrest]
    cases cs with
    | nil => exact absurd rfl hne
    | cons => rfl
  have hunsigned : unsigned? false cs = some ⟨false, cs, [], none⟩ := by
    have hplain : ¬ (cs.head? = some '0' ∧ cs.length ≠ 1) := fun k => k.2 (hzero k.1)
    simp [unsigned?, hdigits, hplain, fractionPart?, exponentPart?]
  unfold numeral?
  split
  · have : Text.isDigit '-' = true := h _ (List.mem_cons_self ..)
    cases this
  · exact hunsigned

/-- A numeral without needless zeros is the number that it shows, if that fits 64 bits. -/
theorem bare?_digits {n : Nat} (hne : cs ≠ []) (h : ∀ c ∈ cs, Text.isDigit c = true)
    (hzero : cs.head? = some '0' → cs.length = 1) (hvalue : Text.valueFrom 0 cs = n)
    (hn : n < UInt64.size) : bare? cs = some (.natural n) := by
  have hword : ∀ w : String, (∃ c ∈ w.toList, Text.isDigit c = false) → cs ≠ w.toList := by
    rintro w ⟨c, hc, hno⟩ rfl
    rw [h c hc] at hno
    cases hno
  have hnull := hword "null" ⟨'n', by decide, rfl⟩
  have htrue := hword "true" ⟨'t', by decide, rfl⟩
  have hfalse := hword "false" ⟨'f', by decide, rfl⟩
  have hnatural : Numeral.natural? ⟨false, cs, [], none⟩ = some n := by
    simp [Numeral.natural?, hvalue, hn]
  unfold bare?
  rw [if_neg hnull, if_neg (not_or.mpr ⟨htrue, hfalse⟩), numeral?_digits hne h hzero,
    Option.map_some, Numeral.datum, hnatural]

theorem bare?_toString {n : Nat} (h : n < UInt64.size) :
    bare? (toString n).toList = some (.natural n) := by
  obtain ⟨hne, hdigits, hvalue⟩ := Text.digits_toString n
  refine bare?_digits hne hdigits ?_ hvalue h
  intro hhead
  by_cases hn : n = 0
  · subst hn
    decide
  · exact absurd hhead (Text.head?_toString hn)

theorem hexValue?_hexDigit {n : Nat} (h : n < 16) : Text.hexValue? (hexDigit n) = some n := by
  have hall : ∀ k : Fin 16, Text.hexValue? (hexDigit k) = some k.val := by decide
  exact hall ⟨n, h⟩

theorem join_unit {n : Nat} (h : n < 0xD800) (fs : List Fragment) :
    join (.unit n :: fs) = (join fs).map (Char.ofNat n :: ·) := by
  have hhigh : isHighSurrogate n = false := by
    simp only [isHighSurrogate, Bool.and_eq_false_iff, decide_eq_false_iff_not]
    omega
  have hlow : isLowSurrogate n = false := by
    simp only [isLowSurrogate, Bool.and_eq_false_iff, decide_eq_false_iff_not]
    omega
  rw [join.eq_def]
  simp [hhigh, hlow]

/-- The ways to write a character inside quotes. -/
inductive Escapes (c : Char) : List Char → Prop where
  | letter {d : Char} : d ∈ ['"', '\\', 'b', 'f', 'n', 'r', 't'] → escaped? d = some c →
      Escapes c ['\\', d]
  | code : c.toNat < 0x20 →
      Escapes c ['\\', 'u', '0', '0', hexDigit (c.toNat / 16), hexDigit (c.toNat % 16)]
  | plain : c ≠ '"' → c ≠ '\\' → 0x20 ≤ c.toNat → Escapes c [c]

theorem escapes_escape (c : Char) : Escapes c (escape c) := by
  by_cases hquote : c = '"'
  · subst hquote
    exact .letter (by decide) rfl
  by_cases hback : c = '\\'
  · subst hback
    exact .letter (by decide) rfl
  simp only [escape, beq_iff_eq, hquote, hback, if_false]
  iterate 5
    refine iteInduction (motive := Escapes c) ?_ (fun _ => ?_)
    · rintro rfl
      exact .letter (by decide) rfl
  refine iteInduction (motive := Escapes c) .code (fun hlow => ?_)
  exact .plain hquote hback (Nat.le_of_not_lt hlow)

/-- Whichever way a character is written, it is one fragment, and the fragment is the character. -/
theorem exists_fragment (c : Char) :
    ∃ f, (∀ read ts, (Text.ofChars (escape c)).foldlM Lexer.next ⟨.quoted read, ts⟩ =
        some ⟨.quoted (f :: read), ts⟩) ∧
      ∀ fs, join (f :: fs) = (join fs).map (c :: ·) := by
  have hway := escapes_escape c
  generalize escape c = cs at hway
  cases hway with
  | @letter d hd hnames =>
    have hunit : d ≠ 'u' := by
      rintro rfl
      simp at hd
    refine ⟨.char c, ?_, fun _ => rfl⟩
    intro read ts
    simp [Text.ofChars, Lexer.next, Lexer.quoted, Lexer.escape, hunit, hnames]
  | code hlow =>
    -- the code of the character is below 32, so it has two digits and is no surrogate
    have hhigh := hexValue?_hexDigit (n := c.toNat / 16) (by omega)
    have hunit := hexValue?_hexDigit (n := c.toNat % 16) (by omega)
    have hcode : 16 * (c.toNat / 16) + c.toNat % 16 = c.toNat := by omega
    refine ⟨.unit c.toNat, ?_, ?_⟩
    · intro read ts
      simp [Text.ofChars, Lexer.next, Lexer.quoted, Lexer.escape, Lexer.hex, hhigh, hunit, hcode,
        show Text.hexValue? '0' = some 0 from rfl]
    · intro fs
      rw [join_unit (by omega), Char.ofNat_toNat]
  | plain hquote hback hlow =>
    refine ⟨.char c, ?_, fun _ => rfl⟩
    intro read ts
    simp [Text.ofChars, Lexer.next, Lexer.quoted, hquote, hback, Nat.not_lt.mpr hlow]

theorem exists_fragments (cs : List Char) :
    ∃ fs, (∀ read ts, (Text.ofChars (cs.flatMap escape)).foldlM Lexer.next ⟨.quoted read, ts⟩ =
        some ⟨.quoted (fs.reverse ++ read), ts⟩) ∧ join fs = some cs := by
  induction cs with
  | nil => exact ⟨[], fun _ _ => rfl, rfl⟩
  | cons c rest ih =>
    obtain ⟨f, hf, hjoin⟩ := exists_fragment c
    obtain ⟨fs, hfs, hjoins⟩ := ih
    refine ⟨f :: fs, ?_, ?_⟩
    · intro read ts
      rw [List.flatMap_cons, foldlM_append, hf]
      change (Text.ofChars _).foldlM Lexer.next _ = _
      rw [hfs]
      simp
    · rw [hjoin, hjoins]
      rfl

theorem lexes_quote (ts : List Token) (s : String) : Lexes ts (quote s) (.text (some s) :: ts) := by
  obtain ⟨fs, hread, hjoin⟩ := exists_fragments s.toList
  have hopen : (Text.ofChars ['"']).foldlM Lexer.next ⟨.gap, ts⟩ = some ⟨.quoted [], ts⟩ := rfl
  have hclose : (Text.ofChars ['"']).foldlM Lexer.next ⟨.quoted (fs.reverse ++ []), ts⟩ =
      some ⟨.gap, .text (some s) :: ts⟩ := by
    simp [Text.ofChars, Lexer.next, Lexer.quoted, Lexer.emit, hjoin]
  have hquote : quote s = ['"'] ++ (s.toList.flatMap escape ++ ['"']) := rfl
  unfold Lexes
  rw [hquote, foldlM_append, hopen]
  change (Text.ofChars (_ ++ _)).foldlM Lexer.next _ = _
  rw [foldlM_append, hread]
  exact hclose

/-! ## Whole data -/

theorem reaches_null (ts : List Token) : Reaches ts "null".toList (.leaf .null :: ts) :=
  ⟨⟨.bare "null".toList.reverse, ts⟩, rfl, rfl⟩

mutual

theorem reaches_write {allowed : Char → Prop} :
    (d : Datum) → d.HasForm allowed → (ts : List Token) →
      Reaches ts (write d) ((spell d).reverse ++ ts)
  | .null, _, ts => reaches_null ts
  | .natural n, h, ts => by
    obtain ⟨hne, hdigits, _⟩ := Text.digits_toString n
    exact reaches_digits hne hdigits (bare?_toString h)
  | .text s, _, ts => (lexes_quote ts s).reaches
  | .list items, h, ts => by
    have hopen := lexes_punctuation ts (c := '[') rfl
    have hitems := reaches_writeItems items h (.openList :: ts)
    have hclose := (hopen.then hitems).punctuation (c := ']') rfl
    have htokens : (spell (.list items)).reverse ++ ts =
        .closeList :: ((spellItems items).reverse ++ .openList :: ts) := by simp [spell]
    rw [htokens]
    exact hclose.reaches
  | .table fields, h, ts => by
    have hopen := lexes_punctuation ts (c := '\x7b') rfl
    have hfields := reaches_writeFields fields h (.openTable :: ts)
    have hclose := (hopen.then hfields).punctuation (c := '\x7d') rfl
    have htokens : (spell (.table fields)).reverse ++ ts =
        .closeTable :: ((spellFields fields).reverse ++ .openTable :: ts) := by simp [spell]
    rw [htokens]
    exact hclose.reaches

theorem reaches_writeItems {allowed : Char → Prop} :
    (items : List Datum) → Datum.HaveForm allowed items → (ts : List Token) →
      Reaches ts (writeItems items) ((spellItems items).reverse ++ ts)
  | [], _, ts => (lexes_nil ts).reaches
  | [d], h, ts => reaches_write d h.1 ts
  | d :: e :: rest, h, ts => by
    have hcomma := (reaches_write d h.1 ts).punctuation (c := ',') rfl
    have hrest := reaches_writeItems (e :: rest) h.2 (.comma :: ((spell d).reverse ++ ts))
    simpa [writeItems, spellItems] using hcomma.then hrest

theorem reaches_writeFields {allowed : Char → Prop} :
    (fields : List (Option String × Datum)) → Datum.FieldsHaveForm allowed fields →
      (ts : List Token) → Reaches ts (writeFields fields) ((spellFields fields).reverse ++ ts)
  | [], _, ts => (lexes_nil ts).reaches
  | [(name, d)], h, ts => by
    have hcolon := (lexes_quote ts (name.getD "")).reaches.punctuation (c := ':') rfl
    have hvalue := reaches_write d h.2.1 (.colon :: .text (some (name.getD "")) :: ts)
    simpa [writeFields, spellFields] using hcolon.then hvalue
  | (name, d) :: e :: rest, h, ts => by
    have hcolon := (lexes_quote ts (name.getD "")).reaches.punctuation (c := ':') rfl
    have hvalue := reaches_write d h.2.1 (.colon :: .text (some (name.getD "")) :: ts)
    have hcomma := (hcolon.then hvalue).punctuation (c := ',') rfl
    have hrest := reaches_writeFields (e :: rest) h.2.2
      (.comma :: ((spell d).reverse ++ .colon :: .text (some (name.getD "")) :: ts))
    simpa only [writeFields, spellFields, List.reverse_cons, List.reverse_append,
      List.append_assoc, List.cons_append, List.nil_append] using hcomma.then hrest

end

theorem tokens?_write {allowed : Char → Prop} {d : Datum} (h : d.HasForm allowed) :
    tokens? (Text.ofChars (write d)) = some (spell d) := by
  obtain ⟨l, hl, hend⟩ := reaches_write d h []
  have hstart : (Text.ofChars (write d)).foldlM Lexer.next {} = some l := hl
  simp [tokens?, hstart, hend]

end Json

end RocketPuzzle
