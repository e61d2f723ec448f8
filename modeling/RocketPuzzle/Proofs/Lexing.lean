import RocketPuzzle.Script.Token

/-! # Symbols as they are written

A row of symbols written one after another with blanks in between is read back as that row. The
lexer keeps the word that it is reading in reverse, and a word is complete only when a delimiter
follows.
-/
namespace RocketPuzzle.Script

/-- The length of a text in bytes. -/
def bytes : List Char → Nat
  | [] => 0
  | c :: rest => c.utf8Size + bytes rest

/-- A word is not empty and holds nothing that would end it. -/
def IsWord (w : String) : Prop := w.toList ≠ [] ∧ ∀ c ∈ w.toList, isDelimiter c = false

/-- The same as a check. -/
def isWord (w : String) : Bool := !w.toList.isEmpty && w.toList.all fun c => !isDelimiter c

theorem isWord_eq_true {w : String} : isWord w = true ↔ IsWord w := by
  simp [isWord, IsWord]

def Symbol.text : Symbol → List Char
  | word w => w.toList
  | opening => ['\x7b']
  | closing => ['\x7d']

/-- The symbol can be the only one in a text. -/
def Symbol.IsWritable : Symbol → Prop
  | word w => IsWord w
  | opening | closing => True

/-- A word goes on unless a delimiter comes; a brace is whole at once. -/
def Symbol.EndsBefore : Symbol → List Char → Prop
  | word _, rest => ∀ c ∈ rest.head?, isDelimiter c = true
  | opening, _ | closing, _ => True

def written (ss : List Symbol) : List Char := ss.flatMap fun s => s.text ++ [' ']

variable {start offset : Nat} {c : Char} {read cs rest : List Char} {w : String} {s : Symbol}

/-- A word goes on as long as no delimiter comes. -/
theorem tokensFrom_word (h : ∀ c ∈ cs, isDelimiter c = false) :
    tokensFrom (.word start read) offset (cs ++ rest) =
      tokensFrom (.word start (cs.reverse ++ read)) (offset + bytes cs) rest := by
  induction cs generalizing offset read with
  | nil => rfl
  | cons c cs ih =>
    obtain ⟨hc, hcs⟩ := List.forall_mem_cons.mp h
    have hnext : Mode.next (.word start read) offset c = (.word start (c :: read), []) := by
      simp [Mode.next, hc]
    rw [List.cons_append, tokensFrom, hnext]
    simp only [List.nil_append, ih hcs]
    simp [bytes, Nat.add_assoc]

theorem enter_of_not_delimiter (h : isDelimiter c = false) :
    enter offset c = (.word offset [c], []) := by
  simp_all [enter, isDelimiter]

theorem tokensFrom_isWord (h : IsWord w) :
    tokensFrom .gap offset (w.toList ++ rest) =
      tokensFrom (.word offset w.toList.reverse) (offset + bytes w.toList) rest := by
  obtain ⟨hne, hw⟩ := h
  cases hl : w.toList with
  | nil => exact absurd hl hne
  | cons c cs =>
    rw [hl] at hw
    obtain ⟨hc, hcs⟩ := List.forall_mem_cons.mp hw
    rw [List.cons_append, tokensFrom, Mode.next, enter_of_not_delimiter hc]
    simp only [List.nil_append, tokensFrom_word hcs]
    simp [bytes, Nat.add_assoc]

theorem tokensFrom_ended (h : s.IsWritable) (k : s.EndsBefore rest) :
    tokensFrom .gap offset (s.text ++ rest) =
      ⟨s, offset⟩ :: tokensFrom .gap (offset + bytes s.text) rest := by
  cases s with
  | opening | closing => rfl
  | word w =>
    rw [Symbol.text, tokensFrom_isWord h]
    have hword : Mode.flush (.word offset w.toList.reverse) = [⟨.word w, offset⟩] := by
      simp [Mode.flush]
    cases rest with
    | nil => exact hword
    | cons c rest =>
      have hc : isDelimiter c = true := k c rfl
      simp only [tokensFrom, Mode.next, hc, if_true, hword]
      rfl

theorem tokensFrom_separator (h : isSeparator c = true) :
    tokensFrom .gap offset (c :: rest) = tokensFrom .gap (offset + c.utf8Size) rest := by
  have hother : ∀ d, isSeparator d = false → (c == d) = false := by
    intro d hd
    rw [beq_eq_false_iff_ne]
    rintro rfl
    rw [h] at hd
    cases hd
  have hnext : Mode.next .gap offset c = (.gap, []) := by
    simp [Mode.next, enter, h, hother '#' rfl, hother '\x7b' rfl, hother '\x7d' rfl]
  rw [tokensFrom, hnext]
  rfl

theorem tokensFrom_symbol (h : s.IsWritable) :
    tokensFrom .gap offset (s.text ++ ' ' :: rest) =
      ⟨s, offset⟩ :: tokensFrom .gap (offset + bytes s.text + 1) rest := by
  have hends : s.EndsBefore (' ' :: rest) := by
    cases s with
    | opening | closing => trivial
    | word w =>
      rintro c ⟨⟩
      rfl
  rw [tokensFrom_ended h hends, tokensFrom_separator (by decide)]
  rfl

theorem symbols_written {ss : List Symbol} (h : ∀ s ∈ ss, s.IsWritable) :
    (tokens (written ss)).map Token.symbol = ss := by
  suffices hfrom : ∀ offset, (tokensFrom .gap offset (written ss)).map Token.symbol = ss from
    hfrom 0
  intro offset
  induction ss generalizing offset with
  | nil => rfl
  | cons s ss ih =>
    obtain ⟨hs, hss⟩ := List.forall_mem_cons.mp h
    have hwritten : written (s :: ss) = s.text ++ ' ' :: written ss := by simp [written]
    rw [hwritten, tokensFrom_symbol hs, List.map_cons, ih hss]

end RocketPuzzle.Script
