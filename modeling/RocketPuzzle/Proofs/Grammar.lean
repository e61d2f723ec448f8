import RocketPuzzle.Proofs.Numeral
import RocketPuzzle.Proofs.Reading

/-! # The grammar of scripts

A script is accepted exactly when its symbols derive a row of blocks in the grammar and no repeat
stands too deep. The reader never looks ahead: what it keeps at any moment is the part of a
derivation that has been read, one stretch of symbols for each repeat that is open.
-/
namespace RocketPuzzle

namespace Block

mutual

/-- No repeat of a tree that stands inside `around` repeats stands inside `maxDepth` or more. -/
def isShallow : Nat → Block → Bool
  | around, repeated _ body => decide (around < Program.maxDepth) && areShallow (around + 1) body
  | _, _ => true

def areShallow : Nat → List Block → Bool
  | _, [] => true
  | around, b :: rest => b.isShallow around && areShallow around rest

end

end Block

namespace Script

/-- The words that are blocks by themselves. -/
def spellings : List (String × Block) :=
  [("start", .start), ("move", .move), ("forward", .move), ("left", .turnLeft),
    ("turn_left", .turnLeft), ("right", .turnRight), ("turn_right", .turnRight),
    ("collect", .collect), ("refuel", .collect)]

/-- The word is the name, in capital or small letters of ASCII. -/
def Spells (word name : String) : Prop := word.map Char.toLower = name

/-- The word is a decimal numeral of `n`, perhaps after one plus sign. -/
def Counts (word : String) (n : UInt32) : Prop :=
  ∃ digits, digits ≠ [] ∧ (∀ d ∈ digits, Text.isDigit d = true) ∧
    Text.valueFrom 0 digits = n.toNat ∧ (word.toList = digits ∨ word.toList = '+' :: digits)

mutual

inductive Derives : List Symbol → Block → Prop where
  | simple {word name block} : (name, block) ∈ spellings → Spells word name →
      Derives [.word word] block
  | repeats {word count times symbols body} : Spells word "repeat" → Counts count times →
      DerivesAll symbols body →
      Derives (.word word :: .word count :: .opening :: (symbols ++ [.closing]))
        (.repeated times body)

inductive DerivesAll : List Symbol → List Block → Prop where
  | nil : DerivesAll [] []
  | cons {first others block rest} : Derives first block → DerivesAll others rest →
      DerivesAll (first ++ others) (block :: rest)

end

theorem keyword?_simple {word : String} {b : Block} :
    keyword? word = some (.simple b) ↔ ∃ name, (name, b) ∈ spellings ∧ Spells word name := by
  unfold keyword? Spells
  split
  all_goals simp_all [spellings]
  all_goals exact eq_comm

theorem keyword?_repeats {word : String} :
    keyword? word = some .repeats ↔ Spells word "repeat" := by
  unfold keyword? Spells
  split <;> simp_all

theorem count?_eq_some {word : String} {n : UInt32} :
    count? word = some n ↔ Counts word n := by
  unfold count? Counts
  split
  · next digits hplus =>
    rw [Text.word32?_natural?, hplus]
    constructor
    · rintro ⟨hne, hdigits, hvalue⟩
      exact ⟨digits, hne, hdigits, hvalue, Or.inr rfl⟩
    · rintro ⟨_, hne, hdigits, hvalue, rfl | hsame⟩
      · have : Text.isDigit '+' = true := hdigits _ (List.mem_cons_self ..)
        cases this
      · cases hsame
        exact ⟨hne, hdigits, hvalue⟩
  · next hplus =>
    rw [Text.word32?_natural?]
    constructor
    · rintro ⟨hne, hdigits, hvalue⟩
      exact ⟨_, hne, hdigits, hvalue, Or.inl rfl⟩
    · rintro ⟨digits, hne, hdigits, hvalue, rfl | hsame⟩
      · exact ⟨hne, hdigits, hvalue⟩
      · exact absurd hsame (hplus digits)

theorem isShallow_of_spelled {name : String} {b : Block} (h : (name, b) ∈ spellings)
    (around : Nat) : b.isShallow around = true := by
  have hall : ∀ p ∈ spellings, p.2.isShallow around = true := by
    simp [spellings, Block.isShallow]
  exact hall _ h

/-! ## What is derived is read -/

variable {ss : List Symbol} {ts : List Token} {r s : Reader} {t : Token} {b : Block}
  {bs : List Block}

theorem next_spelled {text name : String} (due : r.due = .block) (ht : t.symbol = .word text)
    (h : (name, b) ∈ spellings) (k : Spells text name) : r.next t = .ok (r.push b) :=
  (Takes.simple due ht (keyword?_simple.mpr ⟨name, h, k⟩)).eq

/-- A block without a body is read as one word. -/
theorem reads_word (plain : ∀ times body, b ≠ .repeated times body) (h : Derives ss b)
    (hts : ts.map Token.symbol = ss) (due : r.due = .block) : Reads r ts (r.push b) := by
  cases h with
  | simple hname hspell =>
    obtain ⟨t, rfl, ht⟩ := List.map_eq_singleton_iff.mp hts
    exact .single (next_spelled due ht hname hspell)
  | repeats => exact absurd rfl (plain _ _)

mutual

theorem reads_block : (b : Block) → {ss : List Symbol} → {ts : List Token} → {r : Reader} →
    Derives ss b → ts.map Token.symbol = ss → r.due = .block →
    b.isShallow r.opened.length = true → Reads r ts (r.push b)
  | .start, _, _, _, h, hts, due, _ => reads_word nofun h hts due
  | .move, _, _, _, h, hts, due, _ => reads_word nofun h hts due
  | .turnLeft, _, _, _, h, hts, due, _ => reads_word nofun h hts due
  | .turnRight, _, _, _, h, hts, due, _ => reads_word nofun h hts due
  | .collect, _, _, _, h, hts, due, _ => reads_word nofun h hts due
  | .repeated times body, _, ts, r, h, hts, due, shallow => by
    cases h with
    | simple hname => simp [spellings] at hname
    | repeats hword hcount hbody =>
      obtain ⟨w, _, rfl, hw, hts⟩ := List.map_eq_cons_iff.mp hts
      obtain ⟨c, _, rfl, hc, hts⟩ := List.map_eq_cons_iff.mp hts
      obtain ⟨o, _, rfl, ho, hts⟩ := List.map_eq_cons_iff.mp hts
      obtain ⟨us, _, rfl, hus, hts⟩ := List.map_eq_append_iff.mp hts
      obtain ⟨e, rfl, he⟩ := List.map_eq_singleton_iff.mp hts
      obtain ⟨hroom, hdeep⟩ : r.opened.length < Program.maxDepth ∧
          Block.areShallow (r.opened.length + 1) body = true := by
        simpa [Block.isShallow] using shallow
      let counting : Reader := { r with due := .count w.offset }
      let opening : Reader := { r with due := .body w.offset times }
      let inside : Reader := { opened := ⟨times, o.offset, r.blocks⟩ :: r.opened }
      have hrepeat : r.next w = .ok counting :=
        (Takes.repeats due hw (keyword?_repeats.mpr hword)).eq
      have hcount : counting.next c = .ok opening :=
        (Takes.counts rfl hc (count?_eq_some.mpr hcount)).eq
      have hopening : opening.next o = .ok inside :=
        (Takes.opens (r := opening) rfl ho (Nat.ne_of_lt hroom)).eq
      -- the body is read one repeat further in, where no blocks stand before it
      have hbody := reads_blocks body hbody hus (r := inside) rfl hdeep
      have hclosing : Reader.next { inside with blocks := body.reverse ++ inside.blocks } e =
          .ok (r.push (.repeated times body)) := by
        rw [(Takes.closes rfl he rfl).eq]
        simp [inside, Reader.push]
      exact .cons hrepeat (.cons hcount (.cons hopening (hbody.append (.single hclosing))))

theorem reads_blocks : (bs : List Block) → {ss : List Symbol} → {ts : List Token} →
    {r : Reader} → DerivesAll ss bs → ts.map Token.symbol = ss → r.due = .block →
    Block.areShallow r.opened.length bs = true →
    Reads r ts { r with blocks := bs.reverse ++ r.blocks }
  | [], _, ts, r, h, hts, due, _ => by
    cases h
    obtain rfl := List.map_eq_nil_iff.mp hts
    exact .refl r
  | b :: rest, _, ts, r, h, hts, due, shallow => by
    cases h with
    | cons hfirst hothers =>
      obtain ⟨us, vs, rfl, hus, hvs⟩ := List.map_eq_append_iff.mp hts
      obtain ⟨hb, hrest⟩ : b.isShallow r.opened.length = true ∧
          Block.areShallow r.opened.length rest = true := by
        simpa [Block.areShallow] using shallow
      have hleft := reads_block b hfirst hus due hb
      have hright := reads_blocks rest hothers hvs (r := r.push b) rfl hrest
      have hsame : ({ r.push b with blocks := rest.reverse ++ (r.push b).blocks } : Reader) =
          { r with blocks := (b :: rest).reverse ++ r.blocks } := by
        simp [Reader.push, due]
      exact hsame ▸ hleft.append hright

end

/-! ## What is read is derived -/

theorem DerivesAll.snoc {others : List Symbol} (h : DerivesAll ss bs) (k : Derives others b) :
    DerivesAll (ss ++ others) (bs ++ [b]) := by
  -- on the blocks, since the derivations of rows and of single blocks are mutual
  induction bs generalizing ss with
  | nil =>
    cases h
    simpa using DerivesAll.cons k .nil
  | cons c rest ih =>
    cases h with
    | cons hfirst hrest =>
      rw [List.append_assoc]
      exact .cons hfirst (ih hrest)

theorem areShallow_append {around : Nat} {cs : List Block} :
    Block.areShallow around (bs ++ cs) =
      (Block.areShallow around bs && Block.areShallow around cs) := by
  induction bs with
  | nil => rfl
  | cons b rest ih => simp only [List.cons_append, Block.areShallow, ih, Bool.and_assoc]

/-- The symbols are those of the open repeats, each up to its opening brace and after the blocks
before it, and of the blocks that stand in the innermost one. -/
inductive Stands : List OpenRepeat → List Block → List Symbol → Prop where
  | outside {blocks ss} : DerivesAll ss blocks.reverse → Block.areShallow 0 blocks.reverse = true →
      Stands [] blocks ss
  | inside {o outer blocks word count before body} : Stands outer o.before before →
      outer.length < Program.maxDepth → Spells word "repeat" → Counts count o.times →
      DerivesAll body blocks.reverse →
      Block.areShallow (outer.length + 1) blocks.reverse = true →
      Stands (o :: outer) blocks (before ++ .word word :: .word count :: .opening :: body)

namespace Stands

variable {opened : List OpenRepeat} {blocks : List Block}

theorem length_le (h : Stands opened blocks ss) : opened.length ≤ Program.maxDepth := by
  cases h with
  | outside => exact Nat.zero_le _
  | inside _ room => exact room

theorem push {others : List Symbol} (h : Stands opened blocks ss) (k : Derives others b)
    (shallow : b.isShallow opened.length = true) :
    Stands opened (b :: blocks) (ss ++ others) := by
  have hlast : ∀ around, b.isShallow around = true →
      Block.areShallow around blocks.reverse = true →
      Block.areShallow around (b :: blocks).reverse = true := by
    intro around hb hblocks
    rw [List.reverse_cons, areShallow_append, hblocks]
    simp [Block.areShallow, hb]
  cases h with
  | outside hall hshallow =>
    apply outside
    · rw [List.reverse_cons]
      exact hall.snoc k
    · exact hlast 0 shallow hshallow
  | inside hbefore room hword hcount hbody hshallow =>
    rw [List.append_assoc]
    apply inside hbefore room hword hcount
    · rw [List.reverse_cons]
      exact hbody.snoc k
    · exact hlast _ shallow hshallow

end Stands

/-- The symbols of a repeat that have been read before what is due. -/
def Due.Follows : Due → List Symbol → Prop
  | .block, ss => ss = []
  | .count _, ss => ∃ word, Spells word "repeat" ∧ ss = [.word word]
  | .body _ times, ss =>
    ∃ word count, Spells word "repeat" ∧ Counts count times ∧ ss = [.word word, .word count]

namespace Reader

/-- What the reader keeps is a part of a derivation, read up to the end of the symbols. -/
def Keeps (r : Reader) (ss : List Symbol) : Prop :=
  ∃ before after, Stands r.opened r.blocks before ∧ r.due.Follows after ∧ ss = before ++ after

theorem Keeps.of_stands (h : Stands r.opened r.blocks ss) (due : r.due = .block) : r.Keeps ss :=
  ⟨ss, [], h, by rw [due]; rfl, (List.append_nil ss).symm⟩

theorem Keeps.stands (h : r.Keeps ss) (due : r.due = .block) : Stands r.opened r.blocks ss := by
  obtain ⟨before, after, hstands, hdue, rfl⟩ := h
  rw [due] at hdue
  obtain rfl : after = [] := hdue
  rwa [List.append_nil]

theorem Keeps.next (h : r.Keeps ss) (k : r.next t = .ok s) : s.Keeps (ss ++ [t.symbol]) := by
  have htakes := r.takes t
  rw [k] at htakes
  cases htakes with
  | simple due here means =>
    obtain ⟨name, hname, hspell⟩ := keyword?_simple.mp means
    rw [here]
    exact .of_stands ((h.stands due).push (.simple hname hspell) (isShallow_of_spelled hname _)) rfl
  | @repeats text due here means =>
    rw [here]
    exact ⟨ss, _, h.stands due, ⟨text, keyword?_repeats.mp means, rfl⟩, rfl⟩
  | @closes o outer due here opened =>
    have hstands := h.stands due
    rw [opened] at hstands
    rw [here]
    cases hstands with
    | inside hbefore room hword hcount hbody hshallow =>
      -- the repeat is whole now and joins the blocks that stand before it
      have hblock := Derives.repeats hword hcount hbody
      have hall : Block.isShallow outer.length (.repeated o.times r.blocks.reverse) = true := by
        simp [Block.isShallow, room, hshallow]
      apply Keeps.of_stands _ rfl
      simpa using hbefore.push hblock hall
  | @counts repeatAt text times due here means =>
    obtain ⟨before, after, hstands, hdue, rfl⟩ := h
    rw [due] at hdue
    obtain ⟨word, hword, rfl⟩ := hdue
    rw [here, List.append_assoc]
    exact ⟨before, _, hstands, ⟨word, text, hword, count?_eq_some.mp means, rfl⟩, rfl⟩
  | opens due here room =>
    obtain ⟨before, after, hstands, hdue, rfl⟩ := h
    rw [due] at hdue
    obtain ⟨word, count, hword, hcount, rfl⟩ := hdue
    have hroom : r.opened.length < Program.maxDepth := Nat.lt_of_le_of_ne hstands.length_le room
    rw [here, List.append_assoc]
    exact .of_stands (.inside hstands hroom hword hcount .nil rfl) rfl

theorem Keeps.reads (h : r.Keeps ss) (k : Reads r ts s) : s.Keeps (ss ++ ts.map Token.symbol) := by
  induction ts generalizing r ss with
  | nil =>
    cases k
    simpa using h
  | cons t rest ih =>
    obtain ⟨u, hnext, hrest⟩ := k.uncons
    have hall := ih (h.next hnext) hrest
    rwa [List.append_assoc] at hall

theorem keeps_initial : Reader.Keeps {} [] := .of_stands (.outside .nil rfl) rfl

theorem Keeps.finish (h : r.Keeps ss) (k : r.finish = .ok bs) :
    DerivesAll ss bs ∧ Block.areShallow 0 bs = true := by
  unfold Reader.finish at k
  cases hd : r.due with
  | count | body =>
    rw [hd] at k
    cases k
  | block =>
    have hstands := h.stands hd
    cases ho : r.opened with
    | cons o outer =>
      rw [hd, ho] at k
      cases k
    | nil =>
      rw [hd, ho] at k
      rw [ho] at hstands
      cases k
      cases hstands with
      | outside hall hshallow => exact ⟨hall, hshallow⟩

end Reader

/-- The reader accepts what the grammar derives, as long as no repeat stands too deep. -/
theorem blocks_eq_ok :
    blocks ts = .ok bs ↔
      DerivesAll (ts.map Token.symbol) bs ∧ Block.areShallow 0 bs = true := by
  constructor
  · intro h
    obtain ⟨r, hreads, hfinish⟩ := reads_of_blocks h
    exact (Reader.keeps_initial.reads hreads).finish hfinish
  · rintro ⟨hderives, hshallow⟩
    have hread := reads_blocks bs (r := {}) hderives rfl rfl hshallow
    rw [blocks_of_reads hread]
    simp [Reader.finish]

end Script

end RocketPuzzle
