import RocketPuzzle.Proofs.Grammar
import RocketPuzzle.Proofs.Lexing

/-! # Every program can be written

The grammar has a text for every program without too deep a repeat, and no others are ever read.
-/
namespace RocketPuzzle.Script

mutual

/-- One way to write a block. -/
def spell : Block → List Symbol
  | .start => [.word "start"]
  | .move => [.word "move"]
  | .turnLeft => [.word "left"]
  | .turnRight => [.word "right"]
  | .collect => [.word "collect"]
  | .repeated times body =>
    .word "repeat" :: .word (toString times.toNat) :: .opening :: (spellAll body ++ [.closing])

def spellAll : List Block → List Symbol
  | [] => []
  | b :: rest => spell b ++ spellAll rest

end

theorem counts_toString (n : UInt32) : Counts (toString n.toNat) n := by
  obtain ⟨hne, hdigits, hvalue⟩ := Text.digits_toString n.toNat
  exact ⟨_, hne, hdigits, hvalue, Or.inl rfl⟩

theorem isDelimiter_of_digit {c : Char} (h : Text.isDigit c = true) : isDelimiter c = false := by
  obtain ⟨hlow, hhigh⟩ := Text.toNat_of_isDigit h
  have hother : ∀ d, Text.isDigit d = false → (c == d) = false := fun _ hd =>
    Text.beq_of_isDigit h hd
  have hblank : Text.isBlank c = false := by
    simp [Text.isBlank]
    omega
  simp only [isDelimiter, isSeparator, hblank, hother ';' rfl, hother ',' rfl, hother '\x7b' rfl,
    hother '\x7d' rfl, hother '#' rfl, Bool.or_false]

theorem isWord_toString (n : Nat) : IsWord (toString n) := by
  obtain ⟨hne, hdigits, _⟩ := Text.digits_toString n
  exact ⟨hne, fun c hc => isDelimiter_of_digit (hdigits c hc)⟩

theorem spells_spelled : ∀ p ∈ spellings, Spells p.1 p.1 := by
  unfold Spells
  decide +kernel

theorem isWord_spelled : ∀ p ∈ spellings, IsWord p.1 := by
  have hall : ∀ p ∈ spellings, isWord p.1 = true := by decide +kernel
  exact fun p hp => isWord_eq_true.mp (hall p hp)

theorem spells_repeat : Spells "repeat" "repeat" := by
  unfold Spells
  decide +kernel

theorem isWord_repeat : IsWord "repeat" := isWord_eq_true.mp (by decide +kernel)

/-- The names in the grammar are written in small letters. -/
theorem derives_name {name : String} {b : Block} (h : (name, b) ∈ spellings) :
    Derives [.word name] b := .simple h (spells_spelled _ h)

mutual

theorem derives_spell : (b : Block) → Derives (spell b) b
  | .start | .move | .turnLeft | .turnRight | .collect => derives_name (by simp [spellings])
  | .repeated times body =>
    .repeats spells_repeat (counts_toString times) (derives_spellAll body)

theorem derives_spellAll : (bs : List Block) → DerivesAll (spellAll bs) bs
  | [] => .nil
  | b :: rest => .cons (derives_spell b) (derives_spellAll rest)

end

theorem isWritable_name {name : String} (h : name ∈ spellings.map Prod.fst) :
    ∀ s ∈ [Symbol.word name], s.IsWritable := by
  obtain ⟨p, hp, rfl⟩ := List.mem_map.mp h
  intro s hs
  rw [List.mem_singleton.mp hs]
  exact isWord_spelled p hp

mutual

theorem isWritable_spell : (b : Block) → ∀ s ∈ spell b, s.IsWritable
  | .start | .move | .turnLeft | .turnRight | .collect => isWritable_name (by simp [spellings])
  | .repeated times body => by
    have hbody := isWritable_spellAll body
    intro s hs
    simp only [spell, List.mem_cons, List.mem_append, List.not_mem_nil, or_false] at hs
    rcases hs with rfl | rfl | rfl | hs | rfl
    · exact isWord_repeat
    · exact isWord_toString _
    · trivial
    · exact hbody s hs
    · trivial

theorem isWritable_spellAll : (bs : List Block) → ∀ s ∈ spellAll bs, s.IsWritable
  | [] => by simp [spellAll]
  | b :: rest => List.forall_mem_append.mpr ⟨isWritable_spell b, isWritable_spellAll rest⟩

end

theorem parse_eq_ok {text : String} {p : Program} :
    parse text = .ok p ↔ blocks (tokens text.toList) = .ok p.blocks := by
  unfold parse
  cases blocks (tokens text.toList) with
  | error e => simp [Except.map]
  | ok bs =>
    obtain ⟨own⟩ := p
    simp [Except.map]

/-- What is accepted is what the grammar derives without too deep a repeat, and every such program
has a text. -/
theorem parse_accepts_grammar :
    (∀ text bs, parse text = .ok ⟨bs⟩ ↔
      DerivesAll ((tokens text.toList).map Token.symbol) bs ∧ Block.areShallow 0 bs = true) ∧
      ∀ p : Program, (∃ text, parse text = .ok p) ↔ Block.areShallow 0 p.blocks = true := by
  constructor
  · intro text bs
    rw [parse_eq_ok, blocks_eq_ok]
  · intro p
    constructor
    · rintro ⟨text, h⟩
      exact (blocks_eq_ok.mp (parse_eq_ok.mp h)).2
    · intro hshallow
      refine ⟨String.ofList (written (spellAll p.blocks)), ?_⟩
      rw [parse_eq_ok, blocks_eq_ok, String.toList_ofList, symbols_written (isWritable_spellAll _)]
      exact ⟨derives_spellAll p.blocks, hshallow⟩

end RocketPuzzle.Script
