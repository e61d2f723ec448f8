import Mathlib.Control.Monad.Basic
import RocketPuzzle.CommandLine
import RocketPuzzle.Proofs.Payload
import RocketPuzzle.Proofs.Spelling

/-! # What can be shared

A code is read back, with blanks around it or without, exactly when no block of its program stands
inside more than 61 repeats. All that is read from a code nests so, whatever form its payload has.
Scripts and programs in the exchange format may nest deeper, and such programs get codes all the
same.
-/
namespace RocketPuzzle

/-! ## Repeats one inside another -/

namespace Block

/-- A move inside `n` repeats. -/
def tower : Nat → Block
  | 0 => .move
  | n + 1 => .repeated 1 [tower n]

theorem height_tower (n : Nat) : (tower n).height = n + 1 := by
  induction n with
  | zero => rfl
  | succ n ih => simp [tower, height, heightAll, ih, Nat.add_comm]

theorem isShallow_tower {n around : Nat} (h : around + n ≤ Program.maxDepth) :
    (tower n).isShallow around = true := by
  induction n generalizing around with
  | zero => rfl
  | succ n ih =>
    have hroom : around < Program.maxDepth := by omega
    have hbody : (tower n).isShallow (around + 1) = true := ih (by omega)
    simp [tower, isShallow, areShallow, hroom, hbody]

theorem isSound_tower {n room : Nat} (h : 2 * n + 1 ≤ room) :
    (tower n).datum.isSound room = true := by
  induction n generalizing room with
  | zero =>
    have hroom : 0 < room := h
    simp [tower, datum, Datum.isSound, Datum.haveSound, hroom]
  | succ n ih =>
    have hbody : (tower n).datum.isSound (room - 1 - 1) = true := ih (by omega)
    have htable : 0 < room := by omega
    have hlist : 0 < room - 1 := by omega
    simp [tower, datum, dataOf, Datum.isSound, Datum.areSound, Datum.haveSound, htable, hlist,
      hbody]

end Block

theorem Program.nestsWithin_tower {limit n : Nat} :
    (⟨[.tower n]⟩ : Program).NestsWithin limit ↔ n ≤ limit := by
  simp [Program.nestsWithin_iff, Block.heightAll, Block.height_tower]

/-! ## Blanks and colons -/

namespace Text

theorem dropWhile_isBlank {text : List Char} (h : ∀ c ∈ text, isBlank c = false) :
    text.dropWhile isBlank = text := by
  cases text with
  | nil => rfl
  | cons c rest => simp [h c (List.mem_cons_self ..)]

/-- Blanks around a text without blanks are what trimming takes away. -/
theorem trim_padded {before text after : List Char} (hbefore : ∀ c ∈ before, isBlank c = true)
    (hafter : ∀ c ∈ after, isBlank c = true) (hne : text ≠ [])
    (htext : ∀ c ∈ text, isBlank c = false) : trim (before ++ text ++ after) = text := by
  have hend : ∀ c ∈ after.reverse, isBlank c = true := fun c hc => hafter c (List.mem_reverse.mp hc)
  have hback : ∀ c ∈ text.reverse, isBlank c = false := fun c hc =>
    htext c (List.mem_reverse.mp hc)
  have hstart : (text ++ after).dropWhile isBlank = text ++ after := by
    simp [List.dropWhile_append, dropWhile_isBlank htext, hne]
  rw [trim, List.append_assoc, List.dropWhile_append_of_pos hbefore, hstart, List.reverse_append,
    List.dropWhile_append_of_pos hend, dropWhile_isBlank hback, List.reverse_reverse]

theorem Base64.isBlank_digit {n : Nat} (h : n < 64) : isBlank (Base64.digit n) = false := by
  have hall : ∀ k : Fin 64, isBlank (Base64.digit k) = false := by decide
  exact hall ⟨n, h⟩

theorem Base64.isBlank_encode (bytes : List UInt8) :
    ∀ c ∈ Base64.encode bytes, isBlank c = false := by
  intro c hc
  obtain ⟨n, hn, rfl⟩ := List.mem_map.mp hc
  exact isBlank_digit (sextets_lt bytes n hn)

end Text

/-! ## Codes -/

namespace ShareCode

theorem cut_append {first rest : List Char} (h : ∀ c ∈ first, c ≠ ':') :
    cut (first ++ ':' :: rest) = (first, some rest) := by
  have hpart : ∀ c ∈ first, decide (c ≠ ':') = true := fun c hc => decide_eq_true (h c hc)
  rw [cut, List.takeWhile_append_of_pos hpart, List.dropWhile_append_of_pos hpart]
  simp

/-- A code with the right header is read as its payload is. -/
theorem decode_of_trim {code : String} {body : List Char}
    (h : Text.trim code.toList = domain.toList ++ ':' :: (version.toList ++ ':' :: body)) :
    decode code = ofPayload body := by
  have hdomain : ∀ c ∈ domain.toList, c ≠ ':' := List.all_iff_forall_prop.mp (by decide)
  have hversion : ∀ c ∈ version.toList, c ≠ ':' := List.all_iff_forall_prop.mp (by decide)
  unfold decode
  rw [h]
  split
  · next hempty => simp at hempty
  · rw [cut_append hdomain]
    dsimp only
    rw [cut_append hversion]
    simp only [String.ofList_toList, ne_eq, not_true_eq_false, if_false]

theorem toList_encode (s : SharedProgram) : (encode s).toList =
    domain.toList ++ ':' :: (version.toList ++ ':' :: Text.Base64.encode (payload s)) := by
  simp [encode, header]

/-- Blanks around a code are not part of it. -/
theorem decode_padded {before after : String}
    (hbefore : ∀ c ∈ before.toList, Text.isBlank c = true)
    (hafter : ∀ c ∈ after.toList, Text.isBlank c = true) (s : SharedProgram) :
    decode (before ++ encode s ++ after) = ofPayload (Text.Base64.encode (payload s)) := by
  have hheader : ∀ c ∈ domain.toList ++ ':' :: (version.toList ++ [':']),
      Text.isBlank c = false := List.all_iff_forall_prop.mp (by decide)
  have hcode : ∀ c ∈ (encode s).toList, Text.isBlank c = false := by
    intro c hc
    have hsplit : (encode s).toList = (domain.toList ++ ':' :: (version.toList ++ [':'])) ++
        Text.Base64.encode (payload s) := by simp [toList_encode]
    rw [hsplit] at hc
    rcases List.mem_append.mp hc with hc | hc
    · exact hheader c hc
    · exact Text.Base64.isBlank_encode _ c hc
  have hne : (encode s).toList ≠ [] := by simp [toList_encode]
  apply decode_of_trim
  rw [String.toList_append, String.toList_append, Text.trim_padded hbefore hafter hne hcode,
    toList_encode]

theorem decode_encode (s : SharedProgram) :
    decode (encode s) = if s.program.NestsWithin 61 then .ok s else .error .invalidPayload := by
  have hread : decode ("" ++ encode s ++ "") = ofPayload (Text.Base64.encode (payload s)) :=
    decode_padded (by simp) (by simp) s
  rw [String.empty_append, String.append_empty] at hread
  rw [hread, ofPayload_payload]

theorem exists_of_decode {code : String} {s : SharedProgram} (h : decode code = .ok s) :
    ∃ body, ofPayload body = .ok s := by
  unfold decode at h
  split at h
  · cases h
  · split at h
    · cases h
    · split at h
      · cases h
      · split at h
        · cases h
        · split at h
          · cases h
          · exact ⟨_, h⟩

/-- With blanks around it or without, a code is read back unless its program nests too deep. -/
theorem decode_encode_padded {before after : String}
    (hbefore : ∀ c ∈ before.toList, Text.isBlank c = true)
    (hafter : ∀ c ∈ after.toList, Text.isBlank c = true) (s : SharedProgram) :
    decode (before ++ encode s ++ after) =
      if s.program.NestsWithin 61 then .ok s else .error .invalidPayload := by
  rw [decode_padded hbefore hafter, ofPayload_payload]

theorem decode_encode_padded_tower :
    (∀ c ∈ "  ".toList, Text.isBlank c = true) ∧ (∀ c ∈ "\u00a0\n".toList, Text.isBlank c = true) ∧
      decode ("  " ++ encode ⟨some 5, ⟨[.tower 61]⟩⟩ ++ "\u00a0\n") = .ok ⟨some 5, ⟨[.tower 61]⟩⟩ ∧
      decode ("  " ++ encode ⟨some 5, ⟨[.tower 62]⟩⟩ ++ "\u00a0\n") = .error .invalidPayload := by
  have hbefore : ∀ c ∈ "  ".toList, Text.isBlank c = true := List.all_eq_true.mp (by decide)
  have hafter : ∀ c ∈ "\u00a0\n".toList, Text.isBlank c = true := List.all_eq_true.mp (by decide)
  have hlow : (⟨[.tower 61]⟩ : Program).NestsWithin 61 :=
    Program.nestsWithin_tower.mpr (by decide)
  have hhigh : ¬ (⟨[.tower 62]⟩ : Program).NestsWithin 61 :=
    mt Program.nestsWithin_tower.mp (by decide)
  refine ⟨hbefore, hafter, ?_, ?_⟩
  · rw [decode_encode_padded hbefore hafter, if_pos hlow]
  · rw [decode_encode_padded hbefore hafter, if_neg hhigh]

/-- What was read from a code can be shared again, with any level. -/
theorem decode_encode_decoded {code : String} {s : SharedProgram} (h : decode code = .ok s)
    (level : Option UInt32) : decode (encode { s with level }) = .ok { s with level } := by
  obtain ⟨body, hbody⟩ := exists_of_decode h
  have hnests : s.program.NestsWithin 61 := nestsWithin_of_ofPayload hbody
  rw [decode_encode, if_pos hnests]

/-- The payload is `{"x":[1], "program" : [[["repeat", 2]]] }`, a repeat without a body. -/
theorem decode_encode_decoded_list :
    let s : SharedProgram := ⟨none, ⟨[.repeated 2 []]⟩⟩
    decode "kru:v1:eyJ4IjpbMV0sICJwcm9ncmFtIiA6IFtbWyJyZXBlYXQiLCAyXV1dIH0" = .ok s ∧
      decode (encode { s with level := some 7 }) = .ok { s with level := some 7 } := by
  intro s
  have hread : decode "kru:v1:eyJ4IjpbMV0sICJwcm9ncmFtIiA6IFtbWyJyZXBlYXQiLCAyXV1dIH0" = .ok s := by
    decide +kernel
  exact ⟨hread, decode_encode_decoded hread (some 7)⟩

end ShareCode

/-! ## Programs that are accepted -/

namespace Block

mutual

theorem height_of_isShallow : (b : Block) → {around : Nat} → around ≤ Program.maxDepth →
    b.isShallow around = true → around + b.height ≤ Program.maxDepth + 1
  | .repeated times body, around, _, h => by
    obtain ⟨hroom, hbody⟩ : around < Program.maxDepth ∧ areShallow (around + 1) body = true := by
      simpa [isShallow] using h
    have hle := heightAll_of_areShallow body hroom hbody
    rw [height]
    omega
  | .start, _, h, _ | .move, _, h, _ | .turnLeft, _, h, _ | .turnRight, _, h, _
  | .collect, _, h, _ => Nat.succ_le_succ h

theorem heightAll_of_areShallow : (bs : List Block) → {around : Nat} →
    around ≤ Program.maxDepth → areShallow around bs = true →
    around + heightAll bs ≤ Program.maxDepth + 1
  | [], _, h, _ => Nat.le_succ_of_le h
  | b :: rest, around, hroom, h => by
    obtain ⟨hb, hrest⟩ : b.isShallow around = true ∧ areShallow around rest = true := by
      simpa [areShallow] using h
    have hfirst := height_of_isShallow b hroom hb
    have hothers := heightAll_of_areShallow rest hroom hrest
    rw [heightAll]
    omega

end

end Block

theorem Program.nestsWithin_of_parse {text : String} {p : Program}
    (h : Script.parse text = .ok p) : p.NestsWithin 64 := by
  have hshallow := (Script.blocks_eq_ok.mp (Script.parse_eq_ok.mp h)).2
  have hle := Block.heightAll_of_areShallow p.blocks (Nat.zero_le _) hshallow
  have hdepth : Program.maxDepth = 64 := rfl
  rw [Program.nestsWithin_iff]
  omega

theorem Program.nestsWithin_of_ofJson {text : String} {p : Program}
    (h : Program.ofJson text = .ok p) : p.NestsWithin 62 := by
  unfold Program.ofJson at h
  split at h
  · next hvalue =>
    cases h
    obtain ⟨d, _, hd⟩ := Option.bind_eq_some_iff.mp hvalue
    have hle := Program.height_of_decode hd
    have hroom : Json.place.room = 127 := rfl
    rw [Program.nestsWithin_iff]
    omega
  · cases h

theorem Script.parse_tower {n : Nat} (h : n ≤ Program.maxDepth) :
    parse (String.ofList (written (spellAll [.tower n]))) = .ok ⟨[.tower n]⟩ := by
  have htower : (Block.tower n).isShallow 0 = true := Block.isShallow_tower (by omega)
  have hshallow : Block.areShallow 0 [.tower n] = true := by simp [Block.areShallow, htower]
  rw [parse_eq_ok, blocks_eq_ok, String.toList_ofList, symbols_written (isWritable_spellAll _)]
  exact ⟨derives_spellAll _, hshallow⟩

theorem Program.ofJson_tower {n : Nat} (h : n ≤ 62) :
    Program.ofJson (String.ofList (Json.write (Program.datum ⟨[.tower n]⟩))) =
      .ok ⟨[.tower n]⟩ := by
  let p : Program := ⟨[.tower n]⟩
  have hroom : Json.place.room = 125 + 2 := rfl
  have hsound : (Block.tower n).datum.isSound 125 = true := Block.isSound_tower (by omega)
  have hblock : Block.decode ⟨Json.dialect, 125⟩ (Block.tower n).datum = some (.tower n) := by
    rw [Block.decode, if_pos hsound, Block.ofDatum?_datum]
  have hdecode : Program.decode Json.place p.datum = some p := by
    rw [Program.decode_eq_mapM hroom]
    simp [p, Block.dataOf, Json.place, hblock]
  have hvalue : Json.ofText? Program.decode (String.ofList (Json.write p.datum)) = some p := by
    rw [Json.ofText?, Json.decode?, String.toList_ofList, Json.read?_write p.hasForm_datum]
    exact hdecode
  simp only [Program.ofJson, p, hvalue]

namespace ShareCode

/-- A program that was accepted may nest deeper than its code can be read back from. The command
line prints that code, and reads it back where no block stands inside more than 61 repeats. -/
theorem accepted_read_back {text : String} {p : Program}
    (h : Script.parse text = .ok p ∨ Program.ofJson text = .ok p) (level : Option UInt32) :
    p.NestsWithin 64 ∧
    decode (encode ⟨level, p⟩) =
      (if p.NestsWithin 61 then .ok ⟨level, p⟩ else .error .invalidPayload) ∧
    ∀ files,
      (∀ input, CommandLine.program files input = .ok ⟨none, p⟩ →
        CommandLine.share files input level =
          .ok { emitted := [CommandLine.announce (encode ⟨level, p⟩)] }) ∧
      CommandLine.program files (.code (encode ⟨level, p⟩)) =
        if p.NestsWithin 61 then .ok ⟨level, p⟩ else .error "decoding share code" := by
  have hread : decode (encode ⟨level, p⟩) =
      if p.NestsWithin 61 then .ok ⟨level, p⟩ else .error .invalidPayload := decode_encode _
  refine ⟨?_, hread, ?_⟩
  · rcases h with hscript | hjson
    · exact Program.nestsWithin_of_parse hscript
    · intro n b hb
      exact Nat.le_trans (Program.nestsWithin_of_ofJson hjson n b hb) (by decide)
  · intro files
    constructor
    · intro input hinput
      rw [CommandLine.share, hinput]
      simp [bind, Except.bind, pure, Except.pure]
    · rw [CommandLine.program, hread]
      by_cases hnests : p.NestsWithin 61
      · simp only [hnests, if_true]
      · simp only [hnests, if_false]

theorem accepted_read_back_tower :
    let p : Program := ⟨[.tower 61]⟩
    Script.parse (String.ofList (Script.written (Script.spellAll p.blocks))) = .ok p ∧
      Program.ofJson (String.ofList (Json.write p.datum)) = .ok p ∧
      decode (encode ⟨some 5, p⟩) = .ok ⟨some 5, p⟩ ∧
      decode (encode ⟨none, p⟩) = .ok ⟨none, p⟩ := by
  intro p
  have hscript := Script.parse_tower (n := 61) (by decide)
  have hjson := Program.ofJson_tower (n := 61) (by decide)
  have hnests : p.NestsWithin 61 := Program.nestsWithin_tower.mpr (by decide)
  have hsome := (accepted_read_back (.inl hscript) (some 5)).2.1
  have hnone := (accepted_read_back (.inr hjson) none).2.1
  rw [if_pos hnests] at hsome hnone
  exact ⟨hscript, hjson, hsome, hnone⟩

/-- One repeat more is accepted, and the code it gets is not. -/
theorem tower_not_read_back :
    let p : Program := ⟨[.tower 62]⟩
    Script.parse (String.ofList (Script.written (Script.spellAll p.blocks))) = .ok p ∧
      Program.ofJson (String.ofList (Json.write p.datum)) = .ok p ∧
      decode (encode ⟨none, p⟩) = .error .invalidPayload := by
  intro p
  have hnests : ¬ p.NestsWithin 61 := mt Program.nestsWithin_tower.mp (by decide)
  refine ⟨Script.parse_tower (by decide), Program.ofJson_tower (by decide), ?_⟩
  rw [decode_encode, if_neg hnests]

end ShareCode

end RocketPuzzle
