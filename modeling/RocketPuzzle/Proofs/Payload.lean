import Mathlib.Data.Bool.AllAny
import RocketPuzzle.ShareCode
import RocketPuzzle.Proofs.JsonReading
import RocketPuzzle.Proofs.Nesting

/-! # The payload of a share code

A program is written without a character outside ASCII, so that its text and the bytes of its text
are the same thing. What is left to decide whether a payload is read back is how deep it nests.
-/
namespace RocketPuzzle

def IsAscii (c : Char) : Prop := c.toNat < 0x80

instance (c : Char) : Decidable (IsAscii c) := inferInstanceAs (Decidable (_ < _))

/-! ## Written data in ASCII -/

namespace Json

theorem isAscii_hexDigit {n : Nat} (h : n < 16) : IsAscii (hexDigit n) := by
  have hall : ∀ k : Fin 16, (hexDigit k).toNat < 0x80 := by decide
  exact hall ⟨n, h⟩

theorem isAscii_escape {c : Char} (h : IsAscii c) : ∀ d ∈ escape c, IsAscii d := by
  have hslash : IsAscii '\\' := by decide
  have hway := escapes_escape c
  generalize escape c = cs at hway
  cases hway with
  | @letter d hd _ =>
    have hall : ∀ d ∈ ['"', '\\', 'b', 'f', 'n', 'r', 't'], IsAscii d :=
      List.all_iff_forall_prop.mp (by decide)
    exact List.forall_mem_cons.mpr ⟨hslash, List.forall_mem_singleton.mpr (hall d hd)⟩
  | code hlow =>
    have hhigh : IsAscii (hexDigit (c.toNat / 16)) := isAscii_hexDigit (by omega)
    have hunit : IsAscii (hexDigit (c.toNat % 16)) :=
      isAscii_hexDigit (Nat.mod_lt _ (by decide))
    simp only [List.forall_mem_cons]
    exact ⟨hslash, by decide, by decide, by decide, hhigh, hunit, nofun⟩
  | plain => exact List.forall_mem_singleton.mpr h

theorem isAscii_quote {s : String} (h : ∀ c ∈ s.toList, IsAscii c) : ∀ c ∈ quote s, IsAscii c := by
  have hmark : IsAscii '"' := by decide
  have htext : ∀ c ∈ s.toList.flatMap escape, IsAscii c := by
    intro d hd
    obtain ⟨c, hc, hd⟩ := List.mem_flatMap.mp hd
    exact isAscii_escape (h c hc) d hd
  exact List.forall_mem_append.mpr
    ⟨List.forall_mem_cons.mpr ⟨hmark, htext⟩, List.forall_mem_singleton.mpr hmark⟩

theorem isAscii_digit {c : Char} (h : Text.isDigit c = true) : IsAscii c :=
  Nat.lt_of_le_of_lt (Text.toNat_of_isDigit h).2 (by decide)

mutual

theorem isAscii_write : (d : Datum) → d.HasForm IsAscii → ∀ c ∈ write d, IsAscii c
  | .null, _ => List.all_iff_forall_prop.mp (by decide)
  | .natural n, _ => fun c hc => isAscii_digit ((Text.digits_toString n).2.1 c hc)
  | .text _, h => isAscii_quote h
  | .list items, h => by
    have hwritten : write (.list items) = '[' :: writeItems items ++ [']'] := rfl
    rw [hwritten, List.forall_mem_append, List.forall_mem_cons, List.forall_mem_singleton]
    exact ⟨⟨by decide, isAscii_writeItems items h⟩, by decide⟩
  | .table fields, h => by
    have hwritten : write (.table fields) = '\x7b' :: writeFields fields ++ ['\x7d'] := rfl
    rw [hwritten, List.forall_mem_append, List.forall_mem_cons, List.forall_mem_singleton]
    exact ⟨⟨by decide, isAscii_writeFields fields h⟩, by decide⟩

theorem isAscii_writeItems : (items : List Datum) → Datum.HaveForm IsAscii items →
    ∀ c ∈ writeItems items, IsAscii c
  | [], _ => nofun
  | [d], h => isAscii_write d h.1
  | d :: e :: rest, h => by
    simp only [writeItems, List.forall_mem_append, List.forall_mem_cons]
    exact ⟨isAscii_write d h.1, by decide, isAscii_writeItems (e :: rest) h.2⟩

theorem isAscii_writeFields : (fields : List (Option String × Datum)) →
    Datum.FieldsHaveForm IsAscii fields → ∀ c ∈ writeFields fields, IsAscii c
  | [], _ => nofun
  | [(name, d)], h => by
    obtain ⟨⟨n, rfl, hn⟩, hd, _⟩ := h
    rw [writeFields, List.forall_mem_append, List.forall_mem_cons]
    exact ⟨isAscii_quote hn, by decide, isAscii_write d hd⟩
  | (name, d) :: e :: rest, h => by
    obtain ⟨⟨n, rfl, hn⟩, hd, hrest⟩ := h
    simp only [writeFields, List.forall_mem_append, List.forall_mem_cons]
    exact ⟨⟨isAscii_quote hn, by decide, isAscii_write d hd⟩, by decide,
      isAscii_writeFields (e :: rest) hrest⟩

end

end Json

/-! ## The data of programs -/

theorem isAscii_kindName (k : BlockKind) : ∀ c ∈ k.name.toList, IsAscii c := by
  have hall : ∀ k : BlockKind, k.name.toList.all (fun c => IsAscii c) = true := by
    intro k
    cases k <;> decide
  exact List.all_iff_forall_prop.mp (hall k)

/-- What the fields of programs are called. -/
theorem isAscii_fieldName {name : String}
    (h : name ∈ ["level", "program", "blocks", "type", "times", "body"]) :
    ∃ s, some name = some s ∧ ∀ c ∈ s.toList, IsAscii c := by
  have hall : ∀ s ∈ ["level", "program", "blocks", "type", "times", "body"],
      s.toList.all (fun c => IsAscii c) = true := by decide
  exact ⟨name, rfl, List.all_iff_forall_prop.mp (hall name h)⟩

theorem word32_hasForm {allowed : Char → Prop} (n : UInt32) :
    (Datum.natural n.toNat).HasForm allowed :=
  Nat.lt_trans n.toNat_lt (by decide)

namespace Block

mutual

theorem hasForm_datum : (b : Block) → b.datum.HasForm IsAscii
  | .repeated times body =>
    ⟨isAscii_fieldName (by decide), isAscii_kindName _, isAscii_fieldName (by decide),
      word32_hasForm times, isAscii_fieldName (by decide), haveForm_dataOf body, trivial⟩
  | .start | .move | .turnLeft | .turnRight | .collect =>
    ⟨isAscii_fieldName (by decide), isAscii_kindName _, trivial⟩

theorem haveForm_dataOf : (bs : List Block) → Datum.HaveForm IsAscii (dataOf bs)
  | [] => trivial
  | b :: rest => ⟨hasForm_datum b, haveForm_dataOf rest⟩

end

end Block

theorem Program.hasForm_datum (p : Program) : p.datum.HasForm IsAscii :=
  ⟨isAscii_fieldName (by decide), Block.haveForm_dataOf _, trivial⟩

namespace SharedProgram

theorem hasForm_datum (s : SharedProgram) : s.datum.HasForm IsAscii := by
  have hlevel : (s.level.elim Datum.null fun n => .natural n.toNat).HasForm IsAscii := by
    cases s.level with
    | none => trivial
    | some n => exact word32_hasForm n
  exact ⟨isAscii_fieldName (by decide), hlevel, isAscii_fieldName (by decide),
    s.program.hasForm_datum, trivial⟩

/-- A shared program is read back where there is room for it. -/
theorem decode_datum {p : Place} {n : Nat} (room : p.room = 2 * n + 3) (s : SharedProgram) :
    decode p s.datum = if Block.heightAll s.program.blocks ≤ n then some s else none := by
  obtain ⟨dialect, _⟩ := p
  subst room
  let level : Datum := s.level.elim .null fun n => .natural n.toNat
  have hread : Record.read fieldNames ⟨dialect, 2 * n + 3⟩ s.datum =
      some ⟨⟨dialect, 2 * n + 2⟩, [("level", level), ("program", s.program.datum)]⟩ := by
    simp [Record.read, datum, Decoder.inside, Record.known?, fieldNames, level]
  have hlevel : Decoder.nullable Decoder.word32 ⟨dialect, 2 * n + 2⟩ level = some s.level := by
    cases hs : s.level with
    | none => simp only [level, hs]; rfl
    | some n =>
      have hword : Text.word32? n.toNat = some n := Text.word32?_eq_some.mpr rfl
      simp only [level, hs]
      change (Text.word32? n.toNat).map some = _
      rw [hword]
      rfl
  have hprogram := Program.decode_datum (p := ⟨dialect, 2 * n + 2⟩) rfl s.program
  have hlevels : Record.optional ⟨⟨dialect, 2 * n + 2⟩,
      [("level", level), ("program", s.program.datum)]⟩ "level" none
        (Decoder.nullable Decoder.word32) = some s.level := by
    simpa [Record.optional] using hlevel
  have hprograms : Record.required ⟨⟨dialect, 2 * n + 2⟩,
      [("level", level), ("program", s.program.datum)]⟩ "program" Program.decode =
        if Block.heightAll s.program.blocks ≤ n then some s.program else none := by
    have hfield : [("level", level), ("program", s.program.datum)].lookup "program" =
        some s.program.datum := rfl
    simpa only [Record.required, hfield, Option.bind_eq_bind, Option.bind_some] using hprogram
  simp only [decode, hread, Option.bind_eq_bind, Option.bind_some, hlevels, hprograms]
  split <;> rfl

theorem height_of_decode {p : Place} {d : Datum} {s : SharedProgram} (h : decode p d = some s) :
    2 * Block.heightAll s.program.blocks + 2 ≤ p.room := by
  obtain ⟨r, hr, h⟩ := Option.bind_eq_some_iff.mp h
  obtain ⟨level, _, h⟩ := Option.bind_eq_some_iff.mp h
  obtain ⟨program, hprogram, h⟩ := Option.bind_eq_some_iff.mp h
  cases h
  have hroom := Record.room_of_read hr
  obtain ⟨d, hd⟩ := Record.exists_of_required hprogram
  have hle := Program.height_of_decode hd
  dsimp only
  omega

end SharedProgram

namespace ShareCode

theorem pieces_cons {a : UInt8} (h : a < 0x80) (rest : List UInt8) :
    Text.pieces (a :: rest) = .char (Char.ofNat a.toNat) :: Text.pieces rest := by
  rw [Text.pieces.eq_def]
  exact if_pos h

theorem pieces_asciiBytes {cs : List Char} (h : ∀ c ∈ cs, IsAscii c) :
    Text.pieces (asciiBytes cs) = Text.ofChars cs := by
  induction cs with
  | nil => rfl
  | cons c rest ih =>
    obtain ⟨hc, hrest⟩ := List.forall_mem_cons.mp h
    have hvalue : (UInt8.ofNat c.toNat).toNat = c.toNat :=
      UInt8.toNat_ofNat_of_lt' (Nat.lt_trans hc (by decide))
    have hbyte : UInt8.ofNat c.toNat < 0x80 := by
      rw [UInt8.lt_iff_toNat_lt, hvalue]
      exact hc
    change Text.pieces (UInt8.ofNat c.toNat :: asciiBytes rest) = .char c :: Text.ofChars rest
    rw [pieces_cons hbyte, hvalue, Char.ofNat_toNat, ih hrest]

/-- A payload is read back unless it nests too deep, and nothing else can be wrong with it. -/
theorem ofPayload_payload (s : SharedProgram) :
    ofPayload (Text.Base64.encode (payload s)) =
      if s.program.NestsWithin 61 then .ok s else .error .invalidPayload := by
  have hform := s.hasForm_datum
  have hpieces : Text.pieces (payload s) = Text.ofChars (Json.write s.datum) :=
    pieces_asciiBytes (Json.isAscii_write _ hform)
  have hroom : Json.place.room = 2 * 62 + 3 := rfl
  have hvalue : Json.decode? SharedProgram.decode (Text.pieces (payload s)) =
      if s.program.NestsWithin 61 then some s else none := by
    rw [Json.decode?, hpieces, Json.read?_write hform]
    change SharedProgram.decode Json.place s.datum = _
    rw [SharedProgram.decode_datum hroom]
    simp only [Program.nestsWithin_iff]
  rw [ofPayload, Text.Base64.decode?_encode]
  dsimp only
  rw [hvalue]
  by_cases hnests : s.program.NestsWithin 61
  · simp only [hnests, if_true]
  · simp only [hnests, if_false]

/-- Whatever form a payload has, the program in it nests no deeper than one that can be shared. -/
theorem nestsWithin_of_ofPayload {text : List Char} {s : SharedProgram}
    (h : ofPayload text = .ok s) : s.program.NestsWithin 61 := by
  unfold ofPayload at h
  split at h
  · cases h
  · split at h
    · cases h
    · next hvalue =>
      cases h
      obtain ⟨d, _, hd⟩ := Option.bind_eq_some_iff.mp hvalue
      have hle := SharedProgram.height_of_decode hd
      have hroom : Json.place.room = 127 := rfl
      rw [Program.nestsWithin_iff]
      omega

end ShareCode

end RocketPuzzle
