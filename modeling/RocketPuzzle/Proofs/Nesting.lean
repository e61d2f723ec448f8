import RocketPuzzle.Codec.Program
import RocketPuzzle.Proofs.Numeral

/-! # Programs inside data

A repeat costs a program two levels of nesting, one for the table of a block and one for the list
that it stands in. The last block may save one of them by leaving out an empty body. Both bounds
are the same where the room that is left for blocks is even.
-/
namespace RocketPuzzle

namespace Block

mutual

/-- The most blocks of a tree that stand one inside another. -/
def height : Block → Nat
  | repeated _ body => 1 + heightAll body
  | _ => 1

def heightAll : List Block → Nat
  | [] => 0
  | b :: rest => max b.height (heightAll rest)

end

/-- `StandsIn bs n b`: the block `b` stands inside `n` repeats of the row `bs`. -/
inductive StandsIn : List Block → Nat → Block → Prop where
  | placed {bs b} : b ∈ bs → StandsIn bs 0 b
  | inside {bs times body n b} :
      .repeated times body ∈ bs → StandsIn body n b → StandsIn bs (n + 1) b

variable {b : Block} {bs : List Block} {n : Nat}

theorem one_le_height (b : Block) : 1 ≤ b.height := by
  cases b with
  | repeated => exact Nat.le_add_right ..
  | _ => exact Nat.le_refl 1

theorem height_le_heightAll (h : b ∈ bs) : b.height ≤ heightAll bs := by
  induction bs with
  | nil => cases h
  | cons c rest ih =>
    rw [heightAll]
    rcases List.mem_cons.mp h with rfl | h
    · exact Nat.le_max_left ..
    · exact Nat.le_trans (ih h) (Nat.le_max_right ..)

theorem StandsIn.lt_heightAll (h : StandsIn bs n b) : n < heightAll bs := by
  induction h with
  | @placed bs b hb => exact Nat.lt_of_lt_of_le (one_le_height b) (height_le_heightAll hb)
  | @inside bs times body n b hb _ ih =>
    have hle := height_le_heightAll hb
    rw [height] at hle
    omega

theorem StandsIn.cons (h : StandsIn bs n b) (c : Block) : StandsIn (c :: bs) n b := by
  cases h with
  | placed hb => exact .placed (List.mem_cons_of_mem _ hb)
  | inside hb h => exact .inside (List.mem_cons_of_mem _ hb) h

mutual

theorem exists_standsIn : (b : Block) → (rest : List Block) → {n : Nat} → n < b.height →
    ∃ c, StandsIn (b :: rest) n c
  | b, rest, 0, _ => ⟨b, .placed (List.mem_cons_self ..)⟩
  | .repeated times body, rest, n + 1, h => by
    rw [height] at h
    obtain ⟨c, hc⟩ := exists_standsIn_all body (n := n) (by omega)
    exact ⟨c, .inside (List.mem_cons_self ..) hc⟩
  | .start, _, n + 1, h | .move, _, n + 1, h | .turnLeft, _, n + 1, h
  | .turnRight, _, n + 1, h | .collect, _, n + 1, h => by simp [height] at h

/-- Where a block stands deepest, others stand around it at every depth. -/
theorem exists_standsIn_all : (bs : List Block) → {n : Nat} → n < heightAll bs →
    ∃ c, StandsIn bs n c
  | [], _, h => absurd h (Nat.not_lt_zero _)
  | b :: rest, n, h => by
    by_cases hb : n < b.height
    · exact exists_standsIn b rest hb
    · rw [heightAll] at h
      obtain ⟨c, hc⟩ := exists_standsIn_all rest (n := n) (by omega)
      exact ⟨c, hc.cons b⟩

end

end Block

namespace Program

/-- Every block of the program stands inside at most `limit` repeats. -/
def NestsWithin (limit : Nat) (p : Program) : Prop :=
  ∀ n b, Block.StandsIn p.blocks n b → n ≤ limit

theorem nestsWithin_iff {limit : Nat} {p : Program} :
    p.NestsWithin limit ↔ Block.heightAll p.blocks ≤ limit + 1 := by
  constructor
  · intro h
    by_cases hle : Block.heightAll p.blocks ≤ limit + 1
    · exact hle
    · obtain ⟨b, hb⟩ := Block.exists_standsIn_all p.blocks (n := limit + 1) (by omega)
      have := h _ b hb
      omega
  · intro h n b hb
    have := hb.lt_heightAll
    omega

instance (limit : Nat) (p : Program) : Decidable (p.NestsWithin limit) :=
  decidable_of_iff _ nestsWithin_iff.symm

end Program

/-! ## From programs to data and back -/

namespace Block

theorem kind?_name (nested : Bool) (k : BlockKind) : kind? nested (.text k.name) = some k := by
  cases k <;> rfl

theorem times?_natural (times : UInt32) : times? (.natural times.toNat) = some times :=
  Text.word32?_eq_some.mpr rfl

theorem ofDatum?_plain (nested : Bool) {b : Block} (h : plain? b.kind = some b) :
    ofDatum? nested (.table [(some "type", .text b.kind.name)]) = some b := by
  have hparts : ofDatum? nested (.table [(some "type", .text b.kind.name)]) =
      ofParts? nested ⟨[.text b.kind.name], [], []⟩ := rfl
  rw [hparts]
  simp [ofParts?, kind?_name, h]

theorem ofDatum?_repeated (nested : Bool) (times : UInt32) {items : List Datum} {body : List Block}
    (h : blocksOf? items = some body) :
    ofDatum? nested (.table [(some "type", .text BlockKind.repeated.name),
      (some "times", .natural times.toNat), (some "body", .list items)]) =
      some (.repeated times body) := by
  have hparts : ofDatum? nested (.table [(some "type", .text BlockKind.repeated.name),
      (some "times", .natural times.toNat), (some "body", .list items)]) =
      ofParts? nested ⟨[.text BlockKind.repeated.name], [.natural times.toNat],
        [blocksOf? items]⟩ := rfl
  rw [hparts, h]
  simp [ofParts?, kind?_name, plain?, times?_natural]

mutual

theorem ofDatum?_datum : (nested : Bool) → (b : Block) → ofDatum? nested b.datum = some b
  | nested, .repeated times body => ofDatum?_repeated nested times (blocksOf?_dataOf body)
  | nested, .start | nested, .move | nested, .turnLeft | nested, .turnRight | nested, .collect =>
    ofDatum?_plain nested rfl

theorem blocksOf?_dataOf : (bs : List Block) → blocksOf? (dataOf bs) = some bs
  | [] => rfl
  | b :: rest => by
    simp [dataOf, blocksOf?, ofDatum?_datum true b, blocksOf?_dataOf rest]

end

mutual

theorem isSound_datum : (b : Block) → (n : Nat) →
    (b.datum.isSound (2 * n) = true ↔ b.height ≤ n)
  | .repeated times body, 0 => by simp [datum, Datum.isSound, height]
  | .repeated times body, n + 1 => by
    have hbody := areSound_dataOf body n
    have hinside : 2 * (n + 1) - 1 - 1 = 2 * n := by omega
    have htable : 0 < 2 * (n + 1) := by omega
    have hlist : 0 < 2 * (n + 1) - 1 := by omega
    simp [datum, Datum.isSound, Datum.haveSound, height, hinside, htable, hlist, hbody]
    omega
  | .start, n | .move, n | .turnLeft, n | .turnRight, n | .collect, n => by
    simp [datum, Datum.isSound, Datum.haveSound, height]
    omega

theorem areSound_dataOf : (bs : List Block) → (n : Nat) →
    (Datum.areSound (2 * n) (dataOf bs) = true ↔ heightAll bs ≤ n)
  | [], n => by simp [dataOf, Datum.areSound, heightAll]
  | b :: rest, n => by
    rw [dataOf, Datum.areSound, Bool.and_eq_true, isSound_datum b n, areSound_dataOf rest n,
      heightAll, Nat.max_le]

end

/-- A block is read back where there is room for all of its tree. -/
theorem decode_datum {p : Place} {n : Nat} (room : p.room = 2 * n) (b : Block) :
    decode p b.datum = if b.height ≤ n then some b else none := by
  simp only [decode, room, isSound_datum, ofDatum?_datum]

theorem decode_dataOf {p : Place} {n : Nat} (room : p.room = 2 * n) (bs : List Block) :
    (dataOf bs).mapM (decode p) = if heightAll bs ≤ n then some bs else none := by
  induction bs with
  | nil => simp [dataOf, heightAll]
  | cons b rest ih =>
    rw [dataOf, List.mapM_cons, decode_datum room, ih, heightAll]
    simp only [Nat.max_le]
    by_cases hb : b.height ≤ n
    · by_cases hrest : heightAll rest ≤ n
      · simp [hb, hrest]
      · simp [hb, hrest]
    · simp [hb]

/-! ## What is read fits -/

theorem height_plain {k : BlockKind} {b : Block} (h : plain? k = some b) : b.height = 1 := by
  cases k <;> cases h <;> rfl

theorem ofItems?_eq_some {times : Datum} {body : Option (List Block)} {k : BlockKind} {b : Block}
    (h : ofItems? times body k = some b) : ∃ n bs, body = some bs ∧ b = .repeated n bs := by
  unfold ofItems? at h
  split at h
  · cases h
  · obtain ⟨n, _, h⟩ := Option.bind_eq_some_iff.mp h
    obtain ⟨bs, hbs, h⟩ := Option.bind_eq_some_iff.mp h
    cases h
    exact ⟨n, bs, hbs, rfl⟩

/-- A block that is made of fields is no higher than its body makes it. -/
theorem height_ofParts? {nested : Bool} {parts : Parts} {b : Block} {room : Nat}
    (h : ofParts? nested parts = some b)
    (bodies : ∀ body, some body ∈ parts.bodies → 2 * heightAll body ≤ room) :
    2 * b.height ≤ room + 2 := by
  unfold ofParts? at h
  split at h
  · obtain ⟨k, _, h⟩ := Option.bind_eq_some_iff.mp h
    split at h
    · next hplain =>
      cases h
      rw [height_plain hplain]
      omega
    · split at h
      · split at h
        · obtain ⟨times, _, h⟩ := Option.bind_eq_some_iff.mp h
          cases h
          simp [height, heightAll]
        · next body hbodies =>
          obtain ⟨times, _, h⟩ := Option.bind_eq_some_iff.mp h
          obtain ⟨bs, hbs, h⟩ := Option.bind_eq_some_iff.mp h
          cases h
          have hle := bodies bs (by rw [hbodies, hbs]; exact List.mem_singleton_self _)
          rw [height]
          omega
        · cases h
      · cases h
  · cases h

mutual

/-- Half of the room is enough for a tree, and an empty body that is left out saves one list. -/
theorem height_ofDatum? : (d : Datum) → {nested : Bool} → {b : Block} → {room : Nat} →
    d.isSound room = true → ofDatum? nested d = some b → 2 * b.height ≤ room + 1
  | .table fields, nested, b, room, sound, h => by
    simp only [Datum.isSound, Bool.and_eq_true, decide_eq_true_eq] at sound
    have hparts : ofParts? nested (partsOf fields) = some b := h
    have hle := height_ofParts? hparts fun body hbody => height_partsOf fields sound.2 hbody
    omega
  | .list [kind], nested, b, room, sound, h => by
    simp only [Datum.isSound, Bool.and_eq_true, decide_eq_true_eq] at sound
    obtain ⟨k, _, hplain⟩ := Option.bind_eq_some_iff.mp h
    rw [height_plain hplain]
    omega
  | .list [kind, times], nested, b, room, sound, h => by
    simp only [Datum.isSound, Bool.and_eq_true, decide_eq_true_eq] at sound
    obtain ⟨k, _, hitems⟩ := Option.bind_eq_some_iff.mp h
    obtain ⟨n, bs, hbs, rfl⟩ := ofItems?_eq_some hitems
    cases hbs
    simp only [height, heightAll]
    omega
  | .list [kind, times, body], nested, b, room, sound, h => by
    simp only [Datum.isSound, Datum.areSound, Bool.and_eq_true, decide_eq_true_eq] at sound
    obtain ⟨hroom, _, _, hbody, _⟩ := sound
    obtain ⟨k, _, hitems⟩ := Option.bind_eq_some_iff.mp h
    obtain ⟨n, bs, hbs, rfl⟩ := ofItems?_eq_some hitems
    have hle := height_bodyOf? body hbody hbs
    rw [height]
    omega
  | .list (_ :: _ :: _ :: _ :: _), _, _, _, _, h
  | .list [], _, _, _, _, h | .null, _, _, _, _, h | .natural _, _, _, _, _, h
  | .text _, _, _, _, _, h | .scalar, _, _, _, _, h | .date, _, _, _, _, h
  | .broken, _, _, _, _, h => by cases h

theorem height_bodyOf? : (d : Datum) → {bs : List Block} → {room : Nat} →
    d.isSound room = true → bodyOf? d = some bs → 2 * heightAll bs ≤ room
  | .list items, bs, room, sound, h => by
    simp only [Datum.isSound, Bool.and_eq_true, decide_eq_true_eq] at sound
    have hle := height_blocksOf? items sound.2 h
    omega
  | .table _, _, _, _, h | .null, _, _, _, h | .natural _, _, _, _, h | .text _, _, _, _, h
  | .scalar, _, _, _, h | .date, _, _, _, h | .broken, _, _, _, h => by cases h

theorem height_blocksOf? : (items : List Datum) → {bs : List Block} → {room : Nat} →
    Datum.areSound room items = true → blocksOf? items = some bs → 2 * heightAll bs ≤ room + 1
  | [], _, room, _, h => by
    cases h
    exact Nat.zero_le _
  | d :: rest, bs, room, sound, h => by
    simp only [Datum.areSound, Bool.and_eq_true] at sound
    obtain ⟨b, hb, h⟩ := Option.bind_eq_some_iff.mp h
    obtain ⟨others, hothers, h⟩ := Option.bind_eq_some_iff.mp h
    cases h
    have hfirst := height_ofDatum? d sound.1 hb
    have hrest := height_blocksOf? rest sound.2 hothers
    rw [heightAll]
    omega

theorem height_partsOf : (fields : List (Option String × Datum)) → {body : List Block} →
    {room : Nat} → Datum.haveSound room fields = true → some body ∈ (partsOf fields).bodies →
    2 * heightAll body ≤ room
  | [], _, _, _, h => by cases h
  | (name, d) :: rest, body, room, sound, h => by
    simp only [Datum.haveSound, Bool.and_eq_true] at sound
    have hrest : some body ∈ (partsOf rest).bodies → 2 * heightAll body ≤ room :=
      height_partsOf rest sound.2
    simp only [partsOf] at h
    split at h
    · exact hrest h
    · split at h
      · exact hrest h
      · split at h
        · rcases List.mem_cons.mp h with hd | h
          · exact height_bodyOf? d sound.1.2 hd.symm
          · exact hrest h
        · exact hrest h

end

theorem height_decode {p : Place} {d : Datum} {b : Block} (h : decode p d = some b) :
    2 * b.height ≤ p.room + 1 := by
  unfold decode at h
  split at h
  · next hsound => exact height_ofDatum? d hsound h
  · cases h

theorem height_mapM_decode {p : Place} {items : List Datum} {bs : List Block}
    (h : items.mapM (decode p) = some bs) : 2 * heightAll bs ≤ p.room + 1 := by
  induction items generalizing bs with
  | nil =>
    cases h
    exact Nat.zero_le _
  | cons d rest ih =>
    rw [List.mapM_cons] at h
    obtain ⟨b, hb, h⟩ := Option.bind_eq_some_iff.mp h
    obtain ⟨others, hothers, h⟩ := Option.bind_eq_some_iff.mp h
    cases h
    have hfirst := height_decode hb
    have hrest := ih hothers
    rw [heightAll]
    omega

end Block

/-! ## Whole programs -/

namespace Decoder

variable {α : Type}

theorem room_of_inside {p q : Place} (h : inside p = some q) : q.room + 1 = p.room := by
  unfold inside at h
  split at h
  · cases h
  · next room hroom =>
    cases h
    exact hroom.symm

/-- A list takes up one level of nesting, and its items share what is left. -/
theorem list_eq_some {item : Decoder α} {p : Place} {d : Datum} {as : List α}
    (h : list item p d = some as) :
    ∃ (q : Place) (items : List Datum), q.room + 1 = p.room ∧ items.mapM (item q) = some as := by
  unfold list at h
  split at h
  · next items =>
    obtain ⟨q, hq, h⟩ := Option.bind_eq_some_iff.mp h
    exact ⟨q, items, room_of_inside hq, h⟩
  · cases h

end Decoder

namespace Record

variable {α : Type} {r : Record} {name : String} {value : Decoder α} {a : α}

theorem room_of_read {names : List String} {p : Place} {d : Datum} (h : read names p d = some r) :
    r.place.room + 1 = p.room := by
  unfold read at h
  split at h
  · obtain ⟨q, hq, h⟩ := Option.bind_eq_some_iff.mp h
    dsimp only at h
    split at h
    · cases h
      exact Decoder.room_of_inside hq
    · cases h
  · obtain ⟨q, hq, h⟩ := Option.bind_eq_some_iff.mp h
    split at h
    · cases h
      exact Decoder.room_of_inside hq
    · cases h
  · obtain ⟨q, hq, h⟩ := Option.bind_eq_some_iff.mp h
    cases h
    exact Decoder.room_of_inside hq
  · cases h

theorem exists_of_required (h : r.required name value = some a) :
    ∃ d, value r.place d = some a := by
  obtain ⟨d, _, h⟩ := Option.bind_eq_some_iff.mp h
  exact ⟨d, h⟩

theorem exists_of_optional {default : α} (h : r.optional name default value = some a) :
    a = default ∨ ∃ d, value r.place d = some a := by
  unfold optional at h
  split at h
  · cases h
    exact Or.inl rfl
  · exact Or.inr ⟨_, h⟩

end Record

namespace Program

theorem height_of_decode {p : Place} {d : Datum} {prog : Program} (h : decode p d = some prog) :
    2 * Block.heightAll prog.blocks + 1 ≤ p.room := by
  obtain ⟨r, hr, h⟩ := Option.bind_eq_some_iff.mp h
  obtain ⟨blocks, hblocks, h⟩ := Option.bind_eq_some_iff.mp h
  cases h
  have hroom := Record.room_of_read hr
  rcases Record.exists_of_optional hblocks with rfl | ⟨d, hd⟩
  · simp only [Block.heightAll]
    omega
  · obtain ⟨q, items, hq, hitems⟩ := Decoder.list_eq_some hd
    have hle := Block.height_mapM_decode hitems
    dsimp only
    omega

/-- The table of a program and the list of its blocks take up a level each. -/
theorem decode_eq_mapM {p : Place} {n : Nat} (room : p.room = n + 2) (prog : Program) :
    decode p prog.datum = ((Block.dataOf prog.blocks).mapM (Block.decode ⟨p.dialect, n⟩)).map mk := by
  obtain ⟨dialect, _⟩ := p
  subst room
  have hread : Record.read fieldNames ⟨dialect, n + 2⟩ prog.datum =
      some ⟨⟨dialect, n + 1⟩, [("blocks", .list (Block.dataOf prog.blocks))]⟩ := by
    simp [Record.read, datum, Decoder.inside, Record.known?, fieldNames]
  unfold decode
  rw [hread]
  change ((Block.dataOf prog.blocks).mapM (Block.decode ⟨dialect, n⟩)).bind _ = _
  cases (Block.dataOf prog.blocks).mapM (Block.decode ⟨dialect, n⟩) with
  | none => rfl
  | some bs => rfl

/-- A program is read back where there is room for it. -/
theorem decode_datum {p : Place} {n : Nat} (room : p.room = 2 * n + 2) (prog : Program) :
    decode p prog.datum = if Block.heightAll prog.blocks ≤ n then some prog else none := by
  have hblocks := Block.decode_dataOf (p := ⟨p.dialect, 2 * n⟩) rfl prog.blocks
  rw [decode_eq_mapM room, hblocks]
  split
  · rfl
  · rfl

end Program

end RocketPuzzle
