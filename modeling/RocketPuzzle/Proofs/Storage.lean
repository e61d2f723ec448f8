import RocketPuzzle.Codec.Level
import RocketPuzzle.Proofs.Payload

/-! # Levels in storage

A decoder is faithful to a way of turning values into data if it gives every value back, wherever
there is room for the lists and tables that the datum is made of. Faithful decoders of the fields
make a faithful decoder of the record, so no level is changed by being written and read again.
-/
namespace RocketPuzzle

/-- The text that a datum is written as. -/
def Json.text (d : Datum) : String := String.ofList (write d)

namespace Datum

/-- The datum has a form in the exchange format, whatever characters its texts are made of. -/
def Writable (d : Datum) : Prop := d.HasForm fun _ => True

theorem writable_text (s : String) : (text s).Writable := fun _ _ => trivial

theorem writable_list {items : List Datum} (h : ∀ d ∈ items, d.Writable) :
    (list items).Writable := by
  induction items with
  | nil => trivial
  | cons d rest ih =>
    obtain ⟨hd, hrest⟩ := List.forall_mem_cons.mp h
    exact ⟨hd, ih hrest⟩

theorem writable_table {fields : List (Option String × Datum)}
    (h : ∀ f ∈ fields, f.1.isSome ∧ f.2.Writable) : (table fields).Writable := by
  induction fields with
  | nil => trivial
  | cons f rest ih =>
    obtain ⟨⟨hname, hd⟩, hrest⟩ := List.forall_mem_cons.mp h
    obtain ⟨name, hsome⟩ := Option.isSome_iff_exists.mp hname
    exact ⟨⟨name, hsome, fun _ _ => trivial⟩, hd, ih hrest⟩

end Datum

namespace Decoder

variable {α : Type} {value : Decoder α} {datum : α → Datum} {depth : Nat}

theorem exists_inside {p : Place} (room : 0 < p.room) :
    ∃ q, inside p = some q ∧ q.room + 1 = p.room := by
  obtain ⟨dialect, n⟩ := p
  obtain ⟨n, rfl⟩ := Nat.exists_eq_add_of_lt room
  exact ⟨⟨dialect, 0 + n⟩, rfl, rfl⟩

/-- The decoder gives every value back from its datum, where `depth` more lists and tables may be
opened. -/
structure Faithful (value : Decoder α) (datum : α → Datum) (depth : Nat) : Prop where
  writable : ∀ a, (datum a).Writable
  back : ∀ a p, depth ≤ p.room → value p (datum a) = some a

theorem faithful_word32 : Faithful word32 (fun n => .natural n.toNat) 0 where
  writable n := word32_hasForm n
  back _ _ _ := Text.word32?_eq_some.mpr rfl

theorem faithful_text : Faithful text .text 0 where
  writable := Datum.writable_text
  back _ _ _ := rfl

theorem faithful_choice {names : List (String × α)} {name : α → String}
    (h : ∀ a, names.lookup (name a) = some a) :
    Faithful (choice names) (fun a => .text (name a)) 0 where
  writable _ := Datum.writable_text _
  back a _ _ := h a

/-- Null stands for no value, so it must not stand for one of the values, too. -/
theorem Faithful.nullable (h : Faithful value datum depth) (hnull : ∀ a, datum a ≠ .null) :
    Faithful (nullable value) (fun a? => a?.elim .null datum) depth where
  writable
    | none => trivial
    | some a => h.writable a
  back
    | none, _, _ => rfl
    | some a, p, room => by
      change Decoder.nullable value p (datum a) = some (some a)
      have hback := h.back a p room
      unfold Decoder.nullable
      split
      · next hd => exact absurd hd (hnull a)
      · rw [hback]
        rfl

theorem Faithful.list (h : Faithful value datum depth) :
    Faithful (list value) (fun as => .list (as.map datum)) (depth + 1) where
  writable as := by
    apply Datum.writable_list
    intro d hd
    obtain ⟨a, _, rfl⟩ := List.mem_map.mp hd
    exact h.writable a
  back as p room := by
    obtain ⟨q, hq, hroom⟩ := exists_inside (p := p) (by omega)
    have hitems : (as.map datum).mapM (value q) = some as := by
      induction as with
      | nil => rfl
      | cons a rest ih =>
        rw [List.map_cons, List.mapM_cons, h.back a q (by omega), ih]
        rfl
    change (inside p).bind _ = _
    rw [hq]
    exact hitems

end Decoder

namespace Record

variable {names given : List String} {fields : List (Option String × Datum)}

/-- The induction is on the names that are given. -/
theorem map_fst_known (hgiven : fields.map (·.1) = given.map some) (hknown : given ⊆ names) :
    (fields.filterMap (known? names)).map (·.1) = given := by
  induction given generalizing fields with
  | nil =>
    obtain rfl := List.map_eq_nil_iff.mp hgiven
    rfl
  | cons name given ih =>
    obtain ⟨⟨_, d⟩, rest, rfl, rfl, hrest⟩ := List.map_eq_cons_iff.mp hgiven
    obtain ⟨hname, hothers⟩ := List.cons_subset.mp hknown
    have hkept : known? names (some name, d) = some (name, d) := if_pos hname
    rw [List.filterMap_cons_some hkept, List.map_cons, ih hrest hothers]

theorem lookup_of_mem {fields : List (String × Datum)} {name : String} {d : Datum}
    (hnodup : (fields.map (·.1)).Nodup) (h : (name, d) ∈ fields) :
    fields.lookup name = some d := by
  induction fields with
  | nil => cases h
  | cons f rest ih =>
    obtain ⟨hnew, hnodup⟩ := List.nodup_cons.mp hnodup
    rcases List.mem_cons.mp h with rfl | h
    · exact List.lookup_cons_self
    · have hother : name ∈ rest.map (·.1) := List.mem_map_of_mem (f := (·.1)) h
      have hne : name ≠ f.1 := by
        rintro rfl
        exact hnew hother
      rw [List.lookup_cons, beq_false_of_ne hne]
      exact ih hnodup h

/-- A table that has all fields of the record, in their order, is read as those fields. -/
theorem exists_read {p : Place} (room : 0 < p.room) {d : Datum} (hd : d = .table fields)
    (hnames : fields.map (·.1) = names.map some) (hnodup : names.Nodup) :
    ∃ r, read names p d = some r ∧ r.place.room + 1 = p.room ∧
      ∀ name value, (some name, value) ∈ fields → r.fields.lookup name = some value := by
  subst hd
  obtain ⟨q, hq, hroom⟩ := Decoder.exists_inside room
  have hkept : (fields.filterMap (known? names)).map (·.1) = names :=
    map_fst_known hnames (List.Subset.refl names)
  have hnamed : ∀ f ∈ fields, ∃ name ∈ names, some name = f.1 := by
    intro f hf
    exact List.mem_map.mp (hnames ▸ List.mem_map_of_mem hf)
  have hall : fields.all (·.1.isSome) = true := by
    refine List.all_eq_true.mpr fun f hf => ?_
    obtain ⟨name, _, hname⟩ := hnamed f hf
    rw [← hname]
    rfl
  have hdistinct : ((fields.filterMap (known? names)).map (·.1)).Nodup := hkept.symm ▸ hnodup
  refine ⟨⟨q, fields.filterMap (known? names)⟩, ?_, hroom, ?_⟩
  · change (Decoder.inside p).bind _ = _
    rw [hq]
    exact if_pos ⟨hall, hdistinct⟩
  · intro name value hvalue
    obtain ⟨_, hname, ⟨⟩⟩ := hnamed _ hvalue
    exact lookup_of_mem hdistinct (List.mem_filterMap.mpr ⟨_, hvalue, if_pos hname⟩)

variable {α : Type} {r : Record} {name : String} {value : Decoder α} {datum : α → Datum}
variable {depth : Nat} {a : α}

theorem required_eq (hv : value.Faithful datum depth) (room : depth ≤ r.place.room)
    (hfield : r.fields.lookup name = some (datum a)) : r.required name value = some a := by
  rw [required, hfield]
  exact hv.back a r.place room

theorem optional_eq (hv : value.Faithful datum depth) (room : depth ≤ r.place.room)
    (hfield : r.fields.lookup name = some (datum a)) (default : α) :
    r.optional name default value = some a := by
  rw [optional, hfield]
  exact hv.back a r.place room

end Record

/-! ## Levels and curricula -/

namespace Cell

theorem datum_ne_null (c : Cell) : c.datum ≠ .null := Datum.noConfusion

theorem faithful : Decoder.Faithful decode datum 1 where
  writable c := by
    apply Datum.writable_table
    simp only [List.forall_mem_cons]
    exact ⟨⟨rfl, Decoder.faithful_word32.writable _⟩, ⟨rfl, Decoder.faithful_word32.writable _⟩,
      List.forall_mem_nil _⟩
  back c p room := by
    obtain ⟨r, hread, hroom, hfield⟩ :=
      Record.exists_read room (rfl : c.datum = _) (rfl : _ = fieldNames.map some) (by decide)
    have hx : r.required "x" Decoder.word32 = some c.x :=
      Record.required_eq Decoder.faithful_word32 (by omega) (hfield "x" _ (by simp))
    have hy : r.required "y" Decoder.word32 = some c.y :=
      Record.required_eq Decoder.faithful_word32 (by omega) (hfield "y" _ (by simp))
    simp only [decode, hread, hx, hy, Option.bind_eq_bind, Option.bind_some, pure]

end Cell

theorem Heading.faithful :
    Decoder.Faithful (Decoder.choice names) (fun h => .text (spelling names h)) 0 := by
  apply Decoder.faithful_choice
  intro h
  cases h <;> rfl

theorem BlockKind.faithful : Decoder.Faithful (Decoder.choice names) (fun k => .text k.name) 0 := by
  apply Decoder.faithful_choice
  intro k
  cases k <;> rfl

namespace Level

theorem faithful : Decoder.Faithful decode datum 3 where
  writable l := by
    have hfuel := (Cell.faithful.nullable Cell.datum_ne_null).writable l.fuel
    apply Datum.writable_table
    simp only [List.forall_mem_cons]
    exact ⟨⟨rfl, Decoder.faithful_word32.writable _⟩, ⟨rfl, Datum.writable_text _⟩,
      ⟨rfl, Datum.writable_text _⟩, ⟨rfl, Datum.writable_text _⟩,
      ⟨rfl, Decoder.faithful_word32.writable _⟩, ⟨rfl, Cell.faithful.writable _⟩,
      ⟨rfl, Heading.faithful.writable _⟩, ⟨rfl, Cell.faithful.writable _⟩, ⟨rfl, hfuel⟩,
      ⟨rfl, Cell.faithful.list.writable _⟩, ⟨rfl, BlockKind.faithful.list.writable _⟩,
      ⟨rfl, Decoder.faithful_word32.writable _⟩, List.forall_mem_nil _⟩
  back l p room := by
    have hopen : 0 < p.room := by omega
    obtain ⟨r, hread, hroom, hfield⟩ :=
      Record.exists_read hopen (rfl : l.datum = _) (rfl : _ = fieldNames.map some) (by decide)
    have hid : r.required "id" Decoder.word32 = some l.id :=
      Record.required_eq Decoder.faithful_word32 (by omega) (hfield "id" _ (by simp))
    have htitle : r.optional "title" "" Decoder.text = some l.title :=
      Record.optional_eq Decoder.faithful_text (by omega) (hfield "title" _ (by simp)) _
    have hdescription : r.optional "description" "" Decoder.text = some l.description :=
      Record.optional_eq Decoder.faithful_text (by omega) (hfield "description" _ (by simp)) _
    have hhint : r.optional "hint" "" Decoder.text = some l.hint :=
      Record.optional_eq Decoder.faithful_text (by omega) (hfield "hint" _ (by simp)) _
    have hgridSize : r.required "grid_size" Decoder.word32 = some l.gridSize :=
      Record.required_eq Decoder.faithful_word32 (by omega) (hfield "grid_size" _ (by simp))
    have hstart : r.required "start" Cell.decode = some l.start :=
      Record.required_eq Cell.faithful (by omega) (hfield "start" _ (by simp))
    have hheading :
        r.required "start_heading" (Decoder.choice Heading.names) = some l.startHeading :=
      Record.required_eq Heading.faithful (by omega) (hfield "start_heading" _ (by simp))
    have hgoal : r.required "goal" Cell.decode = some l.goal :=
      Record.required_eq Cell.faithful (by omega) (hfield "goal" _ (by simp))
    have hfuel : r.optional "fuel" none (Decoder.nullable Cell.decode) = some l.fuel :=
      Record.optional_eq (Cell.faithful.nullable Cell.datum_ne_null) (by omega)
        (hfield "fuel" _ (by simp)) _
    have hobstacles : r.optional "obstacles" [] (Decoder.list Cell.decode) = some l.obstacles :=
      Record.optional_eq Cell.faithful.list (by omega) (hfield "obstacles" _ (by simp)) _
    have htoolbox : r.optional "toolbox" BlockKind.all
        (Decoder.list (Decoder.choice BlockKind.names)) = some l.toolbox :=
      Record.optional_eq BlockKind.faithful.list (by omega) (hfield "toolbox" _ (by simp)) _
    have hideal : r.optional "ideal_block_count" 0 Decoder.word32 = some l.idealBlockCount :=
      Record.optional_eq Decoder.faithful_word32 (by omega)
        (hfield "ideal_block_count" _ (by simp)) _
    simp only [decode, hread, hid, htitle, hdescription, hhint, hgridSize, hstart, hheading, hgoal,
      hfuel, hobstacles, htoolbox, hideal, Option.bind_eq_bind, Option.bind_some, pure]

end Level

namespace Curriculum

theorem faithful : Decoder.Faithful decode datum 5 where
  writable c := by
    apply Datum.writable_table
    simp only [List.forall_mem_cons]
    exact ⟨⟨rfl, Level.faithful.writable _⟩, ⟨rfl, Level.faithful.list.writable _⟩,
      List.forall_mem_nil _⟩
  back c p room := by
    have hopen : 0 < p.room := by omega
    obtain ⟨r, hread, hroom, hfield⟩ :=
      Record.exists_read hopen (rfl : c.datum = _) (rfl : _ = fieldNames.map some) (by decide)
    have htutorial : r.required "tutorial" Level.decode = some c.tutorial :=
      Record.required_eq Level.faithful (by omega) (hfield "tutorial" _ (by simp))
    have hlevels : r.required "levels" (Decoder.list Level.decode) = some c.levels :=
      Record.required_eq Level.faithful.list (by omega) (hfield "levels" _ (by simp))
    simp only [decode, hread, htutorial, hlevels, Option.bind_eq_bind, Option.bind_some, pure]

end Curriculum

/-- What is written as text is what is read from the text. -/
theorem Decoder.Faithful.ofText?_text {α : Type} {value : Decoder α} {datum : α → Datum}
    {depth : Nat} (h : value.Faithful datum depth) (room : depth ≤ Json.maxNesting) (a : α) :
    Json.ofText? value (Json.text (datum a)) = some a := by
  have hread : Json.read? (Text.ofChars (Json.text (datum a)).toList) = some (datum a) := by
    rw [Json.text, String.toList_ofList]
    exact Json.read?_write (h.writable a)
  rw [Json.ofText?, Json.decode?, hread]
  exact h.back a Json.place room

/-- Levels and curricula are not changed by being written as text and read again. No default takes
the place of a field, because every field is written. -/
theorem survives_storage (l : Level) (c : Curriculum) :
    Json.ofText? Level.decode (Json.text l.datum) = some l ∧
      Json.ofText? Curriculum.decode (Json.text c.datum) = some c :=
  ⟨Level.faithful.ofText?_text (by decide) l, Curriculum.faithful.ofText?_text (by decide) c⟩

end RocketPuzzle
