import Mathlib.Data.List.Perm.Subperm
import RocketPuzzle.Proofs.Deeds
import RocketPuzzle.Proofs.Validity

/-! # The record of solved levels

The record is what the events have told of it, in order. It grows at its end only, each level is on
it once, and it holds exactly the catalog levels that some run has solved.
-/
namespace RocketPuzzle

def Event.recorded? : Event → Option UInt32
  | levelCompleted level => some level
  | _ => none

theorem Event.recorded?_of_closes {e : Event} (h : e.closes = false) : e.recorded? = none := by
  cases e with
  | levelCompleted => cases h
  | _ => rfl

namespace Progress

theorem mem_record {p : Progress} {level id : UInt32} :
    id ∈ (p.record level).completed ↔ id ∈ p.completed ∨ id = level := by
  by_cases h : level ∈ p.completed
  · simp only [record, isCompleted, h, decide_true, if_true]
    constructor
    · exact Or.inl
    · rintro (hid | rfl)
      · exact hid
      · exact h
  · simp [record, isCompleted, h]

theorem nodup_record {p : Progress} (h : p.completed.Nodup) (level : UInt32) :
    (p.record level).completed.Nodup := by
  by_cases hlevel : level ∈ p.completed
  · simpa [record, isCompleted, hlevel] using h
  · have hapart : ∀ id ∈ p.completed, id ≠ level := by
      rintro id hid rfl
      exact hlevel hid
    simpa [record, isCompleted, hlevel, List.nodup_append] using ⟨h, hapart⟩

end Progress

variable {s t : Session} {d : Deed} {ds : List Deed} {es : List Event}

theorem Session.progress_conclude (s : Session) :
    s.conclude.session.progress =
      if s.verdict = .success ∧ s.inTutorial = false then s.progress.record s.level.id
      else s.progress := by
  rw [conclude_session]
  split <;> rfl

/-- Only a judgement changes the record, and nothing else tells of one. -/
theorem Does.judges (h : Does s d t) :
    d = .judge s.verdict s.solves? ∧ t = s.conclude.session ∨
      t.progress = s.progress ∧ ∀ e ∈ d.tells, e.closes = false := by
  cases h with
  | judge => exact Or.inl ⟨rfl, rfl⟩
  | command _ _ _ next _ fits =>
    refine Or.inr ⟨by rw [(Session.applyNext_eq next).1], ?_⟩
    intro e he
    rcases List.mem_cons.mp he with rfl | he
    · exact Event.closes_of_said fits
    · rw [List.mem_singleton.mp he]
      rfl
  | wait | settle => exact Or.inr ⟨rfl, List.forall_mem_nil _⟩
  | announce | ignore | refuse | reset | load =>
    exact Or.inr ⟨rfl, List.forall_mem_singleton.mpr rfl⟩
  | launch =>
    refine Or.inr ⟨rfl, List.forall_mem_cons.mpr ⟨rfl, ?_⟩⟩
    exact List.forall_mem_singleton.mpr rfl

theorem Session.recorded_judge (s : Session) :
    (Deed.judge s.verdict s.solves?).tells.filterMap Event.recorded? = s.solves?.toList := by
  cases s.solves? <;> rfl

theorem Does.recorded (h : Does s d t) :
    t.progress.completed = s.progress.completed ++ d.tells.filterMap Event.recorded? := by
  rcases h.judges with ⟨rfl, rfl⟩ | ⟨hsame, hsilent⟩
  · rw [Session.recorded_judge, Session.progress_conclude]
    by_cases hv : s.verdict = .success ∧ s.inTutorial = false
    · by_cases hold : s.level.id ∈ s.progress.completed <;>
        simp [Session.solves?, Session.onNewLevel, Progress.record, Progress.isCompleted, hv, hold]
    · have hnone : s.solves? = none := by
        rw [Session.solves?, if_neg]
        rintro ⟨hsuccess, hnew⟩
        simp only [Session.onNewLevel, Bool.and_eq_true, Bool.not_eq_true'] at hnew
        exact hv ⟨hsuccess, hnew.1⟩
      simp [hv, hnone]
  · have hnone : d.tells.filterMap Event.recorded? = [] :=
      List.filterMap_eq_nil_iff.mpr fun e he => Event.recorded?_of_closes (hsilent e he)
    rw [hsame, hnone, List.append_nil]

theorem Deeds.recorded (h : Deeds s ds t) :
    t.progress.completed =
      s.progress.completed ++ (tellsAll ds).filterMap Event.recorded? := by
  induction h with
  | nil => simp [tellsAll]
  | cons hd _ ih =>
    rw [ih, hd.recorded, List.append_assoc, ← List.filterMap_append]
    rfl

theorem Does.nodup (h : s.progress.completed.Nodup) (k : Does s d t) :
    t.progress.completed.Nodup := by
  rcases k.judges with ⟨_, rfl⟩ | ⟨hsame, _⟩
  · rw [Session.progress_conclude]
    split
    · exact Progress.nodup_record h _
    · exact h
  · rwa [hsame]

/-- A level joins the record when a run on it is judged a success, and not otherwise. -/
theorem Does.mem_completed (h : Does s d t) (id : UInt32) :
    id ∈ t.progress.completed ↔
      id ∈ s.progress.completed ∨
        s.inTutorial = false ∧ s.level.id = id ∧ .goalEvaluated .success ∈ d.tells := by
  rcases h.judges with ⟨rfl, rfl⟩ | ⟨hsame, hsilent⟩
  · have htold : .goalEvaluated .success ∈ (Deed.judge s.verdict s.solves?).tells ↔
        s.verdict = .success := by
      simp [Deed.tells, eq_comm]
    rw [Session.progress_conclude, htold]
    by_cases hv : s.verdict = .success ∧ s.inTutorial = false
    · simp [hv, Progress.mem_record, eq_comm]
    · rw [if_neg hv]
      refine (or_iff_left ?_).symm
      rintro ⟨htutorial, _, hsuccess⟩
      exact hv ⟨hsuccess, htutorial⟩
  · have hnot : .goalEvaluated .success ∉ d.tells := by
      intro he
      cases hsilent _ he
    simp [hsame, hnot]

theorem CarriesOn.mem_completed (h : CarriesOn s es t) (id : UInt32) :
    id ∈ t.progress.completed ↔
      id ∈ s.progress.completed ∨
        s.inTutorial = false ∧ s.level.id = id ∧ .goalEvaluated .success ∈ es := by
  induction h with
  | refl => simp
  | head h _ ih =>
    obtain ⟨hd, on⟩ := h
    obtain ⟨htutorial, _, hlevel⟩ := hd.place.2 on
    rw [ih, hd.mem_completed, htutorial, hlevel, List.mem_append, or_assoc, ← and_or_left,
      ← and_or_left]

theorem Answered.mem_completed {begun : Option (RunMode × List Command)} {e : Effect}
    (h : Answered s begun e) (id : UInt32) :
    id ∈ e.session.progress.completed ↔
      id ∈ s.progress.completed ∨
        s.inTutorial = false ∧ s.level.id = id ∧ .goalEvaluated .success ∈ e.events := by
  cases h with
  | carriesOn _ on => exact on.mem_completed id
  | launch _ _ _ hsession hevents => simp [hsession, hevents, Session.launched]
  | reset _ heffect | load _ _ heffect => simp [heffect, Session.load, Session.reset]

namespace Session

/-- The request brings a run on a catalog level with the number `id` to a good end. -/
def Solves (s : Session) (r : Request) (id : UInt32) : Prop :=
  ∃ i l, s.selection = .level i ∧ s.curriculum.levels[i]? = some l ∧ l.id = id ∧
    .goalEvaluated .success ∈ (s.handle r).effect.events

theorem Placed.getElem? (h : s.Placed) (catalog : s.inTutorial = false) :
    s.curriculum.levels[s.index]? = some s.level := by
  have hcatalog : s.curriculum.isEmpty = false := by
    by_contra hempty
    have htutorial := h.tutorial (Bool.of_not_eq_false hempty)
    rw [catalog] at htutorial
    cases htutorial
  have hlt : s.index < s.curriculum.levels.length := h.index hcatalog
  rw [h.level, Curriculum.active, catalog, List.getElem?_eq_getElem hlt]
  rfl

theorem Placed.solves_iff (h : s.Placed) (r : Request) (id : UInt32) :
    s.Solves r id ↔
      s.inTutorial = false ∧ s.level.id = id ∧
        .goalEvaluated .success ∈ (s.handle r).effect.events := by
  constructor
  · rintro ⟨i, l, hselection, hl, rfl, htold⟩
    cases htutorial : s.inTutorial with
    | true => simp [selection, htutorial] at hselection
    | false =>
      obtain rfl : s.index = i := by simpa [selection, htutorial] using hselection
      have hlevel := (h.getElem? htutorial).symm.trans hl
      cases hlevel
      exact ⟨rfl, rfl, htold⟩
  · rintro ⟨htutorial, hid, htold⟩
    exact ⟨s.index, s.level, by simp [selection, htutorial], h.getElem? htutorial, hid, htold⟩

theorem mem_completed_handleAll (h : s.Coherent) (placed : s.Placed) (rs : List Request)
    (id : UInt32) :
    id ∈ (s.handleAll rs).session.progress.completed ↔
      id ∈ s.progress.completed ∨
        ∃ before r after, rs = before ++ r :: after ∧
          (s.handleAll before).session.Solves r id := by
  -- Induction on the requests; each of them adds the level that it solves.
  induction rs generalizing s with
  | nil => simp [handleAll]
  | cons r rest ih =>
    obtain ⟨ds, hds, _⟩ := (h.answered r).deeds
    have hrest := ih (h.request r) (hds.preserves Does.placed placed)
    have hfirst := (h.answered r).mem_completed id
    rw [← placed.solves_iff r id] at hfirst
    change id ∈ ((s.handle r).effect.session.handleAll rest).session.progress.completed ↔ _
    rw [hrest, hfirst, or_assoc]
    apply or_congr_right
    constructor
    · rintro (hsolves | ⟨before, r', after, rfl, hsolves⟩)
      · exact ⟨[], r, rest, rfl, hsolves⟩
      · exact ⟨r :: before, r', after, rfl, hsolves⟩
    · rintro ⟨before, r', after, heq, hsolves⟩
      cases before with
      | nil =>
        cases heq
        exact Or.inl hsolves
      | cons r'' before =>
        cases heq
        exact Or.inr ⟨before, r', after, rfl, hsolves⟩

/-- The record through the whole life of a session. -/
theorem progress_ledger (c : Curriculum) (p : Pacing) (rs : List Request) :
    let played := (Session.new c p).handleAll rs
    let ids := played.session.progress.completed
    ids = played.events.filterMap Event.recorded? ∧ ids.Nodup ∧
      (∀ more, ids <+: ((Session.new c p).handleAll (rs ++ more)).session.progress.completed) ∧
      (∀ id, id ∈ ids ↔
        ∃ before r after, rs = before ++ r :: after ∧
          ((Session.new c p).handleAll before).session.Solves r id) ∧
      ∀ text, (Catalog.ofText text).1 = .ok c → c.tutorial.id ∉ ids ∧ ids.length ≤ c.size := by
  intro played ids
  have hcoherent := new_coherent c p
  obtain ⟨ds, hds, htold, _⟩ := hcoherent.deeds rs
  have hnodup : ids.Nodup := hds.preserves (P := fun s => s.progress.completed.Nodup)
    Does.nodup List.nodup_nil
  have hmem : ∀ id, id ∈ ids ↔
      ∃ before r after, rs = before ++ r :: after ∧
        ((Session.new c p).handleAll before).session.Solves r id := by
    intro id
    have hnone : id ∉ (Session.new c p).progress.completed := List.not_mem_nil
    exact (mem_completed_handleAll hcoherent (placed_new c p) rs id).trans (or_iff_right hnone)
  refine ⟨?_, hnodup, ?_, hmem, ?_⟩
  · have hrecorded := hds.recorded
    rw [htold] at hrecorded
    exact hrecorded
  · intro more
    obtain ⟨later, hlater, _⟩ := (hcoherent.handleAll rs).deeds more
    rw [handleAll_append]
    exact ⟨_, hlater.recorded.symm⟩
  · intro text accepted
    have hsound := Catalog.sound_of_ofText accepted
    have hlevels : ids ⊆ c.levels.map Level.id := by
      intro id hid
      obtain ⟨before, r, _, _, i, l, _, hl, rfl, _⟩ := (hmem id).mp hid
      rw [curriculum_handleAll] at hl
      exact List.mem_map_of_mem (List.mem_of_getElem? hl)
    constructor
    · intro hid
      obtain ⟨l, hl, htutorial⟩ := List.mem_map.mp (hlevels hid)
      exact hsound.apart l hl htutorial
    · have hle := (List.subperm_of_subset hnodup hlevels).length_le
      rwa [List.length_map] at hle

end Session

def corridorsText : String :=
  "tutorial = [0, \"\", \"\", \"\", 3, [0, 1], \"EAST\", [2, 1]]\n" ++
  "[[level]]\nid = 1\ngrid_size = 3\nstart = [0, 1]\nstart_heading = \"EAST\"\ngoal = [2, 1]\n"

/-- The tutorial is solved first, and the level twice. -/
theorem progress_ledger_corridors :
    let solve : List Request :=
      [.runAll (.commands [.move, .move]), .advance (.ofMillis 9000)]
    let rs := .setTutorial true :: (solve ++ .setTutorial false :: (solve ++ solve))
    let ids := ((Session.new corridors {}).handleAll rs).session.progress.completed
    (Catalog.ofText corridorsText).1 = .ok corridors ∧ ids = [1] ∧
      corridors.tutorial.id ∉ ids ∧ ids.length ≤ corridors.size := by
  intro solve rs ids
  have haccepted : (Catalog.ofText corridorsText).1 = .ok corridors :=
    Catalog.ofText_eq_ok.mpr ⟨by decide +kernel, by decide⟩
  obtain ⟨_, _, _, _, hledger⟩ := Session.progress_ledger corridors {} rs
  exact ⟨haccepted, by decide +kernel, hledger corridorsText haccepted⟩

end RocketPuzzle
