import RocketPuzzle.Proofs.Ledger

/-! # Which level is in play

The level in play follows from the requests that select levels and from nothing else: a small
automaton with a flag for the tutorial and a place in the catalog goes along with every session, and
what is loaded is the level at the place where the automaton stands. Entering the tutorial keeps the
place, so leaving it is going back.
-/
namespace RocketPuzzle

/-- The level in play: the tutorial, or the catalog level at `index`. In the tutorial the catalog
level to return to is kept. -/
structure Station where
  inTutorial : Bool
  index : Nat
  deriving DecidableEq, Repr

/-- The request is one that keeps the tutorial in play. -/
def Request.keepsTutorial : Request → Bool
  | .select _ => false
  | .setTutorial enabled => enabled
  | _ => true

/-- The request asks for another level, or for the same one anew. -/
def Request.navigates : Request → Bool
  | .select _ | .setTutorial _ | .nextLevel | .previousLevel => true
  | .runAll _ | .step _ | .advance _ | .reset => false

namespace Station

def selection (w : Station) : Selection := if w.inTutorial then .tutorial else .level w.index

/-- The first catalog level of `size`, or the tutorial if there is none. -/
def first (size : Nat) : Station := ⟨size == 0, 0⟩

/-- The place that a request asks for, unless it is refused or asks for none. -/
def move? (size : Nat) (w : Station) : Request → Option Station
  | .select index => if index < size then some ⟨false, index⟩ else none
  | .setTutorial enabled => some ⟨enabled || size == 0, w.index⟩
  | .nextLevel =>
    if w.inTutorial = false ∧ w.index + 1 < size then some ⟨false, w.index + 1⟩ else none
  | .previousLevel =>
    if w.inTutorial = false ∧ 0 < w.index then some ⟨false, w.index - 1⟩ else none
  | .runAll _ | .step _ | .advance _ | .reset => none

def after (size : Nat) (w : Station) (r : Request) : Station := (w.move? size r).getD w

def afterAll (size : Nat) (w : Station) (rs : List Request) : Station := rs.foldl (after size) w

theorem afterAll_append (size : Nat) (w : Station) (rs more : List Request) :
    w.afterAll size (rs ++ more) = (w.afterAll size rs).afterAll size more := List.foldl_append

/-- The place is one of a catalog of `size` levels. -/
structure Inside (size : Nat) (w : Station) : Prop where
  empty : size = 0 → w = ⟨true, 0⟩
  index : size ≠ 0 → w.index < size

variable {size : Nat} {w v : Station} {r : Request}

theorem inside_first (size : Nat) : (first size).Inside size where
  empty := by
    rintro rfl
    rfl
  index := fun h => Nat.pos_of_ne_zero h

theorem Inside.move (h : w.Inside size) (k : w.move? size r = some v) : v.Inside size := by
  cases r with
  | select index =>
    simp only [move?] at k
    split at k
    · next hlt =>
      cases k
      exact ⟨fun hzero => absurd hlt (by simp [hzero]), fun _ => hlt⟩
    · cases k
  | setTutorial enabled =>
    cases k
    refine ⟨?_, h.index⟩
    intro hzero
    simp [hzero, h.empty hzero]
  | nextLevel =>
    simp only [move?] at k
    split at k
    · next hmore =>
      cases k
      exact ⟨fun hzero => absurd hmore.2 (by simp [hzero]), fun _ => hmore.2⟩
    · cases k
  | previousLevel =>
    simp only [move?] at k
    split at k
    · next hmore =>
      cases k
      have hsome : size ≠ 0 := by
        intro hzero
        rw [h.empty hzero] at hmore
        cases hmore.1
      exact ⟨fun hzero => absurd hzero hsome,
        fun _ => Nat.lt_of_le_of_lt (Nat.sub_le ..) (h.index hsome)⟩
    · cases k
  | runAll | step | advance | reset => cases k

theorem Inside.after (h : w.Inside size) (r : Request) : (w.after size r).Inside size := by
  rw [Station.after]
  cases hmove : w.move? size r with
  | none => exact h
  | some v => exact h.move hmove

theorem Inside.afterAll (h : w.Inside size) (rs : List Request) :
    (w.afterAll size rs).Inside size := by
  induction rs generalizing w with
  | nil => exact h
  | cons r rest ih => exact ih (h.after r)

theorem after_of_stays (h : r.navigates = false) : w.after size r = w := by
  cases r with
  | runAll | step | advance | reset => rfl
  | select | setTutorial | nextLevel | previousLevel => cases h

theorem after_of_keepsTutorial (on : w.inTutorial = true) (h : r.keepsTutorial = true) :
    w.after size r = w := by
  cases r with
  | select => cases h
  | setTutorial enabled =>
    obtain ⟨_, index⟩ := w
    cases on
    cases h
    rfl
  | nextLevel | previousLevel => simp [after, move?, on]
  | runAll | step | advance | reset => rfl

theorem afterAll_of_keepsTutorial (on : w.inTutorial = true) {rs : List Request}
    (h : ∀ r ∈ rs, r.keepsTutorial = true) : w.afterAll size rs = w := by
  induction rs with
  | nil => rfl
  | cons r rest ih =>
    obtain ⟨hr, hrest⟩ := List.forall_mem_cons.mp h
    rw [afterAll, List.foldl_cons, after_of_keepsTutorial on hr]
    exact ih hrest

end Station

def Session.station (s : Session) : Station := ⟨s.inTutorial, s.index⟩

theorem CarriesOn.station {s t : Session} {es : List Event} (h : CarriesOn s es t) :
    t.curriculum = s.curriculum ∧ t.station = s.station := by
  induction h with
  | refl => exact ⟨rfl, rfl⟩
  | head h _ ih =>
    obtain ⟨hd, on⟩ := h
    obtain ⟨hcurriculum, hplace⟩ := hd.place
    obtain ⟨htutorial, hindex, _⟩ := hplace on
    rw [ih.1, ih.2, hcurriculum, Session.station, htutorial, hindex]
    exact ⟨rfl, rfl⟩

theorem Curriculum.isEmpty_eq (c : Curriculum) : c.isEmpty = (c.size == 0) := by
  cases h : c.levels <;> simp [isEmpty, size, h]

namespace Session

variable {s : Session}

/-- The level at another station is loaded. -/
def moveTo (s : Session) (w : Station) : Effect :=
  load { s with inTutorial := w.inTutorial, index := w.index }

theorem station_begin (s : Session) (source : Source) (mode : RunMode) (delay : UInt64)
    (c : Continuation) :
    (s.begin source mode delay c).session.curriculum = s.curriculum ∧
      (s.begin source mode delay c).session.station = s.station := by
  rw [begin]
  by_cases hq : source.queue.isEmpty = true
  · simp only [Effect.andThen, hq, if_true]
    exact ⟨rfl, rfl⟩
  · simp only [Effect.andThen, hq]
    exact ⟨rfl, rfl⟩

theorem handle_select (s : Session) (index : Nat) :
    (s.handle (.select index)).effect =
      ((s.station.move? s.curriculum.size (.select index)).map s.moveTo).getD { session := s } := by
  by_cases hlt : index < s.curriculum.size
  · simp only [handle, select, Station.move?, hlt, if_true]
    rfl
  · simp only [handle, select, Station.move?, hlt, if_false]
    rfl

theorem handle_setTutorial (s : Session) (enabled : Bool) :
    (s.handle (.setTutorial enabled)).effect =
      ((s.station.move? s.curriculum.size (.setTutorial enabled)).map s.moveTo).getD
        { session := s } := by
  simp only [handle, setTutorial, Curriculum.isEmpty_eq]
  rfl

theorem moveTo_of_catalog (catalog : s.inTutorial = false) (index : Nat) :
    s.moveTo ⟨false, index⟩ = load { s with index } := by
  rw [moveTo, ← catalog]

theorem handle_nextLevel (inside : s.station.Inside s.curriculum.size) :
    (s.handle .nextLevel).effect =
      ((s.station.move? s.curriculum.size .nextLevel).map s.moveTo).getD { session := s } := by
  cases htutorial : s.inTutorial with
  | true => simp [handle, nextLevel, answerChange, Station.move?, station, htutorial]
  | false =>
    by_cases hmore : s.index + 1 < s.curriculum.size
    · have hfinal : s.curriculum.isFinal s.index = false := by
        simp [Curriculum.isFinal, Nat.ne_of_lt hmore]
      simp [handle, nextLevel, answerChange, Station.move?, station, htutorial, hfinal, hmore,
        moveTo_of_catalog htutorial]
    · have hsome : s.curriculum.size ≠ 0 := by
        intro hzero
        cases htutorial.symm.trans (congrArg Station.inTutorial (inside.empty hzero))
      have hindex : s.index < s.curriculum.size := inside.index hsome
      have hfinal : s.curriculum.isFinal s.index = true := by
        simp only [Curriculum.isFinal, beq_iff_eq]
        omega
      simp [handle, nextLevel, answerChange, Station.move?, station, htutorial, hfinal, hmore]

theorem handle_previousLevel (s : Session) :
    (s.handle .previousLevel).effect =
      ((s.station.move? s.curriculum.size .previousLevel).map s.moveTo).getD { session := s } := by
  cases htutorial : s.inTutorial with
  | true => simp [handle, previousLevel, answerChange, Station.move?, station, htutorial]
  | false =>
    cases hindex : s.index with
    | zero => simp [handle, previousLevel, answerChange, Station.move?, station, htutorial, hindex]
    | succ index =>
      simp [handle, previousLevel, answerChange, Station.move?, station, htutorial, hindex,
        moveTo_of_catalog htutorial]

/-- A request for another station is granted from the start of its level, or nothing happens. -/
theorem handle_station (inside : s.station.Inside s.curriculum.size) {r : Request}
    (navigates : r.navigates = true) :
    (s.handle r).effect =
      ((s.station.move? s.curriculum.size r).map s.moveTo).getD { session := s } := by
  cases r with
  | select index => exact s.handle_select index
  | setTutorial enabled => exact s.handle_setTutorial enabled
  | nextLevel => exact handle_nextLevel inside
  | previousLevel => exact s.handle_previousLevel
  | runAll | step | advance | reset => cases navigates

/-- Nothing that happens to a run leads to another station. -/
theorem Coherent.station_handle (h : s.Coherent) {r : Request} (stays : r.navigates = false) :
    (s.handle r).effect.session.curriculum = s.curriculum ∧
      (s.handle r).effect.session.station = s.station := by
  cases r with
  | runAll source =>
    simp only [handle, runAll]
    split
    · exact ⟨rfl, rfl⟩
    · exact station_begin ..
  | step source =>
    simp only [handle, step]
    split
    · next hrun =>
      split
      · next hmode => exact (h.carriesOn_turns (stepOn_turns hrun hmode)).station
      · exact ⟨rfl, rfl⟩
    · exact station_begin ..
  | advance dt => exact (h.carriesOn_turns (s.advance_turns dt)).station
  | reset => exact ⟨rfl, rfl⟩
  | select | setTutorial | nextLevel | previousLevel => cases stays

/-- The automaton goes along with every request. -/
theorem Coherent.station_after (h : s.Coherent) (inside : s.station.Inside s.curriculum.size)
    (r : Request) :
    (s.handle r).effect.session.curriculum = s.curriculum ∧
      (s.handle r).effect.session.station = s.station.after s.curriculum.size r := by
  cases hr : r.navigates with
  | true =>
    rw [handle_station inside hr, Station.after]
    cases s.station.move? s.curriculum.size r with
    | none => exact ⟨rfl, rfl⟩
    | some w => exact ⟨rfl, rfl⟩
  | false =>
    rw [Station.after_of_stays hr]
    exact h.station_handle hr

theorem Coherent.station_afterAll (h : s.Coherent) (inside : s.station.Inside s.curriculum.size)
    (rs : List Request) :
    (s.handleAll rs).session.station = s.station.afterAll s.curriculum.size rs := by
  induction rs generalizing s with
  | nil => rfl
  | cons r rest ih =>
    obtain ⟨hcurriculum, hstation⟩ := h.station_after inside r
    have hinside : (s.handle r).effect.session.station.Inside
        (s.handle r).effect.session.curriculum.size := by
      rw [hcurriculum, hstation]
      exact inside.after r
    have hrest := ih (h.request r) hinside
    rw [hcurriculum, hstation] at hrest
    exact hrest

theorem station_new (c : Curriculum) (p : Pacing) : (Session.new c p).station = .first c.size := by
  rw [station, new, Station.first, c.isEmpty_eq]

theorem selection_eq (s : Session) : s.selection = s.station.selection := rfl

theorem selection_eq_tutorial : s.selection = .tutorial ↔ s.inTutorial = true := by
  cases h : s.inTutorial <;> simp [selection, h]

theorem selection_eq_level {i : Nat} :
    s.selection = .level i ↔ s.inTutorial = false ∧ s.index = i := by
  cases h : s.inTutorial <;> simp [selection, h]

/-- What the requests since the beginning have made of the level in play. -/
structure Navigated (c : Curriculum) (rs : List Request) (s : Session) : Prop where
  selection : s.selection = ((Station.first c.size).afterAll c.size rs).selection
  index : s.index = ((Station.first c.size).afterAll c.size rs).index
  inside : c.size ≠ 0 → s.index < c.size
  empty : c.size = 0 → s.index = 0 ∧ s.selection = .tutorial
  tutorial : s.selection = .tutorial → s.level = c.tutorial
  catalog : ∀ i, s.selection = .level i → c.levels[i]? = some s.level
  granted : ∀ r w, ((Station.first c.size).afterAll c.size rs).move? c.size r = some w →
    let e := (s.handle r).effect
    e.session.selection = w.selection ∧ e.events = [.levelReset e.session.level.id] ∧
      e.session.status = .idle ∧ e.session.agenda.pending = []
  refused : ∀ r, r.navigates = true →
    ((Station.first c.size).afterAll c.size rs).move? c.size r = none →
      (s.handle r).effect = { session := s }
  returns : ∀ i stay, s.selection = .level i → (∀ r ∈ stay, r.keepsTutorial = true) →
    (s.handleAll (.setTutorial true :: stay)).session.selection = .tutorial ∧
      (s.handleAll (.setTutorial true :: stay ++ [.setTutorial false])).session.selection =
        .level i

theorem granted_of_move (inside : s.station.Inside s.curriculum.size) {r : Request} {w : Station}
    (h : s.station.move? s.curriculum.size r = some w) : (s.handle r).effect = s.moveTo w := by
  have navigates : r.navigates = true := by
    cases r with
    | select | setTutorial | nextLevel | previousLevel => rfl
    | runAll | step | advance | reset => cases h
  rw [handle_station inside navigates, h]
  rfl

theorem Coherent.returns (h : s.Coherent) (inside : s.station.Inside s.curriculum.size) {i : Nat}
    (there : s.selection = .level i) {stay : List Request}
    (hstay : ∀ r ∈ stay, r.keepsTutorial = true) :
    (s.handleAll (.setTutorial true :: stay)).session.selection = .tutorial ∧
      (s.handleAll (.setTutorial true :: stay ++ [.setTutorial false])).session.selection =
        .level i := by
  obtain ⟨hcatalog, rfl⟩ := selection_eq_level.mp there
  have hsome : s.curriculum.size ≠ 0 := by
    intro hzero
    cases hcatalog.symm.trans (congrArg Station.inTutorial (inside.empty hzero))
  have hentered : s.station.after s.curriculum.size (.setTutorial true) = ⟨true, s.index⟩ := by
    simp [Station.after, Station.move?, station]
  have hinside : s.station.afterAll s.curriculum.size (.setTutorial true :: stay) =
      ⟨true, s.index⟩ := by
    rw [Station.afterAll, List.foldl_cons, hentered]
    exact Station.afterAll_of_keepsTutorial rfl hstay
  constructor
  · rw [selection_eq, h.station_afterAll inside, hinside]
    rfl
  · rw [selection_eq, h.station_afterAll inside, Station.afterAll_append, hinside]
    simp [Station.afterAll, Station.after, Station.move?, Station.selection, hsome]

/-- Which level is in play follows from the requests that select levels. -/
theorem requests_navigate (c : Curriculum) (p : Pacing) (rs : List Request) :
    Navigated c rs ((Session.new c p).handleAll rs).session := by
  have hnew := station_new c p
  have hfirst : (Session.new c p).station.Inside (Session.new c p).curriculum.size := by
    rw [hnew]
    exact Station.inside_first c.size
  have hstation := (new_coherent c p).station_afterAll hfirst rs
  rw [hnew] at hstation
  have hcoherent := requests_coherent c p rs
  have hplaced := requests_placed c p rs
  have hcurriculum := curriculum_handleAll c p rs
  have hafter := (Station.inside_first c.size).afterAll rs
  generalize ((Session.new c p).handleAll rs).session = s at *
  change s.station = (Station.first c.size).afterAll c.size rs at hstation
  rw [← hstation] at hafter
  subst hcurriculum
  constructor
  · rw [selection_eq, hstation]
  · rw [← hstation]
    rfl
  · exact hafter.index
  · intro hzero
    have hstart := hafter.empty hzero
    exact ⟨congrArg Station.index hstart,
      selection_eq_tutorial.mpr (congrArg Station.inTutorial hstart)⟩
  · intro hselection
    rw [hplaced.level, Curriculum.active, if_pos (selection_eq_tutorial.mp hselection)]
  · intro i hselection
    obtain ⟨hcatalog, rfl⟩ := selection_eq_level.mp hselection
    exact hplaced.getElem? hcatalog
  · intro r w hmove
    rw [← hstation] at hmove
    rw [granted_of_move hafter hmove]
    exact ⟨rfl, rfl, rfl, rfl⟩
  · intro r hnavigates hnone
    rw [← hstation] at hnone
    rw [handle_station hafter hnavigates, hnone]
    rfl
  · intro i stay hselection hstay
    exact hcoherent.returns hafter hselection hstay

end Session

end RocketPuzzle
