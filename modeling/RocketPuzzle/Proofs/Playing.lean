import RocketPuzzle.Proofs.Navigation
import RocketPuzzle.Proofs.Rounds
import RocketPuzzle.Proofs.Validity

/-! # What playing a program comes to

A program that is played on the level asked for comes to an end. The exit code and the lines that
are announced follow from the program and the level alone: the delays, and who asks for the
commands, do not show in them.
-/
namespace RocketPuzzle

/-- The program has commands, and these, up to the first collision, solve the level. -/
def Program.Solves (p : Program) (l : Level) : Prop :=
  ∃ cs, p.compile = .ok cs ∧ cs ≠ [] ∧
    ((Rocket.atStart l).follow l 0 cs).verdict l = .success

/-- A program that is not compiled has nothing to run. -/
theorem Program.solves_iff {p : Program} {l : Level} :
    p.Solves l ↔ (Source.program p).queue ≠ [] ∧
      ((Rocket.atStart l).follow l 0 (Source.program p).queue).verdict l = .success := by
  cases h : p.compile with
  | ok cs => simp [Solves, Source.queue, Source.compile, h]
  | error e => simp [Solves, Source.queue, Source.compile, h]

instance (p : Program) (l : Level) : Decidable (p.Solves l) :=
  decidable_of_iff _ Program.solves_iff.symm

/-- What is told under a condition is told once or not at all. -/
theorem count_told {p : Prop} [Decidable p] (a e : Event) :
    (if p then [a] else []).count e = if p ∧ a = e then 1 else 0 := by
  by_cases h : p <;> simp [h, List.count_cons]

theorem Rocket.count_follow (e : Event) (h : e.ofCommand = false) (l : Level) (r : Rocket)
    (index : Nat) (cs : List Command) : (r.follow l index cs).events.count e = 0 := by
  rw [List.count_eq_zero]
  intro hmem
  rw [r.ofCommand_follow l index cs e hmem] at h
  cases h

namespace Session

variable (s : Session) (mode : RunMode) (queue : List Command)

/-- How the run in one pass is judged. -/
def passVerdict : Verdict := ((Rocket.atStart s.level).follow s.level 0 queue).verdict s.level

theorem status_playThrough :
    (s.playThrough mode queue).session.status = .completed ↔ s.passVerdict queue = .success := by
  have hstatus : (s.playThrough mode queue).session.status =
      if s.passVerdict queue = .success then .completed else .halted := rfl
  rw [hstatus]
  split <;> simp [*]

theorem playThrough_events :
    (s.playThrough mode queue).events =
      .levelReset s.level.id :: .runStarted mode queue.length ::
        (((Rocket.atStart s.level).follow s.level 0 queue).events ++
          s.closing (s.passVerdict queue) ++
          if s.passVerdict queue = .success ∧ s.onLastLevel = true then [.curriculumCompleted]
          else []) := rfl

theorem count_levelCompleted (id : UInt32) :
    (s.playThrough mode queue).events.count (.levelCompleted id) =
      if s.passVerdict queue = .success ∧ s.onNewLevel = true ∧ s.level.id = id then 1 else 0 := by
  have hcourse := Rocket.count_follow (.levelCompleted id) rfl s.level (.atStart s.level) 0 queue
  rw [playThrough_events, closing]
  simp [hcourse, count_told, and_assoc]

theorem count_curriculumCompleted :
    (s.playThrough mode queue).events.count .curriculumCompleted =
      if s.passVerdict queue = .success ∧ s.onLastLevel = true then 1 else 0 := by
  have hcourse := Rocket.count_follow .curriculumCompleted rfl s.level (.atStart s.level) 0 queue
  rw [playThrough_events, closing]
  simp [hcourse, count_told]

end Session

namespace CommandLine

/-- The level that the options and the program ask for. -/
inductive Asks (c : Curriculum) (o : RunOptions) (shared : SharedProgram) :
    Selection → Level → Prop where
  | tutorial (on : o.tutorial = true) : Asks c o shared .tutorial c.tutorial
  | catalog {i l} (off : o.tutorial = false) (there : c.levels[i]? = some l)
      (wanted : l.id = (o.level.or shared.level).getD 1) : Asks c o shared (.level i) l

/-- A session that stands on a level, before anything is run. -/
structure Seated (c : Curriculum) (w : Selection) (l : Level) (s : Session) : Prop where
  coherent : s.Coherent
  idle : s.status = .idle
  curriculum : s.curriculum = c
  selection : s.selection = w
  level : s.level = l
  fresh : s.progress = {}

variable {c : Curriculum} {o : RunOptions} {shared : SharedProgram} {w : Selection} {l : Level}
  {s : Session}

theorem findIdx?_of_distinct {ls : List Level} {i : Nat} (distinct : (ls.map Level.id).Nodup)
    (there : ls[i]? = some l) : ls.findIdx? (·.id = l.id) = some i := by
  obtain ⟨hi, rfl⟩ := List.getElem?_eq_some_iff.mp there
  refine List.findIdx?_eq_some_iff_getElem.mpr ⟨hi, by simp, ?_⟩
  intro j hj
  have hapart := List.pairwise_iff_getElem.mp distinct j i (by simp; omega) (by simpa) hj
  simpa using hapart

theorem seated_moveTo (c : Curriculum) (pacing : Pacing) (v : Station) :
    Seated c v.selection (c.active v.inTutorial v.index)
      ((Session.new c pacing).moveTo v).session where
  coherent := Session.reset_coherent _
  idle := rfl
  curriculum := rfl
  selection := rfl
  level := rfl
  fresh := rfl

/-- The level asked for is found, and the session stands on it. -/
theorem Asks.seated (asked : Asks c o shared w l) (distinct : (c.levels.map Level.id).Nodup)
    (pacing : Pacing) : ∃ s, seat (.new c pacing) o shared = .ok s ∧ Seated c w l s := by
  cases asked with
  | tutorial on => exact ⟨_, if_pos on, seated_moveTo c pacing ⟨true, 0⟩⟩
  | @catalog i l off there wanted =>
    have hlevel : c.active false i = l := by simp [Curriculum.active, there]
    have hfound : (c.levels.findIdx? (·.id = (o.level.or shared.level).getD 1) >>=
        (Session.new c pacing).select) = some ((Session.new c pacing).moveTo ⟨false, i⟩) := by
      rw [← wanted, findIdx?_of_distinct distinct there]
      exact if_pos (List.getElem?_eq_some_iff.mp there).1
    refine ⟨((Session.new c pacing).moveTo ⟨false, i⟩).session, ?_, ?_⟩
    · rw [seat, off]
      simp only [Bool.false_eq_true, if_false, Session.new] at hfound ⊢
      rw [hfound]
    · rw [← hlevel]
      exact seated_moveTo c pacing ⟨false, i⟩

theorem Seated.onNewLevel (h : Seated c w l s) : s.onNewLevel = true ↔ ∃ i, w = .level i := by
  rw [← h.selection]
  simp [Session.onNewLevel, h.fresh, Session.selection_eq_level]

theorem Seated.onLastLevel (h : Seated c w l s) :
    s.onLastLevel = true ↔ ∃ i, w = .level i ∧ i + 1 = c.size := by
  rw [← h.selection, ← h.curriculum]
  simp [Session.onLastLevel, Session.selection_eq_level, and_assoc]

/-- The result of a play that is over. -/
def Play.result (ended : Play) (p : Program) : Result :=
  if ended.session.status = .completed then
    { emitted := ended.emitted ++ remark p ended.session.level, exitCode := 0 }
  else { emitted := ended.emitted, exitCode := 1 }

theorem play_eq (s : Session) (p : Program) (stepping realtime : Bool) :
    play s p stepping realtime = (Play.begun s (.program p) stepping realtime).finish.result p :=
  rfl

namespace Play

variable {q : Play} {p : Program}

theorem exitCode_result : ((q.result p).exitCode = 0 ↔ q.session.status = .completed) ∧
    ((q.result p).exitCode = 1 ↔ q.session.status ≠ .completed) := by
  unfold result
  split <;> simp [*]

theorem count_result {e : Event} {line : String} (h : announcement? e = some line) :
    (q.result p).emitted.count (announce line) = q.emitted.count (announce line) := by
  unfold result
  split
  · rw [List.count_append, count_remark h, Nat.add_zero]
  · rfl

end Play

/-- What is left when the rounds on a level are over. -/
structure Play.Settles (ended : Play) (s : Session) (p : Program) : Prop where
  status : ended.session.status = .completed ↔ p.Solves s.level
  level : ∀ id, ended.emitted.count (announce (levelLine id)) =
    if p.Solves s.level ∧ s.onNewLevel = true ∧ s.level.id = id then 1 else 0
  certificate : ended.emitted.count (announce certificateLine) =
    if p.Solves s.level ∧ s.onLastLevel = true then 1 else 0

theorem begun_settles (h : s.Coherent) (idle : s.status = .idle) (p : Program)
    (stepping realtime : Bool) :
    let q := Play.begun s (.program p) stepping realtime
    q.Ends q.finish ∧ q.finish.Settles s p := by
  intro q
  -- A program without commands is refused at once; any other is the run in one pass.
  by_cases nothing : (Source.program p).queue = []
  · have hnot : ¬ p.Solves s.level := fun hsolves => (Program.solves_iff.mp hsolves).1 nothing
    obtain ⟨hends, hstatus, hquiet⟩ := Play.begun_refused h idle nothing
    refine ⟨hends, ?_, ?_, ?_⟩
    · rw [hstatus]
      simp [hnot]
    · intro id
      rw [hquiet (announcement?_levelCompleted id), if_neg (fun k => hnot k.1)]
    · rw [hquiet announcement?_curriculumCompleted, if_neg (fun k => hnot k.1)]
  · have hrest : s.status ≠ .running := by simp [idle]
    have hsolves : p.Solves s.level ↔ s.passVerdict (Source.program p).queue = .success := by
      rw [Program.solves_iff, and_iff_right nothing]
      rfl
    obtain ⟨hends, hstill, htold⟩ := Play.begun_plays hrest nothing
    refine ⟨hends, ?_, ?_, ?_⟩
    · rw [hsolves, ← s.status_playThrough (.of stepping), ← hstill]
      rfl
    · intro id
      rw [htold (announcement?_levelCompleted id), s.count_levelCompleted]
      simp only [hsolves]
    · rw [htold announcement?_curriculumCompleted, s.count_curriculumCompleted]
      simp only [hsolves]

/-- The line is announced once if `p` holds, and not at all if it does not. -/
def OnceIff (emitted : List Emission) (line : String) (p : Prop) : Prop :=
  (p → emitted.count (announce line) = 1) ∧ (¬ p → emitted.count (announce line) = 0)

/-- What a program comes to on a level: what the exit code says, and what has been announced. -/
structure Result.Reports (r : Result) (c : Curriculum) (p : Program) (w : Selection) (l : Level) :
    Prop where
  success : r.exitCode = 0 ↔ p.Solves l
  failure : r.exitCode = 1 ↔ ¬ p.Solves l
  level : ∀ id, OnceIff r.emitted (levelLine id) (p.Solves l ∧ (∃ i, w = .level i) ∧ l.id = id)
  certificate : OnceIff r.emitted certificateLine (p.Solves l ∧ ∃ i, w = .level i ∧ i + 1 = c.size)

theorem onceIff_of_eq {emitted : List Emission} {line : String} {p q : Prop} [Decidable p]
    (h : emitted.count (announce line) = if p then 1 else 0) (k : p ↔ q) :
    OnceIff emitted line q :=
  ⟨fun hq => h.trans (if_pos (k.mpr hq)), fun hq => h.trans (if_neg (mt k.mp hq))⟩

theorem Seated.reports (h : Seated c w l s) {p : Program} {ended : Play}
    (k : ended.Settles s p) : (ended.result p).Reports c p w l := by
  obtain ⟨hsuccess, hfailure⟩ := Play.exitCode_result (q := ended) (p := p)
  have hsolves := k.status
  rw [h.level] at hsolves
  constructor
  · rw [hsuccess, hsolves]
  · rw [hfailure, Ne, hsolves]
  · intro id
    apply onceIff_of_eq ((Play.count_result (announcement?_levelCompleted id)).trans (k.level id))
    rw [h.level, h.onNewLevel]
  · apply onceIff_of_eq
      ((Play.count_result announcement?_curriculumCompleted).trans k.certificate)
    rw [h.level, h.onLastLevel]

/-- Every program that is played on the level asked for comes to an end, and the result says whether
it solves that level. Neither the delays nor who asks for the commands play a part in it. -/
theorem run_reports (c : Curriculum) (pacing : Pacing) (o : RunOptions) (shared : SharedProgram)
    {w : Selection} {l : Level} (accepted : (Catalog.checked (some c)).1 = .ok c)
    (asked : Asks c o shared w l) :
    ∃ s ended, seat (.new c pacing) o shared = .ok s ∧
      (Play.begun s (.program shared.program) o.step o.realtime).Ends ended ∧
      play s shared.program o.step o.realtime = ended.result shared.program ∧
      (ended.result shared.program).Reports c shared.program w l ∧
      ∀ files, curriculum files o.levels = .ok c → config files o.config = .ok ⟨pacing⟩ →
        program files o.input = .ok shared →
        run files o = .ok (ended.result shared.program) := by
  have hsound := Catalog.checked_eq_ok.mp accepted
  obtain ⟨s, hseat, hseated⟩ := asked.seated hsound.distinct pacing
  obtain ⟨hends, hsettles⟩ :=
    begun_settles hseated.coherent hseated.idle shared.program o.step o.realtime
  refine ⟨s, _, hseat, hends, play_eq .., hseated.reports hsettles, ?_⟩
  intro files hcurriculum hconfig hprogram
  rw [run, hcurriculum, hconfig, hprogram]
  change (seat (.new c pacing) o shared >>= fun s =>
    Except.ok (play s shared.program o.step o.realtime)) = _
  rw [hseat]
  rfl

theorem run_reports_corridor :
    let pacing : Pacing := ⟨0, 18446744073709551615, 18446744073709551615, 1⟩
    let o : RunOptions :=
      { input := .script "start; move; move", level := some 1, tutorial := false, step := true
        realtime := false, config := none, levels := none }
    let shared : SharedProgram := ⟨none, ⟨[.start, .move, .move]⟩⟩
    (Catalog.checked (some corridors)).1 = .ok corridors ∧
      Asks corridors o shared (.level 0) (corridor 1) ∧
      shared.program.Solves (corridor 1) ∧
      ∃ s ended, seat (.new corridors pacing) o shared = .ok s ∧
        (Play.begun s (.program shared.program) o.step o.realtime).Ends ended ∧
        (ended.result shared.program).exitCode = 0 ∧
        (ended.result shared.program).emitted.count (announce certificateLine) = 1 := by
  intro pacing o shared
  have haccepted : (Catalog.checked (some corridors)).1 = .ok corridors := by decide
  have hasked : Asks corridors o shared (.level 0) (corridor 1) := .catalog rfl rfl rfl
  have hsolves : shared.program.Solves (corridor 1) := by decide
  obtain ⟨s, ended, hseat, hends, _, hreports, _⟩ :=
    run_reports corridors pacing o shared haccepted hasked
  exact ⟨haccepted, hasked, hsolves, s, ended, hseat, hends, hreports.success.mpr hsolves,
    hreports.certificate.1 ⟨hsolves, 0, rfl, rfl⟩⟩

end CommandLine

end RocketPuzzle
