import RocketPuzzle.Proofs.Chronicle
import RocketPuzzle.Proofs.Modes
import RocketPuzzle.Proofs.Passage
import RocketPuzzle.Proofs.Retrace
import RocketPuzzle.Proofs.Slicing

/-! # The timetable of a paced run

Each command of a paced run is timed from the one before, and the judgement from the last one. When
each of them is due can still be told when the run begins: the delays simply add up, for a timer that
fires late would put off all that follow, and none does. How the time is cut up has no part in it.
-/
namespace RocketPuzzle

namespace Pacing

/-- When the `k`-th command of a run begun at `start` is due. -/
def commandDue (p : Pacing) (start : Duration) (k : Nat) : Duration :=
  .ofNanos (start.nanos + k * (Duration.ofMillis p.commandInterval).nanos)

def judgementDue (p : Pacing) (start : Duration) (m : Nat) : Duration :=
  p.commandDue start m + .ofMillis p.settleDelay

/-- The commands numbered from `k` on, `n` of them, and the judgement after the last. -/
def timetable (p : Pacing) (start : Duration) (k n : Nat) : List (Continuation × Duration) :=
  (List.range' k n).map (fun k => (.applyNext, p.commandDue start k)) ++
    [(.evaluate, p.judgementDue start (k + n - 1))]

variable {p : Pacing} {start time : Duration} {k l m n : Nat}

theorem nanos_commandDue (p : Pacing) (start : Duration) (k : Nat) :
    (p.commandDue start k).nanos =
      min (start.nanos + k * (Duration.ofMillis p.commandInterval).nanos)
        (18446744073709551616 * 1000000000 - 1) := rfl

theorem commandDue_zero : p.commandDue start 0 = start := by
  have := start.nanos_lt
  apply Duration.ext
  rw [nanos_commandDue]
  omega

theorem commandDue_succ :
    p.commandDue start (k + 1) = p.commandDue start k + .ofMillis p.commandInterval := by
  apply Duration.ext
  rw [Duration.nanos_add, nanos_commandDue, nanos_commandDue, Nat.succ_mul]
  omega

theorem commandDue_mono (h : k ≤ l) : p.commandDue start k ≤ p.commandDue start l := by
  have := Nat.mul_le_mul_right (Duration.ofMillis p.commandInterval).nanos h
  rw [Duration.le_def, nanos_commandDue, nanos_commandDue]
  omega

theorem commandDue_le_judgementDue (h : k ≤ m) :
    p.commandDue start k ≤ p.judgementDue start m :=
  Duration.le_trans (commandDue_mono h) (Duration.le_self_add ..)

theorem countP_commandDue (hle : k ≤ m) (reached : p.commandDue start k ≤ time)
    (last : k = m ∨ time < p.commandDue start (k + 1)) :
    (List.range' 1 m).countP (fun l => p.commandDue start l ≤ time) = k := by
  have hsplit : List.range' 1 m = List.range' 1 k ++ List.range' (1 + k) (m - k) := by
    rw [List.range'_append_1, Nat.add_sub_cancel' hle]
  have hdone : (List.range' 1 k).countP (fun l => p.commandDue start l ≤ time) = k := by
    rw [List.countP_eq_length.mpr, List.length_range']
    intro l hl
    have hlk : l ≤ k := by
      have := List.mem_range'_1.mp hl
      omega
    exact decide_eq_true (Duration.le_trans (commandDue_mono hlk) reached)
  have hopen : (List.range' (1 + k) (m - k)).countP (fun l => p.commandDue start l ≤ time) = 0 := by
    rw [List.countP_eq_zero]
    intro l hl hdue
    have hrange := List.mem_range'_1.mp hl
    rcases last with rfl | hlate
    · omega
    · have hkl : k + 1 ≤ l := by omega
      have hsooner := Duration.le_trans (commandDue_mono hkl) (of_decide_eq_true hdue)
      exact Duration.not_le.mpr hlate hsooner
  rw [hsplit, List.countP_append, hdone, hopen, Nat.add_zero]

theorem timetable_zero : p.timetable start (k + 1) 0 = [(.evaluate, p.judgementDue start k)] := rfl

theorem timetable_succ :
    p.timetable start k (n + 1) =
      (.applyNext, p.commandDue start k) :: p.timetable start (k + 1) n := by
  have hlast : k + (n + 1) - 1 = k + 1 + n - 1 := by omega
  rw [timetable, List.range'_succ, hlast]
  rfl

theorem timetable_late (h : time < p.commandDue start k) (hk : k ≤ k + n - 1) :
    (p.timetable start k n).filter (·.2 ≤ time) = [] := by
  rw [List.filter_eq_nil_iff]
  intro e he
  have hlater : p.commandDue start k ≤ e.2 := by
    rcases List.mem_append.mp he with he | he
    · obtain ⟨l, hl, rfl⟩ := List.mem_map.mp he
      exact commandDue_mono (List.mem_range'_1.mp hl).1
    · rw [List.mem_singleton.mp he]
      exact commandDue_le_judgementDue hk
  intro hdue
  have hsooner := Duration.le_trans hlater (of_decide_eq_true hdue)
  exact Duration.not_le.mpr h hsooner

end Pacing

/-- The number of commands up to the first that is blocked, itself included. -/
def Level.stretch (l : Level) (cs : List Command) : Nat :=
  min cs.length (((Rocket.atStart l).outcomes l cs).findIdx (· = .blocked) + 1)

theorem Rocket.applied_follow (l : Level) (r : Rocket) (index : Nat) (cs : List Command) :
    (r.follow l index cs).applied =
      index + min cs.length ((r.outcomes l cs).findIdx (· = .blocked) + 1) := by
  induction cs generalizing r index with
  | nil => rw [follow, List.length_nil, Nat.zero_min, Nat.add_zero]
  | cons c rest ih =>
    rw [follow, outcomes, List.findIdx_cons, List.length_cons]
    by_cases hblocked : (r.apply l c).outcome = .blocked
    · simp [hblocked]
    · simp only [hblocked, if_false, decide_false, cond_false, ih]
      omega

/-- What a paced run fires, and when. The announcement is not a part of it. -/
def Firing.item? (f : Firing) : Option (Continuation × Duration) :=
  if f.timer.payload = .curriculumCompleted then none else some (f.timer.payload, f.clock)

theorem Firing.clock_of_item? {f : Firing} {e : Continuation × Duration}
    (h : f.item? = some e) : e.2 = f.clock := by
  rw [item?] at h
  split at h
  · cases h
  · cases h
    rfl

namespace Session

variable {s : Session} {source : Source} {start time early late : Duration} {m : Nat}
  {u : Timer Continuation} {agenda : Agenda Continuation}

/-- The timers that fire while time passes in slices. -/
def lapse (s : Session) : List Duration → List Firing
  | [] => []
  | d :: ds => s.firings (s.agenda.now + d) ++ (s.advance d).session.lapse ds

theorem firings_firings (hle : early ≤ late) (s : Session) :
    s.firings early ++ (s.runTo early).session.firings late = s.firings late := by
  fun_induction firings early s with
  | case1 s h =>
    rw [runTo_of_none h, List.nil_append]
    have hsettled := Agenda.popDue_settle h late
    cases hl : s.agenda.popDue late with
    | none => rw [firings_of_none hl, firings_of_none (hsettled.trans hl)]
    | some r =>
      rw [firings_of_some hl, firings_of_some (hsettled.trans hl)]
      rfl
  | case2 s u agenda h e ih =>
    rw [firings_of_some (Agenda.popDue_mono hle h), runTo_of_some h, List.cons_append, ← ih]
    rfl

theorem lapse_cons (s : Session) (d : Duration) (ds : List Duration) :
    s.lapse (d :: ds) = s.firings (s.agenda.now + Duration.total (d :: ds)) := by
  induction ds generalizing s d with
  | nil =>
    have htotal : Duration.total [d] = d := Duration.add_zero d
    rw [htotal, lapse, lapse, List.append_nil]
  | cons e rest ih =>
    have hsum : s.agenda.now + Duration.total (d :: e :: rest) =
        s.agenda.now + d + Duration.total (e :: rest) := (Duration.add_assoc ..).symm
    rw [lapse, ih, now_advance, hsum, advance]
    exact firings_firings (Duration.le_self_add ..) s

/-- A paced run of `m` commands that was begun at `start`, and is neither late nor early. -/
structure OnTime (start : Duration) (m : Nat) (s : Session) : Prop where
  begun : s.pacing.commandDue start s.run.cursor ≤ s.agenda.now
  going : s.status = .running → s.ahead.applied = m ∧ ∃ u, s.agenda.pending = [u] ∧
    (u.payload = .applyNext ∧ s.run.cursor < m ∧
        u.due = s.pacing.commandDue start (s.run.cursor + 1) ∨
      u.payload = .evaluate ∧ s.run.cursor = m ∧ u.due = s.pacing.judgementDue start m)
  ended : s.status ≠ .running → s.run.cursor = m ∧ s.pacing.judgementDue start m ≤ s.agenda.now

/-- The entries of the timetable that are still to come. -/
def toCome (start : Duration) (m : Nat) (s : Session) : List (Continuation × Duration) :=
  if s.status = .running then
    s.pacing.timetable start (s.run.cursor + 1) (m - s.run.cursor)
  else []

theorem cursor_lt_ahead (more : s.run.isOver = false) : s.run.cursor < s.ahead.applied := by
  obtain ⟨hfree, hlt⟩ := Run.isOver_eq_false.mp more
  have hleft : 0 < (s.run.queue.drop s.run.cursor).length := by
    rw [List.length_drop]
    omega
  simp only [ahead, hfree, Bool.false_eq_true, if_false, Rocket.applied_follow]
  omega

theorem OnTime.scheduleNext (begun : s.pacing.commandDue start s.run.cursor = s.agenda.now)
    (running : s.status = .running) (ahead : s.ahead.applied = m)
    (clear : s.agenda.pending = []) : s.scheduleNext.OnTime start m := by
  rw [Session.scheduleNext]
  by_cases hover : s.run.isOver = true
  · have hlast : s.run.cursor = m := by
      rw [ahead_of_over hover] at ahead
      exact ahead
    rw [if_pos hover]
    constructor
    · exact Nat.le_of_eq (congrArg Duration.nanos begun)
    · intro _
      refine ⟨ahead, _, pending_schedule clear .., Or.inr ⟨rfl, hlast, ?_⟩⟩
      change s.agenda.now + _ = s.pacing.judgementDue start m
      rw [Pacing.judgementDue, ← hlast, begun]
    · exact fun rest => absurd running rest
  · have hmore := Bool.eq_false_iff.mpr hover
    have hlt := cursor_lt_ahead hmore
    rw [ahead] at hlt
    rw [if_neg hover]
    constructor
    · exact Nat.le_of_eq (congrArg Duration.nanos begun)
    · intro _
      refine ⟨ahead, _, pending_schedule clear .., Or.inl ⟨rfl, hlt, ?_⟩⟩
      change s.agenda.now + _ = _
      rw [← begun]
      exact Pacing.commandDue_succ.symm
    · exact fun rest => absurd running rest

theorem OnTime.fire_applyNext (k : s.OnTime start m) (running : s.status = .running)
    (more : s.run.isOver = false) (pending : s.agenda.pending = [u])
    (apply : u.payload = .applyNext) (now : agenda.now = u.due) (clear : agenda.pending = []) :
    let t := (Session.applyNext { s with agenda }).session.scheduleNext
    t.OnTime start m ∧ s.toCome start m = (.applyNext, agenda.now) :: t.toCome start m := by
  obtain ⟨hahead, w, hw, halt⟩ := k.going running
  obtain rfl : u = w := List.singleton_inj.mp (pending.symm.trans hw)
  rcases halt with ⟨_, hlt, hdue⟩ | ⟨hevaluate, _⟩
  · obtain ⟨_, hqueue⟩ := Run.isOver_eq_false.mp more
    have hafter := (applyNext_eq (s := { s with agenda }) (List.getElem?_eq_getElem hqueue)).1
    have hahead : (Session.applyNext { s with agenda }).session.ahead.applied = m := by
      rw [← hahead]
      exact (congrArg Course.applied (ahead_applyNext (s := { s with agenda }) more)).symm
    have hdue : agenda.now = s.pacing.commandDue start (s.run.cursor + 1) := now.trans hdue
    intro t
    have hsame : t.status = .running ∧ t.pacing = s.pacing ∧ t.run.cursor = s.run.cursor + 1 := by
      simp only [t, Session.scheduleNext, hafter]
      split <;> exact ⟨running, rfl, rfl⟩
    constructor
    · apply OnTime.scheduleNext _ _ hahead
      · rw [agenda_applyNext, clear]
      · rw [hafter]
        exact hdue.symm
      · rw [status_applyNext]
        exact running
    · obtain ⟨hstatus, hpacing, hcursor⟩ := hsame
      have hleft : m - s.run.cursor = m - (s.run.cursor + 1) + 1 := by omega
      rw [toCome, toCome, if_pos running, if_pos hstatus, hpacing, hcursor, hleft,
        Pacing.timetable_succ, hdue]
  · rw [apply] at hevaluate
    cases hevaluate

theorem OnTime.fire_evaluate (k : s.OnTime start m) (running : s.status = .running)
    (pending : s.agenda.pending = [u]) (judge : u.payload = .evaluate)
    (now : agenda.now = u.due) :
    let t := (Session.conclude { s with agenda }).session
    t.OnTime start m ∧ s.toCome start m = [(.evaluate, agenda.now)] ∧ t.toCome start m = [] := by
  obtain ⟨_, w, hw, halt⟩ := k.going running
  obtain rfl : u = w := List.singleton_inj.mp (pending.symm.trans hw)
  rcases halt with ⟨happly, _⟩ | ⟨_, hlast, hdue⟩
  · rw [judge] at happly
    cases happly
  · have hdue : agenda.now = s.pacing.judgementDue start m := now.trans hdue
    intro t
    have hrest : t.status ≠ .running := status_conclude_ne _
    have hsame : t.pacing = s.pacing ∧ t.run.cursor = s.run.cursor ∧ t.agenda.now = agenda.now := by
      simp only [t, conclude_session]
      split <;> exact ⟨rfl, rfl, rfl⟩
    obtain ⟨hpacing, hcursor, hclock⟩ := hsame
    refine ⟨⟨?_, fun h => absurd h hrest, fun _ => ⟨hcursor.trans hlast, ?_⟩⟩, ?_, ?_⟩
    · rw [hpacing, hcursor, hclock, hlast, hdue]
      exact Pacing.commandDue_le_judgementDue (Nat.le_refl m)
    · rw [hpacing, hclock, hdue]
      exact Duration.le_refl _
    · rw [toCome, if_pos running, hlast, Nat.sub_self, Pacing.timetable_zero, hdue]
    · rw [toCome, if_neg hrest]

theorem OnTime.fire (k : s.OnTime start m) (h : s.Coherent)
    (due : s.agenda.popDue time = some (u, agenda)) :
    (s.fireTimer u agenda).session.OnTime start m ∧
      s.toCome start m =
        (Firing.item? ⟨agenda.now, u, (s.fireTimer u agenda).events⟩).toList ++
          (s.fireTimer u agenda).session.toCome start m := by
  obtain ⟨hawaits, hpending, hclear⟩ := h.awaits due
  obtain ⟨hnow, hlater, _⟩ := h.now_of_popDue due
  rw [Firing.item?, fireTimer]
  generalize hc : u.payload = c at hawaits
  cases hawaits with
  | applyNext running paced more =>
    exact k.fire_applyNext running more hpending hc hnow hclear
  | evaluate running done =>
    obtain ⟨htime, hcome, hnone⟩ := k.fire_evaluate running hpending hc hnow
    refine ⟨htime, ?_⟩
    rw [hcome]
    exact congrArg ((Continuation.evaluate, agenda.now) :: ·) hnone.symm
  | step running =>
    obtain ⟨_, w, hw, halt⟩ := k.going running
    obtain rfl : u = w := List.singleton_inj.mp (hpending.symm.trans hw)
    rcases halt with ⟨hp, _⟩ | ⟨hp, _⟩
    · rw [hc] at hp
      cases hp
    · rw [hc] at hp
      cases hp
  | curriculumCompleted completed =>
    have hrest : s.status ≠ .running := by simp [completed]
    obtain ⟨hlast, hjudged⟩ := k.ended hrest
    rw [← hnow] at hlater
    refine ⟨⟨Duration.le_trans k.begun hlater, fun h => absurd h hrest, fun _ => ?_⟩, ?_⟩
    · exact ⟨hlast, Duration.le_trans hjudged hlater⟩
    · rfl

theorem OnTime.runTo (k : s.OnTime start m) (h : s.Coherent) (time : Duration) :
    (s.runTo time).session.OnTime start m ∧
      (s.firings time).filterMap Firing.item? = (s.toCome start m).filter (·.2 ≤ time) := by
  -- Each firing takes the first entry away. When none is due any more, no entry is either.
  fun_induction firings time s with
  | case1 s hnone =>
    have hlate := Agenda.popDue_eq_none.mp hnone
    have hlater : s.agenda.now ≤ (s.agenda.settle time).now := Duration.le_max_left ..
    rw [runTo_of_none hnone]
    constructor
    · refine ⟨Duration.le_trans k.begun hlater, k.going, fun hrest => ?_⟩
      obtain ⟨hlast, hjudged⟩ := k.ended hrest
      exact ⟨hlast, Duration.le_trans hjudged hlater⟩
    · rw [toCome]
      by_cases hrun : s.status = .running
      · obtain ⟨_, w, hw, halt⟩ := k.going hrun
        have hw' := hlate w (by simp [hw])
        rw [if_pos hrun]
        rcases halt with ⟨_, hlt, hdue⟩ | ⟨_, hlast, hdue⟩
        · rw [Pacing.timetable_late (hdue ▸ hw') (by omega)]
          rfl
        · rw [hlast, Nat.sub_self, Pacing.timetable_zero, ← hdue]
          simp [Duration.not_le.mpr hw']
      · rw [if_neg hrun]
        rfl
  | case2 s u agenda hdue e ih =>
    obtain ⟨htime, hcome⟩ := k.fire h hdue
    obtain ⟨hafter, hrest⟩ := ih htime (h.fire hdue)
    rw [runTo_of_some hdue]
    refine ⟨hafter, ?_⟩
    obtain ⟨hnow, _, hreached⟩ := h.now_of_popDue hdue
    have hkept : ∀ x ∈ (Firing.item? ⟨agenda.now, u, e.events⟩).toList,
        decide (x.2 ≤ time) = true := by
      intro x hx
      have hclock := Firing.clock_of_item? (Option.mem_toList.mp hx)
      rw [hclock, hnow]
      exact decide_eq_true hreached
    rw [hcome, List.filter_append, List.filter_eq_self.mpr hkept, ← hrest, List.filterMap_cons]
    cases Firing.item? ⟨agenda.now, u, e.events⟩ <;> rfl

theorem launched_onTime (s : Session) {queue : List Command} (nonempty : queue ≠ []) :
    (s.launched .paced queue).OnTime s.agenda.now (s.level.stretch queue) ∧
      (s.launched .paced queue).toCome s.agenda.now (s.level.stretch queue) =
        s.pacing.timetable s.agenda.now 1 (s.level.stretch queue) := by
  have hlength : 0 < queue.length := List.length_pos_iff.mpr nonempty
  have hsome : 0 < s.level.stretch queue := by
    rw [Level.stretch]
    omega
  have hahead : (s.launched .paced queue).ahead.applied = s.level.stretch queue := by
    have hcourse := Rocket.follow_running s.level (.atStart s.level) true 0 queue
    have happlied := Rocket.applied_follow s.level (.atStart s.level) 0 queue
    rw [Nat.zero_add] at happlied
    exact (congrArg Course.applied hcourse).trans happlied
  have hfirst : s.agenda.now + .ofMillis s.pacing.commandInterval =
      s.pacing.commandDue s.agenda.now 1 := by
    rw [Pacing.commandDue_succ, Pacing.commandDue_zero]
  refine ⟨⟨?_, ?_, fun rest => absurd rfl rest⟩, rfl⟩
  · exact Nat.le_of_eq (congrArg Duration.nanos Pacing.commandDue_zero)
  · intro _
    exact ⟨hahead, _, rfl, Or.inl ⟨rfl, hsome, hfirst⟩⟩

/-- How far a paced run has come after time that has passed in these slices. -/
structure KeepsTime (s : Session) (source : Source) (spans : List Duration) : Prop where
  cursor : (s.pacedRun source spans).session.run.cursor =
    (List.range' 1 (s.level.stretch source.queue)).countP fun k =>
      s.pacing.commandDue s.agenda.now k ≤ s.agenda.now + Duration.total spans
  judged : (∃ v, .goalEvaluated v ∈ (s.pacedRun source spans).events) ↔
    s.pacing.judgementDue s.agenda.now (s.level.stretch source.queue) ≤
      s.agenda.now + Duration.total spans
  /-- What is told after the start of the run is told by the timers that fire. -/
  told : (s.pacedRun source spans).events =
    (s.runAll source).events ++ ((s.runAll source).session.lapse spans).flatMap Firing.events
  /-- Every command and the judgement fire at their time, and at no other. -/
  punctual : ((s.runAll source).session.lapse spans).filterMap Firing.item? =
    (s.pacing.timetable s.agenda.now 1 (s.level.stretch source.queue)).filter
      (·.2 ≤ s.agenda.now + Duration.total spans)

theorem OnTime.cursor_eq (k : s.OnTime start m) (rest : s.agenda.popDue s.agenda.now = none) :
    s.run.cursor =
      (List.range' 1 m).countP fun l => s.pacing.commandDue start l ≤ s.agenda.now := by
  symm
  by_cases hrun : s.status = .running
  · obtain ⟨_, w, hw, halt⟩ := k.going hrun
    have hlate := Agenda.popDue_eq_none.mp rest w (by simp [hw])
    rcases halt with ⟨_, hlt, hdue⟩ | ⟨_, hlast, _⟩
    · exact Pacing.countP_commandDue (Nat.le_of_lt hlt) k.begun (Or.inr (hdue ▸ hlate))
    · exact Pacing.countP_commandDue (Nat.le_of_eq hlast) k.begun (Or.inl hlast)
  · obtain ⟨hlast, _⟩ := k.ended hrun
    exact Pacing.countP_commandDue (Nat.le_of_eq hlast) k.begun (Or.inl hlast)

theorem OnTime.rest_iff (k : s.OnTime start m) (rest : s.agenda.popDue s.agenda.now = none) :
    s.status ≠ .running ↔ s.pacing.judgementDue start m ≤ s.agenda.now := by
  constructor
  · exact fun hrest => (k.ended hrest).2
  · intro hjudged hrun
    obtain ⟨_, w, hw, halt⟩ := k.going hrun
    have hlate := Agenda.popDue_eq_none.mp rest w (by simp [hw])
    have hdue : w.due ≤ s.pacing.judgementDue start m := by
      rcases halt with ⟨_, hlt, hdue⟩ | ⟨_, _, hdue⟩
      · rw [hdue]
        exact Pacing.commandDue_le_judgementDue hlt
      · rw [hdue]
        exact Duration.le_refl _
    exact Duration.not_le.mpr hlate (Duration.le_trans hdue hjudged)

theorem pacedRun_eq (idle : s.status ≠ .running) (nonempty : source.queue ≠ []) (d : Duration)
    (ds : List Duration) :
    let t := s.launched .paced source.queue
    (s.pacedRun source (d :: ds)).session = (t.advance (Duration.total (d :: ds))).session ∧
      (s.pacedRun source (d :: ds)).events =
        [.levelReset s.level.id, .runStarted .paced source.queue.length] ++
          (t.advance (Duration.total (d :: ds))).events := by
  obtain ⟨hsession, hevents⟩ := runAll_eq idle nonempty
  dsimp only
  rw [← handleAll_advance]
  simp only [pacedRun, handleAll, handle, Effect.andThen, hsession, hevents, and_self]

/-- Whatever the delays are and however the time is cut up, a paced run is at every moment as far as
its timetable says. -/
theorem paced_run_keeps_time (s : Session) (source : Source) (idle : s.status ≠ .running)
    (nonempty : source.queue ≠ []) (first : Duration) (more : List Duration) :
    s.KeepsTime source (first :: more) := by
  obtain ⟨hbegun, htold⟩ := runAll_eq idle nonempty
  obtain ⟨hsession, hevents⟩ := pacedRun_eq idle nonempty first more
  obtain ⟨honTime, hcome⟩ := s.launched_onTime nonempty
  have hcoherent := s.launched_coherent .paced nonempty
  obtain ⟨hlast, hfirings⟩ := honTime.runTo hcoherent
    (s.agenda.now + Duration.total (first :: more))
  have hturns := (s.launched .paced source.queue).advance_turns (Duration.total (first :: more))
  have hcarries := hcoherent.carriesOn_turns hturns
  have hpacing : ((s.launched .paced source.queue).advance
      (Duration.total (first :: more))).session.pacing = s.pacing := hcarries.pacing
  have hnow : ((s.launched .paced source.queue).advance
      (Duration.total (first :: more))).session.agenda.now =
        s.agenda.now + Duration.total (first :: more) := now_advance ..
  have hrest := popDue_runTo (s.agenda.now + Duration.total (first :: more))
    (s.launched .paced source.queue)
  change OnTime _ _ ((s.launched .paced source.queue).advance _).session at hlast
  change ((s.launched .paced source.queue).advance _).session.agenda.popDue _ = none at hrest
  rw [← hnow] at hrest
  constructor
  · rw [hsession, hlast.cursor_eq hrest, hpacing, hnow]
  · have hjudged := (CarriesOn.judges_iff hcarries).trans (and_iff_right rfl)
    rw [hevents, ← hpacing, ← hnow, ← hlast.rest_iff hrest, ← hjudged]
    simp
  · rw [lapse_cons, events_firings, hbegun, hevents, htold]
    rfl
  · rw [hbegun, lapse_cons, ← hcome]
    exact hfirings

/-- A run that stops at the rim of its level, begun when all time is over. -/
theorem paced_run_keeps_time_at_the_end :
    let s := ((Session.new corridors {}).advance .longest).session
    let source : Source := .commands [.move, .move, .move, .turnLeft]
    s.status ≠ .running ∧ source.queue ≠ [] ∧ s.level.stretch source.queue = 3 ∧
      s.KeepsTime source [.zero] := by
  intro s source
  have hidle : s.status ≠ .running := by decide +kernel
  have hqueue : source.queue ≠ [] := by decide
  have hstretch : s.level.stretch source.queue = 3 := by decide +kernel
  exact ⟨hidle, hqueue, hstretch, paced_run_keeps_time s source hidle hqueue .zero []⟩

/-- The second command falls due in the middle of the last slice, the judgement after it. -/
example :
    let e := (Session.new corridors {}).pacedRun (.commands [.move, .move])
      [.ofMillis 1000, .ofMillis 1000]
    e.session.run.cursor = 2 ∧ e.session.status = .running := by
  decide +kernel

end Session

end RocketPuzzle
