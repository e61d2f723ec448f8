import Mathlib.Tactic.ByContra
import RocketPuzzle.Proofs.Agenda

/-! # What becomes of a timer

A timer that has been set waits until it fires or is cancelled, whichever comes first, and is not
heard of again. Over the whole life of an agenda the timers fire in the order of their due times,
and those that are due at the same moment in the order in which they were set, however the clock is
moved and whatever is set in between.
-/
namespace RocketPuzzle

namespace Timer

variable {α : Type} {time d : Duration} {l others : List (Timer α)} {t u w : Timer α}

theorem before_iff : t.Before u ↔
    t.due.nanos < u.due.nanos ∨ t.due.nanos = u.due.nanos ∧ t.id < u.id := by
  have heq : t.due = u.due ↔ t.due.nanos = u.due.nanos :=
    ⟨congrArg Duration.nanos, Duration.ext⟩
  simp only [Before, Duration.lt_def, heq]

theorem not_before_trans (h : ¬ u.Before t) (k : ¬ w.Before u) : ¬ w.Before t := by
  rw [before_iff] at *
  omega

theorem Before.asymm (h : t.Before u) : ¬ u.Before t := by
  rw [before_iff] at *
  omega

/-- Of two timers with different numbers one fires first. -/
theorem before_of_not_before (h : ¬ u.Before t) (apart : u.id ≠ t.id) : t.Before u := by
  rw [before_iff] at *
  omega

/-- `t` fires first of all timers in `l`. -/
def FirstIn (t : Timer α) (l : List (Timer α)) : Prop := t ∈ l ∧ ∀ u ∈ l, u ≠ t → t.Before u

theorem FirstIn.eq (h : t.FirstIn l) (k : u.FirstIn l) : t = u := by
  by_contra hne
  exact (h.2 u k.1 (Ne.symm hne)).asymm (k.2 t h.1 hne)

theorem not_before_of_takeDue (h : takeDue time l = some (t, others)) :
    ∀ u ∈ others, ¬ u.Before t := by
  induction l generalizing t others with
  | nil => simp [takeDue] at h
  | cons s rest ih =>
    unfold takeDue at h
    split at h
    · next hnone =>
      split at h
      · next hs =>
        cases h
        intro u hu
        have hlate := takeDue_eq_none.mp hnone u hu
        exact not_before_of_due_lt (Duration.lt_of_le_of_lt hs hlate)
      · cases h
    · next v left hv =>
      split at h
      · next hs =>
        cases h
        intro u hu
        rcases List.mem_cons.mp ((takeDue_perm hv).mem_iff.mp hu) with rfl | hu
        · exact hs.2
        · exact not_before_trans hs.2 (ih hv u hu)
      · next hs =>
        cases h
        intro u hu
        rcases List.mem_cons.mp hu with rfl | hu
        · by_cases hdue : u.due ≤ time
          · have hfirst : t.Before u := by
              by_contra hnot
              exact hs ⟨hdue, hnot⟩
            exact hfirst.asymm
          · exact not_before_of_due_lt
              (Duration.lt_of_le_of_lt (due_of_takeDue hv) (Duration.not_le.mp hdue))
        · exact ih hv u hu

theorem firstIn_of_takeDue (distinct : (l.map Timer.id).Nodup)
    (h : takeDue time l = some (t, others)) : t.FirstIn l := by
  have hperm := takeDue_perm h
  refine ⟨mem_of_takeDue h, ?_⟩
  intro u hu hne
  have hother : u ∈ others := by
    rcases List.mem_cons.mp (hperm.mem_iff.mp hu) with rfl | hother
    · exact absurd rfl hne
    · exact hother
  have hids := (hperm.map Timer.id).nodup_iff.mp distinct
  have hapart : u.id ≠ t.id := by
    intro hid
    exact (List.nodup_cons.mp hids).1 (hid ▸ List.mem_map_of_mem hother)
  exact before_of_not_before (not_before_of_takeDue h u hother) hapart

theorem nextDue_eq_none : nextDue l = none ↔ l = [] := by
  cases l with
  | nil => simp [nextDue]
  | cons t rest =>
    rw [nextDue]
    cases nextDue rest with
    | none => simp
    | some d =>
      dsimp only
      split <;> simp

theorem least_of_nextDue (h : nextDue l = some d) :
    (∃ t ∈ l, t.due = d) ∧ ∀ t ∈ l, d ≤ t.due := by
  induction l generalizing d with
  | nil => simp [nextDue] at h
  | cons s rest ih =>
    rw [nextDue] at h
    cases hr : nextDue rest with
    | none =>
      rw [hr] at h
      cases h
      rw [nextDue_eq_none.mp hr]
      simp [Duration.le_refl]
    | some e =>
      obtain ⟨⟨t, ht, rfl⟩, hall⟩ := ih hr
      rw [hr] at h
      by_cases hs : s.due ≤ t.due
      · simp only [hs, if_true, Option.some.injEq] at h
        subst h
        refine ⟨⟨s, List.mem_cons_self .., rfl⟩, ?_⟩
        intro u hu
        rcases List.mem_cons.mp hu with rfl | hu
        · exact Duration.le_refl _
        · exact Duration.le_trans hs (hall u hu)
      · simp only [hs, if_false, Option.some.injEq] at h
        subst h
        refine ⟨⟨t, List.mem_cons_of_mem _ ht, rfl⟩, ?_⟩
        intro u hu
        rcases List.mem_cons.mp hu with rfl | hu
        · exact Duration.le_of_lt (Duration.not_le.mp hs)
        · exact hall u hu

/-- The next due time is the earliest of all. -/
theorem nextDue_eq_some :
    nextDue l = some d ↔ (∃ t ∈ l, t.due = d) ∧ ∀ t ∈ l, d ≤ t.due := by
  refine ⟨least_of_nextDue, ?_⟩
  rintro ⟨⟨t, ht, rfl⟩, hall⟩
  cases hn : nextDue l with
  | none =>
    rw [nextDue_eq_none.mp hn] at ht
    cases ht
  | some e =>
    obtain ⟨⟨u, hu, rfl⟩, hleast⟩ := least_of_nextDue hn
    have heq : u.due = t.due := Duration.ext (Nat.le_antisymm (hleast t ht) (hall u hu))
    rw [heq]

end Timer

namespace Agenda

variable {α : Type}

/-- What can be asked of an agenda. -/
inductive Call (α : Type) where
  | schedule (delay : Duration) (payload : α)
  | popDue (time : Duration)
  | cancelAll
  | settle (time : Duration)
  deriving Repr

/-- An agenda, and what has become of the timers that were set on it. -/
structure History (α : Type) where
  agenda : Agenda α := {}
  scheduled : List (Timer α) := []
  fired : List (Timer α) := []
  cancelled : List (Timer α) := []
  deriving Repr

namespace History

variable {h : History α} {t : Timer α} {b : Agenda α} {time : Duration}

/-- The timers are numbered in the order in which they are set, and a delay counts from where the
clock stands. -/
def ask (h : History α) : Call α → History α
  | .schedule delay payload =>
    { h with
      agenda := h.agenda.schedule delay payload
      scheduled := h.scheduled ++ [⟨h.scheduled.length, h.agenda.now + delay, payload⟩] }
  | .popDue time =>
    match h.agenda.popDue time with
    | none => h
    | some (t, agenda) => { h with agenda, fired := h.fired ++ [t] }
  | .cancelAll =>
    { h with agenda := h.agenda.cancelAll, cancelled := h.cancelled ++ h.agenda.pending }
  | .settle time => { h with agenda := h.agenda.settle time }

/-- The history of a new agenda. -/
def of (calls : List (Call α)) : History α := calls.foldl ask {}

theorem of_append (calls more : List (Call α)) :
    of (calls ++ more) = more.foldl ask (of calls) := List.foldl_append

/-- What every call keeps: each timer is in one place, and whatever waits comes after whatever has
fired. -/
structure Sound (h : History α) : Prop where
  next : h.agenda.nextId = h.scheduled.length
  numbered : h.scheduled.map Timer.id = List.range h.scheduled.length
  accounted : h.scheduled.Perm (h.fired ++ h.cancelled ++ h.agenda.pending)
  sorted : h.fired.Pairwise Timer.Before
  waiting : ∀ t ∈ h.fired, ∀ u ∈ h.agenda.pending, t.Before u
  past : ∀ t ∈ h.fired, t.due ≤ h.agenda.now

namespace Sound

theorem id_lt (k : h.Sound) {t : Timer α} (ht : t ∈ h.scheduled) : t.id < h.scheduled.length := by
  have hid : t.id ∈ h.scheduled.map Timer.id := List.mem_map_of_mem ht
  rw [k.numbered] at hid
  exact List.mem_range.mp hid

theorem mem_scheduled (k : h.Sound) :
    t ∈ h.scheduled ↔ t ∈ h.fired ∨ t ∈ h.cancelled ∨ t ∈ h.agenda.pending := by
  rw [k.accounted.mem_iff]
  simp

/-- No two timers have the same number, wherever they are. -/
theorem distinct (k : h.Sound) :
    ((h.fired ++ h.cancelled ++ h.agenda.pending).map Timer.id).Nodup := by
  rw [← (k.accounted.map Timer.id).nodup_iff, k.numbered]
  exact List.nodup_range

theorem distinct_pending (k : h.Sound) : (h.agenda.pending.map Timer.id).Nodup := by
  have hall := k.distinct
  rw [List.map_append] at hall
  exact (List.nodup_append.mp hall).2.1

theorem new : Sound ({} : History α) := by
  constructor <;> simp

theorem schedule (k : h.Sound) (delay : Duration) (payload : α) :
    (h.ask (.schedule delay payload)).Sound := by
  have hpending : (h.ask (.schedule delay payload)).agenda.pending =
      h.agenda.pending ++ [⟨h.scheduled.length, h.agenda.now + delay, payload⟩] := by
    simp [ask, Agenda.schedule, k.next]
  constructor
  · simp [ask, Agenda.schedule, k.next]
  · simp [ask, k.numbered, List.range_succ]
  · rw [hpending, ← List.append_assoc]
    exact k.accounted.append_right _
  · exact k.sorted
  · intro t ht u hu
    rw [hpending] at hu
    rcases List.mem_append.mp hu with hu | hu
    · exact k.waiting t ht u hu
    · -- The new timer is due at the present moment at the earliest, and has the highest number.
      rw [List.mem_singleton.mp hu, Timer.before_iff]
      have hdue := Duration.le_trans (k.past t ht) (Duration.le_self_add h.agenda.now delay)
      have hid := k.id_lt (k.mem_scheduled.mpr (Or.inl ht))
      rw [Duration.le_def] at hdue
      dsimp only
      omega
  · exact k.past

theorem popDue (k : h.Sound) (time : Duration) : (h.ask (.popDue time)).Sound := by
  cases hpop : h.agenda.popDue time with
  | none =>
    rw [ask, hpop]
    exact k
  | some r =>
    obtain ⟨t, b⟩ := r
    obtain ⟨others, htake, rfl⟩ := popDue_eq_some.mp hpop
    have hperm := Timer.takeDue_perm htake
    have hfirst := Timer.firstIn_of_takeDue k.distinct_pending htake
    have hids := (hperm.map Timer.id).nodup_iff.mp k.distinct_pending
    rw [ask, hpop]
    constructor
    · exact k.next
    · exact k.numbered
    · have hmove := (hperm.append_left (h.fired ++ h.cancelled)).trans List.perm_middle
      have hback : (h.fired ++ [t] ++ h.cancelled ++ others).Perm
          (t :: (h.fired ++ h.cancelled ++ others)) := by simp
      exact k.accounted.trans (hmove.trans hback.symm)
    · refine List.pairwise_append.mpr ⟨k.sorted, List.pairwise_singleton .., ?_⟩
      intro u hu v hv
      rw [List.mem_singleton.mp hv]
      exact k.waiting u hu t hfirst.1
    · intro u hu v hv
      have hpending : v ∈ h.agenda.pending := hperm.mem_iff.mpr (List.mem_cons_of_mem _ hv)
      rcases List.mem_append.mp hu with hu | hu
      · exact k.waiting u hu v hpending
      · rw [List.mem_singleton.mp hu]
        apply hfirst.2 v hpending
        rintro rfl
        exact (List.nodup_cons.mp hids).1 (List.mem_map_of_mem hv)
    · intro u hu
      rcases List.mem_append.mp hu with hu | hu
      · exact Duration.le_trans (k.past u hu) (Duration.le_max_left ..)
      · rw [List.mem_singleton.mp hu]
        exact Duration.le_max_right ..

theorem cancelAll (k : h.Sound) : (h.ask .cancelAll).Sound where
  next := k.next
  numbered := k.numbered
  accounted := by simpa [History.ask, Agenda.cancelAll] using k.accounted
  sorted := k.sorted
  waiting := by simp [ask, Agenda.cancelAll]
  past := k.past

theorem settle (k : h.Sound) (time : Duration) : (h.ask (.settle time)).Sound where
  next := k.next
  numbered := k.numbered
  accounted := k.accounted
  sorted := k.sorted
  waiting := k.waiting
  past := fun t ht => Duration.le_trans (k.past t ht) (Duration.le_max_left ..)

theorem ask (k : h.Sound) (c : Call α) : (h.ask c).Sound := by
  cases c with
  | schedule delay payload => exact k.schedule delay payload
  | popDue time => exact k.popDue time
  | cancelAll => exact k.cancelAll
  | settle time => exact k.settle time

theorem foldl (k : h.Sound) (calls : List (Call α)) : (calls.foldl History.ask h).Sound := by
  induction calls generalizing h with
  | nil => exact k
  | cons c rest ih => exact ih (k.ask c)

end Sound

/-- `k` is a later stage of the history `h`. -/
structure Continues (h k : History α) : Prop where
  scheduled : h.scheduled <+: k.scheduled
  fired : h.fired <+: k.fired
  cancelled : h.cancelled <+: k.cancelled
  now : h.agenda.now ≤ k.agenda.now

namespace Continues

theorem refl (h : History α) : Continues h h :=
  ⟨List.prefix_rfl, List.prefix_rfl, List.prefix_rfl, Duration.le_refl _⟩

theorem trans {h k m : History α} (a : Continues h k) (b : Continues k m) : Continues h m :=
  ⟨a.scheduled.trans b.scheduled, a.fired.trans b.fired, a.cancelled.trans b.cancelled,
    Duration.le_trans a.now b.now⟩

theorem ask (h : History α) (c : Call α) : Continues h (h.ask c) := by
  cases c with
  | schedule =>
    exact ⟨List.prefix_append .., List.prefix_rfl, List.prefix_rfl, Duration.le_refl _⟩
  | popDue time =>
    cases hpop : h.agenda.popDue time with
    | none =>
      rw [History.ask, hpop]
      exact .refl h
    | some r =>
      obtain ⟨t, b⟩ := r
      obtain ⟨others, _, rfl⟩ := popDue_eq_some.mp hpop
      rw [History.ask, hpop]
      exact ⟨List.prefix_rfl, List.prefix_append .., List.prefix_rfl, Duration.le_max_left ..⟩
  | cancelAll =>
    exact ⟨List.prefix_rfl, List.prefix_rfl, List.prefix_append .., Duration.le_refl _⟩
  | settle =>
    exact ⟨List.prefix_rfl, List.prefix_rfl, List.prefix_rfl, Duration.le_max_left ..⟩

theorem foldl (h : History α) (calls : List (Call α)) :
    Continues h (calls.foldl History.ask h) := by
  induction calls generalizing h with
  | nil => exact .refl h
  | cons c rest ih => exact (ask h c).trans (ih _)

end Continues

end History

open History

/-- What can be relied on after a row of calls on a new agenda. -/
structure Delivers (calls : List (Call α)) : Prop where
  /-- A timer is due when its delay has passed, at the end of all time at the latest. -/
  due : ∀ before delay payload after, calls = before ++ .schedule delay payload :: after →
    ∃ t, (of calls).scheduled[(of before).scheduled.length]? = some t ∧
      t.id = (of before).scheduled.length ∧ t.payload = payload ∧
      t.due.nanos = min ((of before).agenda.now.nanos + delay.nanos) Duration.longest.nanos
  accounted : (of calls).scheduled.Perm
    ((of calls).fired ++ (of calls).cancelled ++ (of calls).agenda.pending)
  apart : ((of calls).fired ++ (of calls).cancelled ++ (of calls).agenda.pending).Nodup
  final : ∀ more, (of calls).fired <+: (of (calls ++ more)).fired ∧
    (of calls).cancelled <+: (of (calls ++ more)).cancelled
  sorted : (of calls).fired.Pairwise Timer.Before
  pops : ∀ time t, ((of calls).agenda.popDue time).map Prod.fst = some t ↔
    t.FirstIn (of calls).agenda.pending ∧ t.due ≤ time
  quiet : ∀ time, (of calls).agenda.popDue time = none ↔
    ∀ t ∈ (of calls).agenda.pending, time < t.due
  next : ∀ d, (of calls).agenda.nextDue = some d ↔
    (∃ t ∈ (of calls).agenda.pending, t.due = d) ∧ ∀ t ∈ (of calls).agenda.pending, d ≤ t.due
  clock : ∀ more, (of calls).agenda.now ≤ (of (calls ++ more)).agenda.now

theorem map_popDue_eq_some {a : Agenda α} {t : Timer α} {time : Duration}
    (distinct : (a.pending.map Timer.id).Nodup) :
    (a.popDue time).map Prod.fst = some t ↔ t.FirstIn a.pending ∧ t.due ≤ time := by
  cases hpop : a.popDue time with
  | none =>
    have hlate := popDue_eq_none.mp hpop
    simp only [Option.map_none, reduceCtorEq, false_iff, not_and]
    intro hfirst
    exact Duration.not_le.mpr (hlate t hfirst.1)
  | some r =>
    obtain ⟨u, b⟩ := r
    obtain ⟨others, htake, _⟩ := popDue_eq_some.mp hpop
    have hfirst := Timer.firstIn_of_takeDue distinct htake
    simp only [Option.map_some, Option.some.injEq]
    constructor
    · rintro rfl
      exact ⟨hfirst, Timer.due_of_takeDue htake⟩
    · rintro ⟨ht, _⟩
      exact hfirst.eq ht

theorem scheduled_at (before : List (Call α)) (delay : Duration) (payload : α)
    (after : List (Call α)) :
    (of (before ++ .schedule delay payload :: after)).scheduled[(of before).scheduled.length]? =
      some ⟨(of before).scheduled.length, (of before).agenda.now + delay, payload⟩ := by
  rw [of_append, List.foldl_cons]
  obtain ⟨more, hmore⟩ :=
    (Continues.foldl ((of before).ask (.schedule delay payload)) after).scheduled
  rw [← hmore]
  simp [ask]

/-- Every timer is delivered once and in order, unless it is cancelled. -/
theorem timers_delivered (calls : List (Call α)) : Delivers calls := by
  have hsound : (of calls).Sound := Sound.new.foldl calls
  have hlater : ∀ more, Continues (of calls) (of (calls ++ more)) := by
    intro more
    rw [of_append]
    exact .foldl _ more
  constructor
  · rintro before delay payload after rfl
    exact ⟨_, scheduled_at .., rfl, rfl, rfl⟩
  · exact hsound.accounted
  · exact List.Pairwise.of_map Timer.id (fun _ _ hid heq => hid (congrArg _ heq)) hsound.distinct
  · exact fun more => ⟨(hlater more).fired, (hlater more).cancelled⟩
  · exact hsound.sorted
  · exact fun time t => map_popDue_eq_some hsound.distinct_pending
  · exact fun time => popDue_eq_none
  · exact fun d => Timer.nextDue_eq_some
  · exact fun more => (hlater more).now

/-- A timer that is overdue when the clock is put on still fires before the later ones. -/
example :
    let calls : List (Call Char) :=
      [.schedule (.ofNanos 20) 'a', .schedule (.ofNanos 10) 'b', .settle (.ofNanos 30),
        .schedule .zero 'c', .schedule .longest 'd', .popDue (.ofNanos 30), .popDue (.ofNanos 30),
        .schedule .longest 'e', .popDue (.ofNanos 30), .popDue .longest, .cancelAll]
    (of calls).fired.map Timer.payload = ['b', 'a', 'c', 'd'] ∧
      (of calls).cancelled.map Timer.payload = ['e'] := by
  decide

end Agenda

end RocketPuzzle
