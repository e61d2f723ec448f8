import Mathlib.Data.List.Nodup
import RocketPuzzle.Proofs.Owing

/-! # The announcement

A run on the last level that is won is announced once, by the first request that lets time pass until
the delay is over, unless a level has gone back to its start by then. What a session owes before a
request is just what the requests before have won and neither paid nor cancelled.
-/
namespace RocketPuzzle

/-- A request, and the session of which it is asked. -/
structure Occasion where
  session : Session
  request : Request

namespace Occasion

def effect (o : Occasion) : Effect := (o.session.handle o.request).effect

/-- Where the clock is put, if the request is for time to pass. -/
def target? (o : Occasion) : Option Duration :=
  match o.request with
  | .advance dt => some (o.session.agenda.now + dt)
  | _ => none

/-- All that is told, each event with the clock at that moment. -/
def told (o : Occasion) : List (Duration × Event) :=
  match o.request with
  | .advance dt => (o.session.firings (o.session.agenda.now + dt)).flatMap Firing.stamped
  | _ => o.effect.events.map (o.session.agenda.now, ·)

/-- A run on the last level is won when the clock stands at `t`. -/
def Wins (o : Occasion) (t : Duration) : Prop :=
  o.session.onLastLevel = true ∧ (t, .goalEvaluated .success) ∈ o.told

end Occasion

namespace Session

/-- The requests as they come, each with the session that the ones before have left. -/
def occasions (s : Session) : List Request → List Occasion
  | [] => []
  | r :: rest => ⟨s, r⟩ :: (s.handle r).effect.session.occasions rest

/-- The run that request `i` wins at `t` is still to be announced when request `n` is made. -/
structure Outstanding (s : Session) (rs : List Request) (i : Nat) (t : Duration) (n : Nat) :
    Prop where
  order : i ≤ n
  won : ∃ o, (s.occasions rs)[i]? = some o ∧ o.Wins t
  early : ∀ j o time, i ≤ j → j < n → (s.occasions rs)[j]? = some o → o.target? = some time →
    time < s.pacing.announcementDue t
  kept : ∀ j o, i < j → j < n → (s.occasions rs)[j]? = some o →
    ∀ e ∈ o.effect.events, e.isReset = false

/-- Request `n` is the first that lets time pass until the announcement of that run is due. -/
def Announced (s : Session) (rs : List Request) (i : Nat) (t : Duration) (n : Nat) : Prop :=
  s.Outstanding rs i t n ∧
    ∃ o time, (s.occasions rs)[n]? = some o ∧ o.target? = some time ∧
      s.pacing.announcementDue t ≤ time

end Session

variable {s t : Session} {es : List Event} {log : List (Duration × Event)} {d : Duration}
  {o : Occasion}

theorem Judged.nodup (h : Judged es) : (es.filter Event.isEnding).Nodup := by
  cases h with
  | notYet going =>
    rw [List.filter_eq_nil_iff.mpr (by simpa using going)]
    exact List.nodup_nil
  | @once before after v solved going _ _ announced =>
    have hbefore : before.filter Event.isEnding = [] :=
      List.filter_eq_nil_iff.mpr (by simpa using going)
    have hafter : after.filter Event.isEnding <+: [.curriculumCompleted] := by
      refine announced.trans ?_
      split
      · exact List.prefix_rfl
      · exact List.nil_prefix
    have hends : (.goalEvaluated v :: (solved.toList.map .levelCompleted ++
        .runHalted :: after)).filter Event.isEnding =
          .goalEvaluated v :: (solved.toList.map .levelCompleted ++
            .runHalted :: after.filter Event.isEnding) := by
      cases solved <;> rfl
    have hall := ((hafter.sublist.cons_cons Event.runHalted).append_left
      (solved.toList.map .levelCompleted)).cons_cons (.goalEvaluated v)
    rw [List.filter_append, hbefore, List.nil_append, hends]
    refine hall.nodup ?_
    cases solved <;> simp

theorem CarriesOn.nodup (h : CarriesOn s es t) : (es.filter Event.isEnding).Nodup := by
  by_cases running : s.status = .running
  · exact (CarriesOn.judged h running).nodup
  · refine (CarriesOn.announced h running).sublist.nodup ?_
    rw [Session.upcoming]
    split
    · simp
    · exact List.nodup_nil

namespace Occasion

theorem events_told (o : Occasion) : o.told.map Prod.snd = o.effect.events := by
  have hstamp : ∀ (now : Duration) (es : List Event), (es.map (now, ·)).map Prod.snd = es := by
    intro now es
    rw [List.map_map]
    exact List.map_id es
  rw [told]
  split
  · next dt heq =>
    rw [List.map_flatMap, effect, heq]
    simp only [Firing.stamped, hstamp]
    exact Session.events_firings ..
  · exact hstamp ..

theorem of_still (still : ∀ dt, o.request ≠ .advance dt) :
    o.target? = none ∧ o.told = o.effect.events.map (o.session.agenda.now, ·) := by
  rw [target?, told]
  split
  · next dt heq => exact absurd heq (still dt)
  · exact ⟨rfl, rfl⟩

theorem awaited (h : o.session.Coherent) :
    o.effect.session.awaited? = some d ↔
      o.session.Owes o.told d ∧ (∀ e ∈ o.effect.events, e.isReset = false) ∧
        ∀ time, o.target? = some time → time < d := by
  by_cases hadvance : ∃ dt, o.request = .advance dt
  · obtain ⟨dt, hdt⟩ := hadvance
    have hkeeps := CarriesOn.keeps (h.carriesOn_turns (o.session.advance_turns dt))
    have hstill := (h.owes_runTo (o.session.agenda.now + dt)).1 d
    simp only [effect, told, target?, hdt, Session.handle, Option.some_inj, forall_eq']
    exact hstill.trans (and_congr_right fun _ => (and_iff_right hkeeps).symm)
  · have hstill := not_exists.mp hadvance
    obtain ⟨htarget, htold⟩ := of_still hstill
    have htime : ∀ time, o.target? = some time → time < d := by simp [htarget]
    rw [and_iff_left htime, htold]
    rcases h.settles_or_restarts hstill with hsettles | hrestarts
    · have howed := hsettles.owed [] (d := d)
      rw [List.append_nil, Session.owes_nil] at howed
      exact howed.symm.trans (and_iff_left hsettles.keeps).symm
    · obtain ⟨x, hx, hreset⟩ := hrestarts.told
      refine iff_of_false (by simp [effect, hrestarts.awaited]) ?_
      rintro ⟨_, hkeeps⟩
      have hkept := hkeeps x hx
      rw [hreset] at hkept
      cases hkept

/-- The announcement is made when time passes until it is due, and at no other time. -/
theorem announces (h : o.session.Coherent) :
    .curriculumCompleted ∈ o.effect.events ↔
      ∃ d time, o.session.Owes o.told d ∧ o.target? = some time ∧ d ≤ time := by
  by_cases hadvance : ∃ dt, o.request = .advance dt
  · obtain ⟨dt, hdt⟩ := hadvance
    have hpaid := (h.owes_runTo (o.session.agenda.now + dt)).2
    simp only [effect, told, target?, hdt, Session.handle]
    refine hpaid.trans ?_
    constructor
    · rintro ⟨d, howed, hdue⟩
      exact ⟨d, _, howed, rfl, hdue⟩
    · rintro ⟨d, time, howed, htime, hdue⟩
      obtain rfl := Option.some_inj.mp htime
      exact ⟨d, howed, hdue⟩
  · have hstill := not_exists.mp hadvance
    obtain ⟨htarget, _⟩ := of_still hstill
    refine iff_of_false ?_ (by simp [htarget])
    rcases h.settles_or_restarts hstill with hsettles | hrestarts
    · exact hsettles.silent
    · intro hmem
      cases hrestarts.going _ hmem

theorem Wins.running {t : Duration} (h : o.session.Coherent) (won : o.Wins t) :
    o.session.status = .running ∧ o.effect.session.status ≠ .running ∧
      ∀ e ∈ o.effect.events, e.isReset = false := by
  have hverdict : .goalEvaluated .success ∈ o.effect.events := by
    rw [← events_told]
    exact List.mem_map_of_mem won.2
  cases h.answered o.request with
  | carriesOn _ on =>
    obtain ⟨hrunning, hrest⟩ := (CarriesOn.judges_iff on).mp ⟨_, hverdict⟩
    exact ⟨hrunning, hrest, CarriesOn.keeps on⟩
  | launch _ _ _ _ hevents =>
    rw [effect, hevents] at hverdict
    simp at hverdict
  | reset _ heffect | load _ _ heffect =>
    rw [effect, heffect] at hverdict
    cases List.mem_singleton.mp hverdict

theorem nodup (h : o.session.Coherent) : (o.effect.events.filter Event.isEnding).Nodup := by
  cases h.answered o.request with
  | carriesOn _ on => exact CarriesOn.nodup on
  | launch _ _ _ _ hevents =>
    rw [effect, hevents]
    exact List.nodup_nil
  | reset _ heffect | load _ _ heffect =>
    rw [effect, heffect]
    exact List.nodup_nil

theorem count_le_one (h : o.session.Coherent) {e : Event} (ending : e.isEnding = true) :
    o.effect.events.count e ≤ 1 := by
  rw [← List.count_filter ending]
  exact List.nodup_iff_count_le_one.mp (nodup h) e

theorem Wins.unique {t u : Duration} (h : o.session.Coherent) (won : o.Wins t) (again : o.Wins u) :
    t = u := by
  have hnodup := nodup h
  rw [← events_told, List.filter_map] at hnodup
  have hending : ∀ time, (time, .goalEvaluated .success) ∈ o.told →
      (time, .goalEvaluated .success) ∈ o.told.filter (Event.isEnding ∘ Prod.snd) :=
    fun time hmem => List.mem_filter.mpr ⟨hmem, rfl⟩
  exact (Prod.mk.inj (List.inj_on_of_nodup_map hnodup (hending t won.2) (hending u again.2) rfl)).1

end Occasion

namespace Session

variable {rs : List Request} {i j n : Nat} {a b : Occasion}

theorem occasions_first (h : (s.occasions rs)[0]? = some o) : o.session = s := by
  cases rs with
  | nil => cases h
  | cons r rest =>
    cases h
    rfl

theorem occasions_next (h : (s.occasions rs)[n + 1]? = some b) :
    ∃ a, (s.occasions rs)[n]? = some a ∧ b.session = a.effect.session := by
  induction rs generalizing s n with
  | nil => cases h
  | cons r rest ih =>
    rw [occasions, List.getElem?_cons_succ] at h
    cases n with
    | zero => exact ⟨⟨s, r⟩, rfl, occasions_first h⟩
    | succ n => exact ih h

theorem Coherent.occasions (h : s.Coherent) (ho : (s.occasions rs)[n]? = some o) :
    o.session.Coherent ∧ o.session.pacing = s.pacing := by
  induction n generalizing o with
  | zero =>
    rw [occasions_first ho]
    exact ⟨h, rfl⟩
  | succ n ih =>
    obtain ⟨a, ha, hab⟩ := occasions_next ho
    obtain ⟨hcoherent, hpacing⟩ := ih ha
    obtain ⟨ds, hds, _⟩ := (hcoherent.answered a.request).deeds
    rw [hab, ← hpacing]
    exact ⟨hcoherent.request a.request, hds.pacing⟩

theorem events_occasions (s : Session) (rs : List Request) :
    (s.handleAll rs).events = (s.occasions rs).flatMap fun o => o.effect.events := by
  induction rs generalizing s with
  | nil => rfl
  | cons r rest ih => exact congrArg ((s.handle r).effect.events ++ ·) (ih _)

theorem outstanding_self {t : Duration} (ha : (s.occasions rs)[n]? = some a) :
    s.Outstanding rs n t n ↔ a.Wins t := by
  constructor
  · rintro ⟨_, ⟨o, ho, won⟩, _⟩
    obtain rfl : a = o := Option.some_inj.mp (ha.symm.trans ho)
    exact won
  · intro won
    refine ⟨Nat.le_refl n, ⟨a, ha, won⟩, ?_, ?_⟩
    · intro j _ _ hj hjn
      omega
    · intro j _ hj hjn
      omega

theorem outstanding_succ {t : Duration} (ha : (s.occasions rs)[n]? = some a) (hi : i ≤ n) :
    s.Outstanding rs i t (n + 1) ↔
      s.Outstanding rs i t n ∧ (i < n → ∀ e ∈ a.effect.events, e.isReset = false) ∧
        ∀ time, a.target? = some time → time < s.pacing.announcementDue t := by
  constructor
  · intro h
    refine ⟨⟨hi, h.won, ?_, ?_⟩, ?_, ?_⟩
    · exact fun j o time hj hjn => h.early j o time hj (Nat.lt_succ_of_lt hjn)
    · exact fun j o hj hjn => h.kept j o hj (Nat.lt_succ_of_lt hjn)
    · exact fun hin => h.kept n a hin (Nat.lt_succ_self n) ha
    · exact fun time => h.early n a time hi (Nat.lt_succ_self n) ha
  · rintro ⟨h, hkept, hearly⟩
    refine ⟨Nat.le_succ_of_le hi, h.won, ?_, ?_⟩
    · intro j o time hj hjn ho htime
      rcases Nat.lt_succ_iff_lt_or_eq.mp hjn with hlt | rfl
      · exact h.early j o time hj hlt ho htime
      · obtain rfl : a = o := Option.some_inj.mp (ha.symm.trans ho)
        exact hearly time htime
    · intro j o hj hjn ho
      rcases Nat.lt_succ_iff_lt_or_eq.mp hjn with hlt | rfl
      · exact h.kept j o hj hlt ho
      · obtain rfl : a = o := Option.some_inj.mp (ha.symm.trans ho)
        exact hkept hj

/-- What waits before a request is what earlier requests have won and none has paid or cancelled. -/
theorem Coherent.awaited_iff (h : s.Coherent) (clear : s.awaited? = none)
    (ho : (s.occasions rs)[n]? = some o) :
    o.session.awaited? = some d ↔
      ∃ i t, i < n ∧ s.Outstanding rs i t n ∧ d = s.pacing.announcementDue t := by
  induction n generalizing o d with
  | zero =>
    rw [occasions_first ho, clear]
    simp
  | succ n ih =>
    obtain ⟨a, ha, hab⟩ := occasions_next ho
    obtain ⟨hcoherent, hpacing⟩ := h.occasions ha
    rw [hab, Occasion.awaited hcoherent, Owes, ih ha, hpacing]
    -- A win is outstanding after request `n` if it was before it, or if it is its own.
    constructor
    · rintro ⟨⟨i, t, hi, hout, rfl⟩ | ⟨hlast, t, hwon, rfl⟩, hkept, hearly⟩
      · refine ⟨i, t, Nat.lt_succ_of_lt hi, ?_, rfl⟩
        exact (outstanding_succ ha (Nat.le_of_lt hi)).mpr ⟨hout, fun _ => hkept, hearly⟩
      · have hout := (outstanding_self ha).mpr ⟨hlast, hwon⟩
        refine ⟨n, t, Nat.lt_succ_self n, ?_, rfl⟩
        exact (outstanding_succ ha (Nat.le_refl n)).mpr ⟨hout, fun _ => hkept, hearly⟩
    · rintro ⟨i, t, hi, hout, rfl⟩
      obtain ⟨hout, hkept, hearly⟩ := (outstanding_succ ha (Nat.le_of_lt_succ hi)).mp hout
      rcases Nat.lt_succ_iff_lt_or_eq.mp hi with hlt | rfl
      · exact ⟨Or.inl ⟨i, t, hlt, hout, rfl⟩, hkept hlt, hearly⟩
      · have hwon := (outstanding_self ha).mp hout
        obtain ⟨_, _, hkeeps⟩ := hwon.running hcoherent
        exact ⟨Or.inr ⟨hwon.1, t, hwon.2, rfl⟩, hkeeps, hearly⟩

theorem Coherent.owes_iff (h : s.Coherent) (clear : s.awaited? = none)
    (ho : (s.occasions rs)[n]? = some o) :
    o.session.Owes o.told d ↔
      ∃ i t, s.Outstanding rs i t n ∧ d = s.pacing.announcementDue t := by
  obtain ⟨_, hpacing⟩ := h.occasions ho
  rw [Owes, h.awaited_iff clear ho, hpacing]
  constructor
  · rintro (⟨i, t, _, hout, rfl⟩ | ⟨hlast, t, hwon, rfl⟩)
    · exact ⟨i, t, hout, rfl⟩
    · exact ⟨n, t, (outstanding_self ho).mpr ⟨hlast, hwon⟩, rfl⟩
  · rintro ⟨i, t, hout, rfl⟩
    rcases Nat.lt_or_eq_of_le hout.order with hlt | rfl
    · exact Or.inl ⟨i, t, hlt, hout, rfl⟩
    · have hwon := (outstanding_self ho).mp hout
      exact Or.inr ⟨hwon.1, t, hwon.2, rfl⟩

theorem Outstanding.upTo {t : Duration} (h : s.Outstanding rs i t n) (hi : i ≤ j) (hj : j ≤ n) :
    s.Outstanding rs i t j where
  order := hi
  won := h.won
  early k o time hk hkj := h.early k o time hk (Nat.lt_of_lt_of_le hkj hj)
  kept k o hk hkj := h.kept k o hk (Nat.lt_of_lt_of_le hkj hj)

theorem Coherent.outstanding_last (h : s.Coherent) (clear : s.awaited? = none) {t u : Duration}
    (first : s.Outstanding rs i t n) (second : s.Outstanding rs j u n) : j ≤ i := by
  -- While an announcement waits the session is at rest, and nothing can be won on it.
  by_contra hlt
  have hij := Nat.lt_of_not_le hlt
  obtain ⟨o, ho, won⟩ := second.won
  have hwaits := (h.awaited_iff clear ho).mpr
    ⟨i, t, hij, first.upTo (Nat.le_of_lt hij) second.order, rfl⟩
  obtain ⟨hrunning, _⟩ := won.running (h.occasions ho).1
  rw [awaited?_of_running hrunning] at hwaits
  cases hwaits

theorem Coherent.onLastLevel_of_owes (h : s.Coherent) (owes : s.Owes log d) :
    s.onLastLevel = true := by
  rcases owes with hawaited | ⟨hlast, _⟩
  · obtain ⟨w, hw, _⟩ := mem_of_awaited? hawaited
    have hcompleted : s.status = .completed := by
      by_contra hne
      simp [awaited?, hne] at hawaited
    rcases h.announced hcompleted with hclear | ⟨_, _, _, k, hselected, hfinal⟩
    · rw [hclear] at hw
      cases hw
    · rw [selection] at hselected
      split at hselected
      · cases hselected
      · next hcatalog =>
        cases hselected
        simp [onLastLevel, hcatalog, hfinal]
  · exact hlast

/-- When the solved curriculum is announced. -/
structure Announces (s : Session) (rs : List Request) : Prop where
  log : (s.handleAll rs).events = (s.occasions rs).flatMap fun o => o.effect.events
  told : ∀ o ∈ s.occasions rs, o.told.map Prod.snd = o.effect.events
  /-- A request wins one run at most, so that its number and the time stand for the run. -/
  wins : ∀ o ∈ s.occasions rs, o.effect.events.count (.goalEvaluated .success) ≤ 1
  announced : ∀ n o, (s.occasions rs)[n]? = some o →
    (.curriculumCompleted ∈ o.effect.events ↔ ∃ i t, s.Announced rs i t n)
  once : ∀ o ∈ s.occasions rs, o.effect.events.count .curriculumCompleted ≤ 1
  /-- No announcement serves for two runs. -/
  apart : ∀ i j t u n, s.Announced rs i t n → s.Announced rs j u n → i = j ∧ t = u
  /-- No run is announced twice. -/
  single : ∀ i t n m, s.Announced rs i t n → s.Announced rs i t m → n = m
  placed : ∀ o ∈ s.occasions rs, .curriculumCompleted ∈ o.effect.events →
    o.session.onLastLevel = true

theorem Announced.le {t : Duration} {m : Nat} (h : s.Announced rs i t n)
    (k : s.Announced rs i t m) : n ≤ m := by
  obtain ⟨o, time, ho, htime, hdue⟩ := k.2
  by_contra hlt
  have hearly := h.1.early m o time k.1.order (Nat.lt_of_not_le hlt) ho htime
  exact Duration.not_le.mpr hearly hdue

/-- Every run on the last level that is won is announced once, if time passes until then before a
level goes back to its start, and nothing else is announced. -/
theorem curriculum_announced (c : Curriculum) (p : Pacing) (rs : List Request) :
    (Session.new c p).Announces rs := by
  have hcoherent := new_coherent c p
  have hclear : (Session.new c p).awaited? = none := rfl
  have hall : ∀ o ∈ (Session.new c p).occasions rs, o.session.Coherent := by
    intro o ho
    obtain ⟨n, hn⟩ := List.mem_iff_getElem?.mp ho
    exact (hcoherent.occasions hn).1
  constructor
  · exact events_occasions _ rs
  · exact fun o _ => o.events_told
  · exact fun o ho => Occasion.count_le_one (hall o ho) rfl
  · intro n o ho
    rw [Occasion.announces (hcoherent.occasions ho).1]
    constructor
    · rintro ⟨d, time, howed, htime, hdue⟩
      obtain ⟨i, t, hout, rfl⟩ := (hcoherent.owes_iff hclear ho).mp howed
      exact ⟨i, t, hout, o, time, ho, htime, hdue⟩
    · rintro ⟨i, t, hout, q, time, hq, htime, hdue⟩
      obtain rfl : o = q := Option.some_inj.mp (ho.symm.trans hq)
      exact ⟨_, time, (hcoherent.owes_iff hclear ho).mpr ⟨i, t, hout, rfl⟩, htime, hdue⟩
  · exact fun o ho => Occasion.count_le_one (hall o ho) rfl
  · intro i j t u n first second
    obtain rfl := Nat.le_antisymm (hcoherent.outstanding_last hclear second.1 first.1)
      (hcoherent.outstanding_last hclear first.1 second.1)
    obtain ⟨o, ho, hwon⟩ := first.1.won
    obtain ⟨q, hq, hagain⟩ := second.1.won
    obtain rfl : o = q := Option.some_inj.mp (ho.symm.trans hq)
    exact ⟨rfl, hwon.unique (hcoherent.occasions ho).1 hagain⟩
  · exact fun i t n m first second => Nat.le_antisymm (first.le second) (second.le first)
  · intro o ho hmem
    obtain ⟨d, _, howed, _⟩ := (Occasion.announces (hall o ho)).mp hmem
    exact Coherent.onLastLevel_of_owes (hall o ho) howed

/-- A request for an empty program and a selection that is refused leave the announcement alone. -/
example :
    ((Session.new corridors {}).handleAll
      [.runAll (.commands [.move, .move]), .advance (.ofMillis 2100), .step (.commands []),
        .select 7, .advance (.ofMillis 1499), .advance (.ofMillis 1)]).events.drop 6 =
      [.goalEvaluated .success, .levelCompleted 1, .runHalted, .programEmpty,
        .curriculumCompleted] := by
  decide +kernel

end Session

end RocketPuzzle
