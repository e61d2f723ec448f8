import RocketPuzzle.Agenda

/-! # Which timer fires

A timer that fires at some time is the one that would also fire first at any later time, and a
clock that has moved on without firing anything is not noticed by the next timer. Both are needed
to cut an interval of time in two.
-/
namespace RocketPuzzle

namespace Duration

theorem not_le {a b : Duration} : ¬ a ≤ b ↔ b < a := Nat.not_le

theorem not_lt {a b : Duration} : ¬ a < b ↔ b ≤ a := Nat.not_lt

theorem le_refl (a : Duration) : a ≤ a := Nat.le_refl _

theorem le_trans {a b c : Duration} (h : a ≤ b) (k : b ≤ c) : a ≤ c := Nat.le_trans h k

theorem lt_of_le_of_lt {a b c : Duration} (h : a ≤ b) (k : b < c) : a < c :=
  Nat.lt_of_le_of_lt h k

theorem le_of_lt {a b : Duration} (h : a < b) : a ≤ b := Nat.le_of_lt h

theorem le_self_add (a b : Duration) : a ≤ a + b := by
  have := a.nanos_lt
  rw [le_def, nanos_add]
  omega

theorem le_add_self (a b : Duration) : b ≤ a + b := by
  have := b.nanos_lt
  rw [le_def, nanos_add]
  omega

theorem le_longest (a : Duration) : a ≤ longest := Nat.le_sub_one_of_lt a.nanos_lt

theorem max_eq_right {a b : Duration} (h : a ≤ b) : max a b = b := by
  apply ext
  rw [nanos_max]
  exact Nat.max_eq_right h

theorem le_max_left (a b : Duration) : a ≤ max a b := by
  rw [le_def, nanos_max]
  exact Nat.le_max_left ..

theorem le_max_right (a b : Duration) : b ≤ max a b := by
  rw [le_def, nanos_max]
  exact Nat.le_max_right ..

theorem max_assoc (a b c : Duration) : max (max a b) c = max a (max b c) := by
  apply ext
  simp only [nanos_max]
  omega

end Duration

namespace Timer

variable {α : Type} {time early late : Duration} {l others : List (Timer α)} {t : Timer α}

theorem takeDue_eq_none : takeDue time l = none ↔ ∀ t ∈ l, time < t.due := by
  induction l with
  | nil => simp [takeDue]
  | cons t rest ih =>
    unfold takeDue
    cases hr : takeDue time rest with
    | none =>
      have hrest := ih.mp hr
      by_cases hd : t.due ≤ time
      · simp [hd, Duration.not_lt.mpr hd]
      · have hlt := Duration.not_le.mp hd
        simp only [hd, if_false, true_iff, List.mem_cons, forall_eq_or_imp]
        exact ⟨hlt, hrest⟩
    | some r =>
      have hnot : ¬ ∀ t ∈ rest, time < t.due := by
        intro h
        rw [ih.mpr h] at hr
        cases hr
      have : ¬ ∀ s ∈ t :: rest, time < s.due := by
        intro h
        exact hnot fun s hs => h s (List.mem_cons_of_mem _ hs)
      simp only [this, iff_false]
      split <;> simp

theorem due_of_takeDue (h : takeDue time l = some (t, others)) : t.due ≤ time := by
  induction l generalizing t others with
  | nil => simp [takeDue] at h
  | cons s rest ih =>
    unfold takeDue at h
    split at h
    · split at h
      · next hd =>
        cases h
        exact hd
      · cases h
    · next u left hu =>
      split at h
      · next hd =>
        cases h
        exact hd.1
      · cases h
        exact ih hu

theorem not_before_of_due_lt {s u : Timer α} (h : s.due < u.due) : ¬ u.Before s := by
  rw [Duration.lt_def] at h
  rintro (hb | ⟨hb, _⟩)
  · exact Nat.lt_asymm h hb
  · rw [hb] at h
    exact Nat.lt_irrefl _ h

theorem mem_of_takeDue (h : takeDue time l = some (t, others)) : t ∈ l :=
  (takeDue_perm h).mem_iff.mpr (List.mem_cons_self ..)

/-- More time makes more timers due, but none of them comes before the first. -/
theorem takeDue_mono (hle : early ≤ late) (h : takeDue early l = some (t, others)) :
    takeDue late l = some (t, others) := by
  induction l generalizing t others with
  | nil => simp [takeDue] at h
  | cons s rest ih =>
    unfold takeDue at h ⊢
    cases hr : takeDue early rest with
    | none =>
      rw [hr] at h
      have hs : s.due ≤ early := by
        by_cases hs : s.due ≤ early
        · exact hs
        · simp [hs] at h
      have hlate : s.due ≤ late := Duration.le_trans hs hle
      rw [if_pos hs] at h
      cases hl : takeDue late rest with
      | none => simpa [hlate] using h
      | some r =>
        have hafter : s.due < r.1.due :=
          Duration.lt_of_le_of_lt hs (takeDue_eq_none.mp hr r.1 (mem_of_takeDue hl))
        simpa [hlate, not_before_of_due_lt hafter] using h
    | some r =>
      rw [hr] at h
      rw [ih hr]
      by_cases hs : s.due ≤ early
      · have hlate : s.due ≤ late := Duration.le_trans hs hle
        simpa [hs, hlate] using h
      · have hb : r.1.Before s :=
          Or.inl (Duration.lt_of_le_of_lt (due_of_takeDue hr) (Duration.not_le.mp hs))
        simpa [hs, hb] using h

end Timer

namespace Agenda

variable {α : Type} {a b : Agenda α} {t : Timer α} {time early late : Duration}

theorem popDue_eq_none : a.popDue time = none ↔ ∀ t ∈ a.pending, time < t.due := by
  rw [← Timer.takeDue_eq_none]
  unfold popDue
  split <;> simp_all

theorem popDue_of_nil (h : a.pending = []) (time : Duration) : a.popDue time = none := by
  rw [popDue_eq_none, h]
  exact List.forall_mem_nil _

/-- What it takes for a timer to fire, and what the agenda is then. -/
theorem popDue_eq_some : a.popDue time = some (t, b) ↔
    ∃ others, Timer.takeDue time a.pending = some (t, others) ∧
      b = { a with now := max a.now t.due, pending := others } := by
  unfold popDue
  split
  · next h => simp [h]
  · next u others h =>
    rw [h]
    constructor
    · intro e
      cases e
      exact ⟨others, rfl, rfl⟩
    · rintro ⟨_, e, rfl⟩
      cases e
      rfl

theorem popDue_mono (hle : early ≤ late) (h : a.popDue early = some (t, b)) :
    a.popDue late = some (t, b) := by
  obtain ⟨others, ht, hb⟩ := popDue_eq_some.mp h
  exact popDue_eq_some.mpr ⟨others, Timer.takeDue_mono hle ht, hb⟩

theorem settle_settle (hle : early ≤ late) : (a.settle early).settle late = a.settle late := by
  simp only [settle, Duration.max_assoc, Duration.max_eq_right hle]

/-- The next timer is measured from its own due time, not from where the clock has been left. -/
theorem popDue_settle (h : a.popDue early = none) (late : Duration) :
    (a.settle early).popDue late = a.popDue late := by
  unfold popDue settle
  cases ht : Timer.takeDue late a.pending with
  | none => rfl
  | some r =>
    have hlater : early < r.1.due := popDue_eq_none.mp h r.1 (Timer.mem_of_takeDue ht)
    simp only [Duration.max_assoc, Duration.max_eq_right (Duration.le_of_lt hlater)]

theorem now_popDue (h : a.popDue time = some (t, b)) : max b.now time = max a.now time := by
  obtain ⟨others, ht, rfl⟩ := popDue_eq_some.mp h
  rw [Duration.max_assoc, Duration.max_eq_right (Timer.due_of_takeDue ht)]

/-- A timer that is alone is taken when it is due, and leaves nothing behind. -/
theorem popDue_singleton {u : Timer α} (hp : a.pending = [u]) (h : a.popDue time = some (t, b)) :
    t = u ∧ b = { a with now := max a.now u.due, pending := [] } := by
  obtain ⟨others, ht, rfl⟩ := popDue_eq_some.mp h
  have hperm := Timer.takeDue_perm ht
  rw [hp] at hperm
  cases hperm.singleton_eq
  exact ⟨rfl, rfl⟩

end Agenda

end RocketPuzzle
