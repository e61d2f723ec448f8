import RocketPuzzle.Text.Numeral

/-! # Numbers as they are written

The decimal digits of a number are read back as that number.
-/
namespace RocketPuzzle.Text

theorem toNat_of_isDigit {c : Char} (h : isDigit c = true) : 48 ≤ c.toNat ∧ c.toNat ≤ 57 := by
  simpa [isDigit, Char.le_def, UInt32.le_iff_toNat_le] using h

/-- A digit is no other character. -/
theorem beq_of_isDigit {c d : Char} (h : isDigit c = true) (hd : isDigit d = false) :
    (c == d) = false := by
  rw [beq_eq_false_iff_ne]
  rintro rfl
  rw [h] at hd
  cases hd

theorem valueFrom_eq (acc : Nat) (digits : List Char) :
    valueFrom acc digits = Nat.ofDigitChars 10 digits acc := by
  rw [valueFrom, Nat.ofDigitChars_eq_foldl]
  rfl

theorem natural?_eq_some {s : List Char} {n : Nat} :
    natural? s = some n ↔ s ≠ [] ∧ (∀ c ∈ s, isDigit c = true) ∧ valueFrom 0 s = n := by
  have hnumeral : (!s.isEmpty && s.all isDigit) = true ↔ s ≠ [] ∧ ∀ c ∈ s, isDigit c = true := by
    simp
  unfold natural?
  rw [← and_assoc, ← hnumeral]
  split
  · next h => simp [h]
  · next h => simp [h]

theorem word32?_eq_some {n : Nat} {w : UInt32} : word32? n = some w ↔ n = w.toNat := by
  unfold word32?
  split
  · next h =>
    rw [Option.some.injEq, ← UInt32.toNat_inj, UInt32.toNat_ofNat_of_lt' h]
  · next h =>
    have := w.toNat_lt_size
    simp only [reduceCtorEq, false_iff]
    omega

/-- A numeral is read as a word of 32 bits if its value is one. -/
theorem word32?_natural? {s : List Char} {w : UInt32} :
    natural? s >>= word32? = some w ↔
      s ≠ [] ∧ (∀ c ∈ s, isDigit c = true) ∧ valueFrom 0 s = w.toNat := by
  change (natural? s).bind word32? = some w ↔ _
  simp only [Option.bind_eq_some_iff, word32?_eq_some, natural?_eq_some]
  constructor
  · rintro ⟨_, ⟨hne, hdigits, rfl⟩, hvalue⟩
    exact ⟨hne, hdigits, hvalue⟩
  · rintro ⟨hne, hdigits, hvalue⟩
    exact ⟨_, ⟨hne, hdigits, rfl⟩, hvalue⟩

theorem digits_toString (n : Nat) :
    (toString n).toList ≠ [] ∧ (∀ c ∈ (toString n).toList, isDigit c = true) ∧
      valueFrom 0 (toString n).toList = n := by
  rw [Nat.toString_eq_ofList_toDigits, String.toList_ofList]
  refine ⟨Nat.toDigits_ne_nil, ?_, ?_⟩
  · intro c hc
    exact Nat.isDigit_of_mem_toDigits (by decide) (by decide) hc
  · rw [valueFrom_eq, Nat.ofDigitChars_ten_toDigits]

/-- Only zero begins with a zero. The induction follows the digits from the last one back. -/
theorem head?_toString {n : Nat} (h : n ≠ 0) : (toString n).toList.head? ≠ some '0' := by
  rw [Nat.toString_eq_ofList_toDigits, String.toList_ofList]
  induction n using Nat.strongRecOn with
  | ind n ih =>
    rw [Nat.toDigits_eq_if (by decide)]
    split
    · next hlt =>
      have hdigit : ∀ d : Fin 10, d.val ≠ 0 → [d.val.digitChar].head? ≠ some '0' := by decide
      exact hdigit ⟨n, hlt⟩ h
    · next hge =>
      have hfirst := ih (n / 10) (by omega) (by omega)
      have hne : Nat.toDigits 10 (n / 10) ≠ [] := Nat.toDigits_ne_nil
      obtain ⟨d, ds, hds⟩ := List.exists_cons_of_ne_nil hne
      rw [hds] at hfirst ⊢
      exact hfirst

end RocketPuzzle.Text
