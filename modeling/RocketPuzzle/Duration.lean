/-! # Durations

Lengths of time in nanoseconds. The longest duration is `2 ^ 64 - 1` seconds and 999999999
nanoseconds, and a sum that would be longer is that long.
-/
namespace RocketPuzzle

structure Duration where
  nanos : Nat
  nanos_lt : nanos < 18446744073709551616 * 1000000000
  deriving DecidableEq, Repr

namespace Duration

instance : LE Duration := ⟨fun a b => a.nanos ≤ b.nanos⟩
instance : LT Duration := ⟨fun a b => a.nanos < b.nanos⟩
instance (a b : Duration) : Decidable (a ≤ b) := inferInstanceAs (Decidable (a.nanos ≤ b.nanos))
instance (a b : Duration) : Decidable (a < b) := inferInstanceAs (Decidable (a.nanos < b.nanos))

theorem le_def {a b : Duration} : a ≤ b ↔ a.nanos ≤ b.nanos := Iff.rfl
theorem lt_def {a b : Duration} : a < b ↔ a.nanos < b.nanos := Iff.rfl

def zero : Duration := ⟨0, by decide⟩

def longest : Duration := ⟨18446744073709551616 * 1000000000 - 1, by decide⟩

/-- The duration of `n` nanoseconds, or the longest one. -/
def ofNanos (n : Nat) : Duration :=
  ⟨min n (18446744073709551616 * 1000000000 - 1), by omega⟩

def ofMillis (ms : UInt64) : Duration := ofNanos (ms.toNat * 1000000)

/-- The sum, cut off at the longest duration. -/
def add (a b : Duration) : Duration := ofNanos (a.nanos + b.nanos)

/-- The difference, or zero when `b` is longer. -/
def sub (a b : Duration) : Duration := ⟨a.nanos - b.nanos, by have := a.nanos_lt; omega⟩

instance : Add Duration := ⟨add⟩
instance : Sub Duration := ⟨sub⟩
instance : Max Duration := ⟨fun a b => if a ≤ b then b else a⟩

def seconds (a : Duration) : Nat := a.nanos / 1000000000

/-- The nanoseconds beyond the last whole second. -/
def subsecond (a : Duration) : Nat := a.nanos % 1000000000

theorem ext {a b : Duration} (h : a.nanos = b.nanos) : a = b := by
  cases a; cases b; cases h; rfl

theorem nanos_add (a b : Duration) :
    (a + b).nanos = min (a.nanos + b.nanos) (18446744073709551616 * 1000000000 - 1) := rfl

theorem nanos_max (a b : Duration) : (max a b).nanos = max a.nanos b.nanos := by
  change (if a.nanos ≤ b.nanos then b else a).nanos = _
  split <;> omega

theorem add_assoc (a b c : Duration) : a + b + c = a + (b + c) := by
  apply ext
  simp only [nanos_add]
  omega

end Duration

end RocketPuzzle
