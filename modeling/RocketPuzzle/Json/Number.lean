import RocketPuzzle.Datum
import RocketPuzzle.Text.Numeral

/-! # Numbers of the exchange format

A numeral without sign, fraction and exponent is a natural number while it fits 64 bits. Every
other numeral is measured against the largest double-precision number: of its digits only those
count that fit 64 bits together, and a numeral that comes out infinite has no value.
-/
namespace RocketPuzzle.Json

/-- The parts of a numeral as they are written. -/
structure Numeral where
  negative : Bool
  whole : List Char
  fraction : List Char
  exponent : Option Int
  deriving DecidableEq, Repr

/-- The digits that a text begins with, at least one, and what follows them. -/
def digits? (s : List Char) : Option (List Char × List Char) :=
  match s.takeWhile Text.isDigit with
  | [] => none
  | ds => some (ds, s.dropWhile Text.isDigit)

def exponent? : List Char → Option Int
  | '-' :: s => (Text.natural? s).map fun n => -n
  | '+' :: s => (Text.natural? s).map fun n => n
  | s => (Text.natural? s).map fun n => n

/-- The exponent part, which takes the rest of the text. -/
def exponentPart? : List Char → Option (Option Int)
  | [] => some none
  | c :: s => if c == 'e' || c == 'E' then (exponent? s).map some else none

def fractionPart? : List Char → Option (List Char × Option Int)
  | '.' :: s => do
    let (ds, rest) ← digits? s
    return (ds, ← exponentPart? rest)
  | s => do return ([], ← exponentPart? s)

def unsigned? (negative : Bool) (s : List Char) : Option Numeral := do
  let (whole, rest) ← digits? s
  if whole.head? = some '0' ∧ whole.length ≠ 1 then none
  let (fraction, exponent) ← fractionPart? rest
  return ⟨negative, whole, fraction, exponent⟩

def numeral? : List Char → Option Numeral
  | '-' :: s => unsigned? true s
  | s => unsigned? false s

namespace Numeral

/-- The value of a numeral without sign, fraction and exponent. -/
def natural? (n : Numeral) : Option Nat :=
  if n.negative || !n.fraction.isEmpty || n.exponent.isSome then none
  else
    let value := Text.valueFrom 0 n.whole
    if value < UInt64.size then some value else none

/-- The longest beginning of the digits that keeps the value below `2 ^ 64`, and how many digits
come after it. -/
def kept (acc : Nat) : List Char → Nat × Nat
  | [] => (acc, 0)
  | d :: rest =>
    let more := 10 * acc + Text.digitValue d
    if more < UInt64.size then kept more rest else (acc, rest.length + 1)

/-- The digits that count as a natural number, and the power of ten it is multiplied by. -/
def scaled (n : Numeral) : Nat × Int :=
  let (whole, above) := kept 0 n.whole
  let (value, below) := kept whole n.fraction
  (value, (above : Int) - (n.fraction.length - below : Nat) + n.exponent.getD 0)

end Numeral

/-- The nearest number of 53 significant bits; a tie goes to the even one. -/
def round53 (n : Nat) : Nat :=
  let shift := n.log2 + 1 - 53
  let quotient := n >>> shift
  let double := 2 * (n - quotient <<< shift)
  let half := 1 <<< shift
  if double > half || (double == half && shift > 0 && quotient % 2 == 1) then
    (quotient + 1) <<< shift
  else quotient <<< shift

/-- The product of a number below `2 ^ 64` and a power of ten, taken in double precision, is
infinite. -/
def isInfinite (value : Nat) (power : Int) : Bool :=
  if value == 0 || power < 0 then false
  else if power > 308 then true
  else Nat.pow 2 1024 ≤ round53 (round53 value * round53 (Nat.pow 10 power.toNat))

def Numeral.datum (n : Numeral) : Datum :=
  match n.natural? with
  | some value => .natural value
  | none =>
    let (value, power) := n.scaled
    if isInfinite value power then .broken else .scalar

end RocketPuzzle.Json
