/-! # Numerals

Numerals of ASCII digits; leading zeros are allowed here and refused where a format forbids them.
-/
namespace RocketPuzzle.Text

def isDigit (c : Char) : Bool := '0' ≤ c && c ≤ '9'

def digitValue (c : Char) : Nat := c.toNat - '0'.toNat

/-- The value of a hexadecimal digit in either case. -/
def hexValue? (c : Char) : Option Nat :=
  if isDigit c then some (digitValue c)
  else if 'a' ≤ c && c ≤ 'f' then some (c.toNat - 'a'.toNat + 10)
  else if 'A' ≤ c && c ≤ 'F' then some (c.toNat - 'A'.toNat + 10)
  else none

/-- The value of a row of digits, most significant first, after the value read before it. -/
def valueFrom (acc : Nat) (digits : List Char) : Nat :=
  digits.foldl (fun n d => 10 * n + digitValue d) acc

/-- The value of one or more digits and nothing else. -/
def natural? (s : List Char) : Option Nat :=
  if !s.isEmpty && s.all isDigit then some (valueFrom 0 s) else none

/-- A number below `2 ^ 32`, or nothing. -/
def word32? (n : Nat) : Option UInt32 := if n < UInt32.size then some (UInt32.ofNat n) else none

/-- A number below `2 ^ 64`, or nothing. -/
def word64? (n : Nat) : Option UInt64 := if n < UInt64.size then some (UInt64.ofNat n) else none

end RocketPuzzle.Text
