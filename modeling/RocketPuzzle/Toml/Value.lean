import RocketPuzzle.Toml.Layout
import RocketPuzzle.Toml.Tree

/-! # Values of TOML texts

Numbers, dates, texts, arrays and inline tables. An integer has to fit 64 bits with its sign even
where nobody reads it.
-/
namespace RocketPuzzle.Toml

open Scanner

/-- Digits that may have single underscores between them. -/
def digitRun (p : Char → Bool) : Scanner (List Char) := do
  let first ← satisfy p
  let more ← repeated do
    let _ ← optional (char '_')
    satisfy p
  return first :: more

/-- A decimal numeral without leading zeros. -/
def decimal : Scanner (List Char) :=
  (do char '0'; return ['0']) <|> digitRun Text.isDigit

/-- A sign; true stands for minus. -/
def sign : Scanner Bool :=
  (do char '-'; return true) <|> (do char '+'; return false) <|> pure false

/-- An integer in a base of its own, without a sign. -/
def based (letter : Char) (base : Nat) (p : Char → Bool) : Scanner Nat := do
  exactly ['0', letter]
  return valueIn base (← digitRun p)

/-- A natural number, unless it is too large for a signed word of 64 bits. -/
def natural (n : Nat) : Scanner Datum :=
  if n < UInt64.size / 2 then return .natural n else failure

def signedDecimal : Scanner Datum := do
  let negative ← sign
  let n := Text.valueFrom 0 (← decimal)
  if negative ∧ n ≠ 0 then if n ≤ UInt64.size / 2 then return .scalar else failure
  else natural n

def integer : Scanner Datum :=
  (do natural (← based 'x' 16 fun c => (Text.hexValue? c).isSome)) <|>
    (do natural (← based 'o' 8 fun c => '0' ≤ c && c ≤ '7')) <|>
    (do natural (← based 'b' 2 fun c => c == '0' || c == '1')) <|>
    signedDecimal

/-- The double nearest to `value * 10 ^ power` is infinite. -/
def isInfinite (value : Nat) (power : Int) : Bool :=
  let bound := Nat.pow 2 1024 - Nat.pow 2 970
  let size := ((Nat.toDigits 10 value).length : Int) + power
  if value == 0 || size < 300 then false
  else if size > 310 then true
  else if 0 ≤ power then bound ≤ value * Nat.pow 10 power.toNat
  else bound * Nat.pow 10 (-power).toNat ≤ value

def exponent : Scanner Int := do
  let _ ← satisfy fun c => c == 'e' || c == 'E'
  let negative ← sign
  let n := Text.valueFrom 0 (← digitRun Text.isDigit)
  return if negative then -n else n

/-- A number with a fraction or an exponent. Too large a number is refused, too small a one is not. -/
def fractional : Scanner Datum := do
  let negative ← sign
  let whole ← decimal
  let fraction ← (do char '.'; digitRun Text.isDigit) <|> pure []
  let power ← if fraction.isEmpty then exponent else exponent <|> pure 0
  let value := Text.valueFrom 0 (whole ++ fraction)
  if !negative && isInfinite value (power - fraction.length) then failure else return .scalar

def special : Scanner Datum := do
  let _ ← sign
  exactly "inf".toList <|> exactly "nan".toList
  return .scalar

def digitPair : Scanner Nat := do
  return Text.valueFrom 0 (← count Text.isDigit 2)

/-- A pair of digits within bounds. -/
def pairWithin (low high : Nat) : Scanner Nat := do
  let n ← digitPair
  if low ≤ n ∧ n ≤ high then return n else failure

def daysOf (year month : Nat) : Nat :=
  if month = 2 then
    if year % 4 = 0 ∧ (year % 100 ≠ 0 ∨ year % 400 = 0) then 29 else 28
  else if month = 4 ∨ month = 6 ∨ month = 9 ∨ month = 11 then 30
  else 31

def date : Scanner Unit := do
  let year := Text.valueFrom 0 (← count Text.isDigit 4)
  char '-'
  let month ← pairWithin 1 12
  char '-'
  let _ ← pairWithin 1 (daysOf year month)

def time : Scanner Unit := do
  let _ ← pairWithin 0 23
  char ':'
  let _ ← pairWithin 0 59
  char ':'
  let _ ← pairWithin 0 60
  let _ ← optional do
    char '.'
    takeWhile1 Text.isDigit

def zone : Scanner Unit :=
  (do let _ ← satisfy fun c => c == 'Z' || c == 'z') <|> do
    let _ ← satisfy fun c => c == '+' || c == '-'
    let _ ← pairWithin 0 23
    char ':'
    let _ ← pairWithin 0 59

def moment : Scanner Datum := do
  (do
    date
    let _ ← optional do
      let _ ← satisfy fun c => c == 'T' || c == 't' || c == ' '
      time
      optional zone) <|> time
  return .date

def truth : Scanner Datum := do
  exactly "true".toList <|> exactly "false".toList
  return .scalar

def quoted : Scanner Datum := do
  return .text (String.ofList (← quotedText))

def scalar : Scanner Datum :=
  quoted <|> moment <|> fractional <|> special <|> integer <|> truth

/-- An array of the given items. A comma may stand behind the last one. -/
def array (item : Scanner Datum) : Scanner Datum := do
  char '['
  let items ← separated (do filler; let d ← item; filler; return d) (char ',')
  if !items.isEmpty then
    let _ ← optional (char ',')
  filler
  char ']'
  return .list items

/-- A key with its value. -/
def assignment (value : Scanner Datum) : Scanner (List String × Datum) := do
  let k ← key
  char '='
  blanks
  return (k, ← value)

/-- A table on one line. -/
def inlineTable (value : Scanner Datum) : Scanner Datum := do
  char '\x7b'
  let pairs ← separated (do let a ← assignment value; blanks; return a) (char ',')
  blanks
  char '\x7d'
  let entries ← pairs.foldlM (fun es (k, d) => Entries.assign k d .defined es) []
  return (Node.table .defined entries).datum

/-- The most arrays and inline tables that may be open at once. -/
def maxNesting : Nat := 79

/-- A value with at most `room` arrays and inline tables open at once. -/
def value : (room : Nat) → Scanner Datum
  | 0 => scalar
  | room + 1 => array (value room) <|> inlineTable (value room) <|> scalar

end RocketPuzzle.Toml
