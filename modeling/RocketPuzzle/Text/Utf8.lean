/-! # UTF-8

Bytes as characters. A byte that belongs to no character stands for itself, and reading goes on
with the byte after it.
-/
namespace RocketPuzzle.Text

/-- A character, or a byte that is part of none. -/
inductive Piece where
  | char (c : Char)
  | stray (b : UInt8)
  deriving DecidableEq, Repr

def isTail (b : UInt8) : Bool := 0x80 ≤ b && b ≤ 0xBF

/-- The six bits that a tail byte carries. -/
def tailBits (b : UInt8) : Nat := b.toNat - 0x80

/-- The second byte may follow the lead of two. -/
def isPair (a b : UInt8) : Bool := 0xC2 ≤ a && a ≤ 0xDF && isTail b

/-- The second byte may follow the lead of three: no longer form than needed, no surrogate. -/
def opensTriple (a b : UInt8) : Bool :=
  (a == 0xE0 && 0xA0 ≤ b && b ≤ 0xBF) || (0xE1 ≤ a && a ≤ 0xEC && isTail b) ||
    (a == 0xED && 0x80 ≤ b && b ≤ 0x9F) || (0xEE ≤ a && a ≤ 0xEF && isTail b)

/-- The second byte may follow the lead of four: no longer form than needed, none too large. -/
def opensQuad (a b : UInt8) : Bool :=
  (a == 0xF0 && 0x90 ≤ b && b ≤ 0xBF) || (0xF1 ≤ a && a ≤ 0xF3 && isTail b) ||
    (a == 0xF4 && 0x80 ≤ b && b ≤ 0x8F)

def pairChar (a b : UInt8) : Char := Char.ofNat ((a.toNat - 0xC0) * 64 + tailBits b)

def tripleChar (a b c : UInt8) : Char :=
  Char.ofNat (((a.toNat - 0xE0) * 64 + tailBits b) * 64 + tailBits c)

def quadChar (a b c d : UInt8) : Char :=
  Char.ofNat ((((a.toNat - 0xF0) * 64 + tailBits b) * 64 + tailBits c) * 64 + tailBits d)

def pieces : List UInt8 → List Piece
  | [] => []
  | a :: rest =>
    if a < 0x80 then .char (Char.ofNat a.toNat) :: pieces rest
    else
      match rest with
      | [] => [.stray a]
      | b :: rest₂ =>
        if isPair a b then .char (pairChar a b) :: pieces rest₂
        else
          match rest₂ with
          | [] => .stray a :: pieces (b :: [])
          | c :: rest₃ =>
            if opensTriple a b && isTail c then .char (tripleChar a b c) :: pieces rest₃
            else
              match rest₃ with
              | [] => .stray a :: pieces (b :: c :: [])
              | d :: rest₄ =>
                if opensQuad a b && isTail c && isTail d then
                  .char (quadChar a b c d) :: pieces rest₄
                else .stray a :: pieces (b :: c :: d :: rest₄)

/-- The characters of a row of pieces without stray bytes. -/
def chars? : List Piece → Option (List Char)
  | [] => some []
  | .char c :: rest => (chars? rest).map (c :: ·)
  | .stray _ :: _ => none

/-- The text of a row of bytes, or nothing where it is not UTF-8 throughout. -/
def decode? (bytes : List UInt8) : Option (List Char) := chars? (pieces bytes)

/-- A text as pieces. -/
def ofChars (s : List Char) : List Piece := s.map .char

end RocketPuzzle.Text
