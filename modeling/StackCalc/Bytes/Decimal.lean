import StackCalc.Bytes

/-! # Decimal text

Numbers are written without leading zeros. An integer is read from an optional sign and at least
one digit, leading zeros allowed, and the whole text has to be the number.
-/

namespace StackCalc.Decimal

def ofNat (n : Nat) : Bytes := (Nat.toDigits 10 n).map Char.toUInt8

def ofInt : Int → Bytes
  | .ofNat n => ofNat n
  | .negSucc n => 45 :: ofNat (n + 1)

def isDigit (b : UInt8) : Bool := decide (48 ≤ b) && decide (b ≤ 57)

/-- The number that a run of digits denotes. -/
def magnitude (digits : Bytes) : Nat :=
  digits.foldl (fun n b => 10 * n + (b.toNat - 48)) 0

def readNat? (s : Bytes) : Option Nat :=
  if !s.isEmpty && s.all isDigit then some (magnitude s) else none

def readInt? : Bytes → Option Int
  | 43 :: digits => (readNat? digits).map Int.ofNat
  | 45 :: digits => (readNat? digits).map fun n => -(n : Int)
  | digits => (readNat? digits).map Int.ofNat

/-- Reads an integer between -2^31 and 2^31 - 1. -/
def readInt32? (s : Bytes) : Option Int32 :=
  (readInt? s).bind fun n =>
    if Int32.minValue.toInt ≤ n ∧ n ≤ Int32.maxValue.toInt then some (Int32.ofInt n) else none

end StackCalc.Decimal
