/-! # Limits

The bounds a machine works within. They are words of the processor, and sums of words start again at
zero behind the greatest.
-/

namespace StackCalc

structure Limits where
  stackCapacity : UInt64 := 512
  /-- In bytes, the newline not counted. -/
  maxLineLength : UInt64 := 1022
  maxInstructions : UInt64 := 1024
  deriving DecidableEq, Repr

namespace Limits

variable {L : Limits}

/-- How much is read of a line: a byte more than it may have, to see whether it has. The sum is a
word, and for the longest lines of all it is zero. -/
def reading (L : Limits) : Nat := (L.maxLineLength + 1).toNat

theorem reading_eq (L : Limits) : L.reading = (L.maxLineLength.toNat + 1) % UInt64.size :=
  UInt64.toNat_add _ _

theorem reading_of_ne_zero (h : L.reading ≠ 0) : L.reading = L.maxLineLength.toNat + 1 := by
  have hlt := L.maxLineLength.toNat_lt_size
  rw [reading_eq, UInt64.size] at h ⊢
  rw [UInt64.size] at hlt
  omega

theorem lt_reading {n : Nat} (h : L.reading ≠ 0) (hn : n ≤ L.maxLineLength.toNat) :
    n < L.reading := by
  rw [reading_of_ne_zero h]
  exact Nat.lt_succ_of_le hn

/-- A buffer for a line can be reserved: it is smaller than half of what a word can address. -/
def Bufferable (L : Limits) : Prop := 2 * (L.maxLineLength.toNat + 1) < UInt64.size

instance (L : Limits) : Decidable L.Bufferable := inferInstanceAs (Decidable (_ < _))

theorem Bufferable.reading_ne_zero (h : L.Bufferable) : L.reading ≠ 0 := by
  rw [Bufferable, UInt64.size] at h
  rw [reading_eq, UInt64.size]
  omega

end Limits

end StackCalc
