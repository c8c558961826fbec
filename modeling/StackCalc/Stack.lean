import StackCalc.Error

/-! # The operand stack

A stack of 32-bit integers that holds at most `capacity` of them, top first.
-/

namespace StackCalc

structure Stack where
  capacity : Nat
  items : List Int32 := []
  deriving DecidableEq, Repr

namespace Stack

open Bytes (ascii)

def size (s : Stack) : Nat := s.items.length

def isEmpty (s : Stack) : Bool := s.items.isEmpty

def isFull (s : Stack) : Bool := decide (s.capacity ≤ s.size)

def top? (s : Stack) : Option Int32 := s.items.head?

def clear (s : Stack) : Stack := { s with items := [] }

def push (s : Stack) (v : Int32) : Except Cause Stack :=
  if s.isFull then .error .stackOverflow else .ok { s with items := v :: s.items }

def pop (s : Stack) : Except Cause (Int32 × Stack) :=
  match s.items with
  | a :: rest => .ok (a, { s with items := rest })
  | [] => .error .stackUnderflow

def peekTwo (s : Stack) : Except Cause (Int32 × Int32) :=
  match s.items with
  | a :: b :: _ => .ok (a, b)
  | _ => .error .stackUnderflow

def popTwo (s : Stack) : Except Cause ((Int32 × Int32) × Stack) :=
  match s.items with
  | a :: b :: rest => .ok ((a, b), { s with items := rest })
  | _ => .error .stackUnderflow

def inspect (s : Stack) : Bytes :=
  ascii "[" ++ Bytes.join (ascii ", ") (s.items.reverse.map fun v => Decimal.ofInt v.toInt) ++
    ascii "]"

theorem push_eq_ok {s s' : Stack} {v : Int32} :
    s.push v = .ok s' ↔ s.size < s.capacity ∧ s' = { s with items := v :: s.items } := by
  by_cases h : s.capacity ≤ s.size
  · simp [push, isFull, h, Nat.not_lt.2 h]
  · simp [push, isFull, h, Nat.lt_of_not_le h, eq_comm]

end Stack

end StackCalc
