import StackCalc.Fault
import StackCalc.Path

/-! # Sources

Where input is read from. The bytes that a source has fetched are read line by line; when they hold
no whole line it is supplied with more. A source may also fail at an offset: it hands out the bytes
before it, and fails when it is asked for more.
-/

namespace StackCalc

/-- The offset at which a source gives up, and how. -/
structure Cut where
  offset : Nat
  fault : Fault
  deriving DecidableEq, Repr

/-- What a source is supplied from once the bytes it has fetched are read. -/
inductive Supply where
  | nothing
  /-- The file at a place, from where the source has got to. -/
  | file (place : Path)
  /-- The standard input. Whatever is fetched from it is gone for other sources. -/
  | standardInput
  | zeros
  deriving DecidableEq, Repr

structure Source where
  /-- The bytes fetched and not yet read. -/
  rest : Bytes := []
  /-- How many bytes have been read. -/
  consumed : Nat := 0
  cut : Option Cut := none
  supply : Supply := .nothing
  deriving DecidableEq, Repr

namespace Source

def ofBytes (s : Bytes) : Source := { rest := s }

def skip (r : Source) (n : Nat) : Source :=
  { r with rest := r.rest.drop n, consumed := r.consumed + n }

/-- Whether the source fails when it is asked for more. -/
def cutOff? (r : Source) : Option Fault :=
  r.cut.bind fun c => if c.offset ≤ r.consumed then some c.fault else none

/-- How many of the next `n` bytes come before the cut. -/
def reach (r : Source) (n : Nat) : Nat :=
  match r.cut with
  | some c => min n (c.offset - r.consumed)
  | none => n

/-- How far to read for a line: up to and including a newline, but at most `limit` bytes. -/
def lineReach (limit : Nat) (s : Bytes) : Nat :=
  min limit ((s.takeWhile (· != Bytes.newline)).length + 1)

/-- Whether there is a whole line in `s`, or one of `limit` bytes. -/
def holdsLine : (limit : Nat) → Bytes → Bool
  | 0, _ => true
  | _ + 1, [] => false
  | limit + 1, b :: s => b == Bytes.newline || holdsLine limit s

/-- Reads up to and including a newline, but at most `limit` bytes. Less than that without a
newline is read only where the source ends; where it fails instead, the bytes before are gone. -/
def readLine (limit : Nat) (r : Source) : Except Fault Bytes × Source :=
  let line := r.rest.take (r.reach (lineReach limit r.rest))
  let r' := r.skip line.length
  if line.length = limit || line.getLast? = some Bytes.newline then (.ok line, r')
  else
    match r'.cutOff? with
    | some f => (.error f, r')
    | none => (.ok line, r')

/-- Whether there is more to read, without reading it. -/
def hasMore (r : Source) : Except Fault Bool :=
  match r.cutOff? with
  | some f => .error f
  | none => .ok !r.rest.isEmpty

end Source

end StackCalc
