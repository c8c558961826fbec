import StackCalc.Event
import StackCalc.Limits
import StackCalc.Stack
import StackCalc.Storage
import StackCalc.Table.Walk

/-! # The machine

A machine owns the operand stack and the table of names. Beside them stand the surroundings it acts
on: the files it can reach, the output meant for the user, the error output, and the events it has
told about.
-/

namespace StackCalc

structure Machine where
  limits : Limits
  stack : Stack
  table : Table := {}
  files : Files := {}
  out : Sink := {}
  err : Sink := {}
  /-- Every event with how much of the error output was written before it. -/
  events : Array (Nat × Event) := #[]

/-- An action of the machine. What it did before it failed stays done. -/
abbrev Action := EStateM Cause Machine

namespace Machine

/-- A machine with nothing on its stack and nothing in its table. -/
def new (limits : Limits) : Machine :=
  { limits, stack := { capacity := limits.stackCapacity.toNat } }

def emit (m : Machine) (e : Event) : Machine :=
  { m with events := m.events.push (m.err.written.size, e) }

/-- Writes output for the user. -/
def print (w : Writing Unit) : Action Unit := fun m =>
  match w m.out with
  | .ok _ out => .ok () { m with out }
  | .error f out => .error (.outputFailed f) { m with out }

def pushOperand (v : Int32) : Action Unit := fun m =>
  match m.stack.push v with
  | .ok stack => .ok () { m with stack }
  | .error c => .error c m

def popOperand : Action Int32 := fun m =>
  match m.stack.pop with
  | .ok (v, stack) => .ok v { m with stack }
  | .error c => .error c m

/-- Empties the stack and the table, returning the number of names released. -/
def reset (m : Machine) : Nat × Machine :=
  let (released, table) := m.table.clear
  (released, { m with stack := m.stack.clear, table }.emit (.reset released))

end Machine

end StackCalc
