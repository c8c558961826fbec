import StackCalc.Instruction.Line
import StackCalc.Machine.Save

/-! # Executing instructions

An instruction either completes, or fails and leaves stack and table as they were.
-/

namespace StackCalc.Machine

open Bytes (ascii)

def tell (e : Event) : Action Unit := modify (·.emit e)

/-- Replaces the top `a` and the operand `b` under it by `f a b`; both stay if `f` fails. -/
def arithmetic (f : Int32 → Int32 → Except Cause Int32) : Action Unit := fun m =>
  match m.stack.peekTwo with
  | .error c => .error c m
  | .ok (a, b) =>
    match f a b with
    | .error c => .error c m
    | .ok v =>
      match m.stack.popTwo with
      | .error c => .error c m
      | .ok (_, stack) => pushOperand v { m with stack }

def quotient (a b : Int32) : Except Cause Int32 :=
  if b = 0 then .error .divisionByZero else .ok (a / b)

def load (name : Name) : Action Unit := do
  match (← get).table.get? name with
  | some v => pushOperand v
  | none =>
    tell (.nothingToLoad name)
    print (Sink.write (ascii "Not found.\n"))

def store (name : Name) : Action Unit := do
  let v ← popOperand
  let m ← get
  let (previous?, table) := m.table.insert name v
  set { m with table }
  if let some previous := previous? then tell (.rebound name previous v)

def remove (name : Name) : Action Unit := do
  let m ← get
  let (value?, table) := m.table.remove name
  set { m with table }
  if value?.isNone then tell (.nothingToRemove name)

def perform : Instruction → Action Unit
  | .push v => pushOperand v
  | .pop => do let _ ← popOperand
  | .add => arithmetic fun a b => .ok (a + b)
  | .sub => arithmetic fun a b => .ok (a - b)
  | .mul => arithmetic fun a b => .ok (a * b)
  | .div => arithmetic quotient
  | .load name => load name
  | .store name => store name
  | .remove name => remove name
  | .save name => do
    tell (.saving name)
    save name
  | .list => do
    let nodes := (← get).table.ascending
    print (nodes.forM fun n => Sink.writeAll n.listing)
  | .print => do
    let items := (← get).stack.items
    print (items.forM fun v => Sink.writeAll [Decimal.ofInt v.toInt, ascii "\n"])

/-- Executes one line of instruction text. A blank line does nothing. -/
def execute (line : Bytes) : Action Unit := fun m =>
  match (Line.ofBytes line).instruction? with
  | .error c => .error c m
  | .ok none => .ok () m
  | .ok (some i) => perform i (m.emit (.executing i m.stack.size))

end StackCalc.Machine
