import StackCalc.Error
import StackCalc.Instruction

/-! # Lines of instruction text

A line is read as its first four fields. One argument is the most any instruction takes, so four
fields are enough to tell a proper line from one with something left over.
-/

namespace StackCalc

namespace Opcode

def instruction : Opcode → List Bytes → Except Cause Instruction
  | push, [field] =>
    match Decimal.readInt32? field with
    | some v => .ok (.push v)
    | none => .error (.notAnInteger field)
  | load, [n] => .ok (.load n)
  | store, [n] => .ok (.store n)
  | remove, [n] => .ok (.remove n)
  | save, [n] => .ok (.save n)
  | pop, [] => .ok .pop
  | add, [] => .ok .add
  | sub, [] => .ok .sub
  | mul, [] => .ok .mul
  | div, [] => .ok .div
  | list, [] => .ok .list
  | print, [] => .ok .print
  | op, arguments => .error (.argumentCount op arguments.length)

theorem instruction_of_length_ne {op : Opcode} {arguments : List Bytes}
    (h : arguments.length ≠ op.arity) :
    op.instruction arguments = .error (.argumentCount op arguments.length) := by
  rcases arguments with _ | ⟨a, _ | ⟨b, rest⟩⟩ <;> cases op <;>
    first | rfl | exact absurd rfl h

end Opcode

structure Line where
  fields : List Bytes
  deriving DecidableEq, Repr

namespace Line

def mostFields : Nat := 4

def ofBytes (s : Bytes) : Line := ⟨Bytes.firstFields s mostFields⟩

def isBlank (l : Line) : Bool := l.fields.isEmpty

def word? (l : Line) : Option Bytes := l.fields.head?

def arguments (l : Line) : List Bytes := l.fields.tail

def shown (l : Line) : Bytes := Bytes.join (Bytes.ascii " ") (l.fields.map Utf8.lossy)

/-- The instruction on the line, or nothing if the line is blank. -/
def instruction? (l : Line) : Except Cause (Option Instruction) :=
  match l.fields with
  | [] => .ok none
  | word :: arguments =>
    match Opcode.ofWord? word with
    | none => .error (.unknownInstruction word)
    | some op => (op.instruction arguments).map some

end Line

end StackCalc
