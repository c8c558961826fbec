import StackCalc.Bytes.Decimal
import StackCalc.Bytes.Utf8
import StackCalc.Opcode

/-! # Instructions

`text` writes an instruction so that it can be read back, the name byte for byte; `shown` is for
people to read.
-/

namespace StackCalc

abbrev Name := Bytes

inductive Instruction where
  | push (value : Int32)
  | pop
  | add | sub | mul | div
  | load (name : Name)
  | store (name : Name)
  | remove (name : Name)
  | save (name : Name)
  | list
  | print
  deriving DecidableEq, Repr

namespace Instruction

open Bytes (ascii)

def opcode : Instruction → Opcode
  | push _ => .push
  | pop => .pop
  | add => .add
  | sub => .sub
  | mul => .mul
  | div => .div
  | load _ => .load
  | store _ => .store
  | remove _ => .remove
  | save _ => .save
  | list => .list
  | print => .print

def value? : Instruction → Option Int32
  | push v => some v
  | _ => none

def name? : Instruction → Option Name
  | load n | store n | remove n | save n => some n
  | _ => none

def text : Instruction → Bytes
  | push v => Opcode.push.word ++ ascii " " ++ Decimal.ofInt v.toInt
  | load n => Opcode.load.word ++ ascii " " ++ n
  | store n => Opcode.store.word ++ ascii " " ++ n
  | remove n => Opcode.remove.word ++ ascii " " ++ n
  | save n => Opcode.save.word ++ ascii " " ++ n
  | i => i.opcode.word

def shown (i : Instruction) : Bytes :=
  match i with
  | push v => i.opcode.word ++ ascii " " ++ Decimal.ofInt v.toInt
  | load n | store n | remove n | save n => i.opcode.word ++ ascii " " ++ Utf8.lossy n
  | _ => i.opcode.word

end Instruction

end StackCalc
