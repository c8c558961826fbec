import StackCalc.Bytes.Utf8
import StackCalc.Fault
import StackCalc.Opcode

/-! # Errors

A `Cause` is the reason an instruction or a run fails. An `Error` is how a failure is reported: a
code, the line it happened in if there is one, and a detail that may be empty. Every cause has one
code and one detail.
-/

namespace StackCalc

inductive Kind where
  | syntactic | state | io | limit
  deriving DecidableEq, Repr

inductive Code where
  | syntaxError
  | illegalArgumentCount
  | invalidNumber
  | stackOverflow
  | stackUnderflow
  | divisionByZero
  | badFileName
  | diskError
  | lineBufferOverflow
  | tooManyInstructions
  deriving DecidableEq, Repr

namespace Code

open Bytes (ascii)

def number : Code → Nat
  | syntaxError => 2
  | illegalArgumentCount => 3
  | invalidNumber => 4
  | stackOverflow => 10
  | stackUnderflow => 11
  | divisionByZero => 12
  | badFileName => 20
  | diskError => 21
  | lineBufferOverflow => 30
  | tooManyInstructions => 31

def kind : Code → Kind
  | syntaxError | illegalArgumentCount | invalidNumber => .syntactic
  | stackOverflow | stackUnderflow | divisionByZero => .state
  | badFileName | diskError => .io
  | lineBufferOverflow | tooManyInstructions => .limit

def text : Code → Bytes
  | syntaxError => ascii "SYNTAX ERROR"
  | illegalArgumentCount => ascii "ILLEGAL ARGUMENT COUNT"
  | invalidNumber => ascii "INVALID NUMBER"
  | stackOverflow => ascii "STACK OVERFLOW"
  | stackUnderflow => ascii "STACK UNDERFLOW"
  | divisionByZero => ascii "DIVISION BY ZERO"
  | badFileName => ascii "BAD FILE NAME"
  | diskError => ascii "DISK I/O ERROR"
  | lineBufferOverflow => ascii "LINE BUFFER OVERFLOW"
  | tooManyInstructions => ascii "TOO MANY INSTRUCTIONS"

end Code

structure Error where
  code : Code
  line : Option Nat := none
  detail : Bytes := []
  deriving DecidableEq, Repr

namespace Error

open Bytes (ascii)

def text (e : Error) : Bytes :=
  let line := match e.line with
    | some k => ascii " " ++ Decimal.ofNat k
    | none => []
  let detail := if e.detail.isEmpty then [] else ascii "; " ++ e.detail
  if e.line.isNone && e.detail.isEmpty then e.code.text
  else e.code.text ++ ascii " IN" ++ line ++ detail

def inspect (e : Error) : Bytes := ascii "Error \x7b " ++ e.text ++ ascii " \x7d"

end Error

inductive Cause where
  | unknownInstruction (word : Bytes)
  | argumentCount (op : Opcode) (found : Nat)
  | notAnInteger (field : Bytes)
  | stackOverflow
  | stackUnderflow
  | divisionByZero
  | targetNotText (name : Bytes)
  | targetRefused (name : Bytes) (fault : Fault)
  | targetFailed (name : Bytes) (fault : Fault)
  | outputFailed (fault : Fault)
  | inputFailed (fault : Fault)
  | lineTooLong (most : Nat)
  | tooManyInstructions (most : Nat)
  deriving DecidableEq, Repr

namespace Cause

open Bytes (ascii)

def code : Cause → Code
  | unknownInstruction _ => .syntaxError
  | argumentCount _ _ => .illegalArgumentCount
  | notAnInteger _ => .invalidNumber
  | stackOverflow => .stackOverflow
  | stackUnderflow => .stackUnderflow
  | divisionByZero => .divisionByZero
  | targetNotText _ | targetRefused _ _ => .badFileName
  | targetFailed _ _ | outputFailed _ | inputFailed _ => .diskError
  | lineTooLong _ => .lineBufferOverflow
  | tooManyInstructions _ => .tooManyInstructions

def detail : Cause → Bytes
  | unknownInstruction word => ascii "UNKNOWN INSTRUCTION " ++ Utf8.lossy word
  | argumentCount op found =>
    op.word ++ ascii " EXPECTS " ++ Decimal.ofNat op.arity ++ ascii " ARGUMENT(S) BUT FOUND " ++
      Decimal.ofNat found
  | notAnInteger field => ascii "NOT A 32-BIT INTEGER: " ++ Utf8.lossy field
  | stackOverflow => ascii "OPERAND STACK IS FULL"
  | stackUnderflow | divisionByZero => []
  | targetNotText name => ascii "FILE NAME " ++ Utf8.lossy name ++ ascii " IS NOT UTF-8"
  | targetRefused name fault =>
    ascii "COULDN'T OPEN " ++ name ++ ascii " FOR WRITING; " ++ fault.text
  | targetFailed name fault => ascii "WRITING " ++ name ++ ascii "; " ++ fault.text
  | outputFailed fault | inputFailed fault => fault.text
  | lineTooLong most => ascii "LINE EXCEEDS MAXIMUM LENGTH (" ++ Decimal.ofNat most ++ ascii ")"
  | tooManyInstructions most =>
    ascii "NUMBER OF INSTRUCTIONS EXCEEDS MAXIMUM (" ++ Decimal.ofNat most ++ ascii ")"

def toError (c : Cause) : Error := { code := c.code, detail := c.detail }

def atLine (c : Cause) (k : Nat) : Error := { c.toError with line := some k }

end Cause

end StackCalc
