import StackCalc.Error
import StackCalc.Instruction

/-! # Events

What a machine and a session tell about their work, for diagnosis. Every event has a level, the
part of the program it comes from, a message and some named fields.
-/

namespace StackCalc

/-- How important an event is; the first is the most important. -/
inductive Level where
  | error | warn | info | debug | trace
  deriving DecidableEq, Repr

namespace Level

open Bytes (ascii)

def rank : Level → Nat
  | error => 1
  | warn => 2
  | info => 3
  | debug => 4
  | trace => 5

def word : Level → Bytes
  | error => ascii "ERROR"
  | warn => ascii "WARN"
  | info => ascii "INFO"
  | debug => ascii "DEBUG"
  | trace => ascii "TRACE"

end Level

inductive Value where
  | number (n : Int)
  | text (s : Bytes)
  /-- Text that a diagnostic line puts in quotes. -/
  | quoted (s : Bytes)
  deriving DecidableEq, Repr

inductive Event where
  | executing (instruction : Instruction) (depth : Nat)
  | rebound (name : Name) (previous value : Int32)
  | nothingToLoad (name : Name)
  | nothingToRemove (name : Name)
  | saving (name : Name)
  | saved (name : Name) (bindings : Nat)
  | reset (released : Nat)
  | endOfInput (instructions : Nat)
  | lineTooLong (line : Nat)
  | instructionFailed (line : Nat) (cause : Cause)
  | tooManyInstructions (most : Nat)
  | inputFinished (path : Bytes) (instructions : Nat)
  | teardown (released : Nat)
  deriving DecidableEq, Repr

namespace Event

open Bytes (ascii)

def level : Event → Level
  | executing .. | rebound .. => .trace
  | lineTooLong _ | tooManyInstructions _ => .warn
  | _ => .debug

def origin : Event → Bytes
  | executing .. | rebound .. | nothingToLoad _ | nothingToRemove _ | saving _ | reset _ =>
    ascii "dc::mach::runtime"
  | saved .. => ascii "dc::mach::codec"
  | endOfInput _ | lineTooLong _ | instructionFailed .. | tooManyInstructions _ =>
    ascii "dc::mach::driver"
  | inputFinished .. | teardown _ => ascii "dc::term"

def message : Event → Bytes
  | executing .. => ascii "execute"
  | rebound .. => ascii "updated binding"
  | nothingToLoad _ => ascii "load of unbound name"
  | nothingToRemove _ => ascii "remove of unbound name"
  | saving _ => ascii "saving table"
  | saved .. => ascii "saved table"
  | reset _ => ascii "runtime reset"
  | endOfInput _ => ascii "end of input"
  | lineTooLong _ => ascii "line exceeds maximum length"
  | instructionFailed .. => ascii "instruction failed"
  | tooManyInstructions _ => ascii "too many instructions"
  | inputFinished .. => ascii "finished input"
  | teardown _ => ascii "teardown"

def fields : Event → List (Bytes × Value)
  | executing i depth => [(ascii "instruction", .text i.shown), (ascii "depth", .number depth)]
  | rebound name previous value =>
    [(ascii "name", .text (Utf8.lossy name)), (ascii "previous", .number previous.toInt),
      (ascii "value", .number value.toInt)]
  | nothingToLoad name | nothingToRemove name => [(ascii "name", .text (Utf8.lossy name))]
  | saving name => [(ascii "file", .text (Utf8.lossy name))]
  | saved name bindings => [(ascii "file", .quoted name), (ascii "bindings", .number bindings)]
  | reset released | teardown released => [(ascii "released", .number released)]
  | endOfInput instructions => [(ascii "instructions", .number instructions)]
  | lineTooLong line => [(ascii "line", .number line)]
  | instructionFailed line cause =>
    [(ascii "line", .number line), (ascii "error", .text cause.toError.text)]
  | tooManyInstructions most => [(ascii "max_instructions", .number most)]
  | inputFinished path instructions =>
    [(ascii "path", .quoted path), (ascii "instructions", .number instructions)]

end Event

end StackCalc
