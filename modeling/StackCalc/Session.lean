import StackCalc.Machine.Run

/-! # Sessions

A session runs several inputs in turn on one machine. An input that fails is reported and the next
one goes on from the state it left; an input that cannot be opened ends the session.
-/

namespace StackCalc

inductive Interruption where
  | cannotOpen (path : Bytes) (fault : Fault)
  | cannotWrite (fault : Fault)
  deriving DecidableEq, Repr

namespace Interruption

open Bytes (ascii)

def text : Interruption → Bytes
  | cannotOpen path fault =>
    ascii "Error opening " ++ path ++ ascii " for reading; " ++ fault.text
  | cannotWrite fault => fault.text

end Interruption

structure Session where
  machine : Machine
  /-- What is left of the standard input. -/
  stdin : Source := {}

namespace Session

open Bytes (ascii)

abbrev Work := EStateM Interruption Session

/-- Writes to one of the two outputs. -/
def writing (stream : Stream) (a : Writing Unit) : Work Unit := fun w =>
  match a (w.machine.sink stream) with
  | .ok _ k => .ok () { w with machine := w.machine.withSink stream k }
  | .error f k => .error (.cannotWrite f) { w with machine := w.machine.withSink stream k }

def tell (e : Event) : Work Unit :=
  modify fun w => { w with machine := w.machine.emit e }

def header (path : Bytes) : Bytes := ascii "Running on input file " ++ path ++ ascii "\n"

/-- The error in bold type, and a line that says it is one. -/
def report (e : Error) : List Bytes :=
  [ascii "\x1b[1m" ++ e.text ++ ascii "\x1b[0m\n", ascii "Error\n"]

def stdinPath : Bytes := ascii "-"

/-- Runs an input, and says how the run ended. -/
def runInput (path : Bytes) : Work (Except Error Nat) := fun w =>
  if path = stdinPath then
    let o := w.machine.run w.stdin
    .ok o.result { machine := o.machine, stdin := o.input }
  else
    match w.machine.files.disk.openSource path with
    | .error f => .error (.cannotOpen path f) w
    | .ok input =>
      let o := w.machine.run input
      .ok o.result { w with machine := o.machine }

def visit (path : Bytes) : Work Unit := do
  writing .output (Sink.write (header path))
  let result ← runInput path
  writing .output Sink.flush
  match result with
  | .ok count => tell (.inputFinished path count)
  | .error e => writing .errors (Sink.writeAll (report e))

def visitAll (paths : List Bytes) : Work Unit := paths.forM visit

def teardown (w : Session) : Session :=
  let (released, m) := w.machine.reset
  { w with machine := m.emit (.teardown released) }

/-- Runs every input and tears the machine down, returning the exit status. -/
def run (paths : List Bytes) (w : Session) : Nat × Session :=
  match visitAll paths w with
  | .ok _ w => (0, w.teardown)
  | .error i w =>
    let w := w.teardown
    (1, { w with machine := { w.machine with
      err := w.machine.err.after (Sink.write (i.text ++ ascii "\n")) } })

end Session

end StackCalc
