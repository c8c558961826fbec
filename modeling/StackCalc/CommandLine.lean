import StackCalc.Event.Filter
import StackCalc.Session

/-! # The command line

Every argument is the path of an input. Without arguments the usage is shown. What is told comes out
at the standard error, between what the session writes there.
-/

namespace StackCalc.CommandLine

open Bytes (ascii)

def usage (program : Bytes) : Bytes :=
  ascii "Usage: " ++ program ++ ascii " file1 file2 ...\n" ++
    ascii "       use - to read from standard input\n"

/-- Runs the inputs named by the arguments on a new machine, returning the exit status. -/
def invoke (program : Bytes) (arguments : List Bytes) (stdin : Bytes) (disk : Disk) :
    Nat × Session :=
  let session : Session :=
    { machine := { Machine.new {} with files := { disk := disk.withStreams stdin } }
      stdin := { supply := .standardInput } }
  if arguments.isEmpty then
    (0, { session with machine := { session.machine with
      err := session.machine.err.after (Sink.write (usage program)) } })
  else session.run arguments

/-- The bytes of `s` from `start` on, with every line inserted at its offset. -/
def weave (s : Bytes) (start : Nat) : List (Nat × Bytes) → Bytes
  | [] => s.drop start
  | (offset, line) :: lines => (s.drop start).take (offset - start) ++ line ++ weave s offset lines

/-- The error output of a machine, with the events that the filter admits where they happened. -/
def standardError (filter : Option Filter) (m : Machine) : Bytes :=
  let admitted := m.events.toList.filter fun e => filter.any (·.admits e.2)
  weave m.err.bytes 0 (admitted.map fun e => (e.1, e.2.line))

end StackCalc.CommandLine
