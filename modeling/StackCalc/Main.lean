import StackCalc.CommandLine

/-! # The program

A session works on values. What the arguments name is read before it starts, and so is what is in
the way of its saves; what it has written and saved is handed over when it has ended.
-/

namespace StackCalc.Main

open Bytes (ascii)

def bytesOf (s : String) : Bytes := s.toUTF8.toList

def arrayOf (s : Bytes) : ByteArray := ⟨s.toArray⟩

/-- A disk that is worked on from the directory the program is run in. -/
def surroundings : IO Disk := do
  let home := Path.components (bytesOf (← IO.currentDir).toString)
  let ancestors := (List.range (home.length + 1)).map fun n => (home.take n, Entry.directory)
  return { Disk.empty with home, entries := ancestors ++ Disk.empty.entries }

/-- The name by which the system knows a place. -/
def nameOf (p : Path) : Option String :=
  let name := Path.slash :: Bytes.join [Path.slash] p
  if name.contains 0 then none else String.fromUTF8? (arrayOf name)

def denied : Access :=
  { reading := some (.system .permissionDenied), writing := some (.system .permissionDenied) }

/-- The disk with what the system has at a place in a directory. -/
def gatherAt (d : Disk) (p : Path) : IO Disk := do
  let some name := nameOf p | return d
  if ((d.withStreams []).find? p).isSome || d.find? p.dropLast != some .directory then return d
  match ← (IO.FS.readBinFile name).toBaseIO with
  | .ok contents => return d.put p (.file contents.toList)
  | .error (.inappropriateType _ 21 _) => return d.put p .directory
  | .error (.permissionDenied ..) => return d.put p (.file [] denied)
  | .error _ => return d

/-- The disk with what the system has along a path. -/
def gather (d : Disk) (path : Bytes) : IO Disk := do
  let start := if Path.isAbsolute path then [] else d.home
  let (d, _) ← (Path.components path).foldlM (fun (d, p) name => do
    let p := Path.follow p name
    return (← gatherAt d p, p)) (d, start)
  return d

/-- The names that the lines of a text save to. -/
def targets (text : Bytes) : List Name :=
  (text.splitOn Bytes.newline).filterMap fun line =>
    match (Line.ofBytes line).instruction? with
    | .ok (some (.save name)) => some name
    | _ => none

/-- Whether a path leads to the standard input. -/
def isInput (path : Bytes) : Bool :=
  path == Session.stdinPath ||
    match (Disk.empty.withStreams []).openSource path with
    | .ok source => source.supply == .standardInput
    | .error _ => false

partial def readAll (stream : IO.FS.Stream) (before : Bytes) : IO Bytes := do
  let more ← stream.read Disk.blockSize.toUSize
  if more.isEmpty then return before else readAll stream (before ++ more.toList)

def contents? (d : Disk) (name : Bytes) : Option Bytes :=
  match d.locate name with
  | .ok p => match d.find? p with
    | some (.file contents _) => some contents
    | _ => none
  | .error _ => none

/-- Writes the files that have changed. -/
def handOver (before after : Disk) : IO Unit :=
  after.entries.forM fun (p, e) => do
    match e, nameOf p with
    | .file contents _, some name =>
      unless before.find? p == some e do IO.FS.writeBinFile name (arrayOf contents)
    | _, _ => return ()

def start (arguments : List Bytes) : IO UInt32 := do
  let filter := (← IO.getEnv "RUST_LOG").map fun s => Filter.ofBytes (bytesOf s)
  let stdin ← if arguments.any isInput then readAll (← IO.getStdin) [] else pure []
  let disk ← arguments.foldlM gather (← surroundings)
  let saved := (stdin :: arguments.map fun path => (contents? disk path).getD []).flatMap targets
  let disk ← saved.foldlM gather disk
  let (status, w) := CommandLine.invoke (ascii "dc") arguments stdin disk
  handOver disk w.machine.files.disk
  (← IO.getStdout).write (arrayOf w.machine.out.bytes)
  (← IO.getStderr).write (arrayOf (CommandLine.standardError filter w.machine))
  return status.toUInt32

end StackCalc.Main

def main (arguments : List String) : IO UInt32 :=
  StackCalc.Main.start (arguments.map StackCalc.Main.bytesOf)
