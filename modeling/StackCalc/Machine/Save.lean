import StackCalc.Machine.Basic

/-! # Saving a table

A saved table is instruction text: for every binding a `push` of its value and a `store` of its
name, level by level. Parents come before their children, so running the text on an empty table
builds the same tree again.
-/

namespace StackCalc

open Bytes (ascii)

/-- The two lines that bind a name again, piece by piece. -/
def Node.statements (n : Node) : List Bytes :=
  [(Instruction.push n.value).text, ascii "\n", (Instruction.store n.name).text, ascii "\n"]

/-- Writes the table, returning the number of bindings written. -/
def Table.encode (t : Table) : Writing Nat := do
  let nodes := t.byLevel
  nodes.forM fun n => Sink.writeAll n.statements
  Sink.flush
  return nodes.length

def Table.text (t : Table) : Bytes := t.byLevel.flatMap fun n => n.statements.flatten

theorem Table.encode_eq_write (t : Table) :
    t.encode = do
      Sink.write t.text
      Sink.flush
      return t.byLevel.length := by
  have h := Sink.forM_eq_write (f := fun n : Node => Sink.writeAll n.statements)
    (fun n => Sink.writeAll_eq_write n.statements) t.byLevel
  rw [encode, h, text]

/-- Writes the table to the target `name`. Target names have to be text. -/
def Files.save (f : Files) (t : Table) (name : Name) : Except Cause Nat × Files :=
  if !Utf8.isWellFormed name then (.error (.targetNotText name), f)
  else
    match f.create name with
    | .error fault => (.error (.targetRefused name fault), f)
    | .ok (k, f) =>
      match t.encode k with
      | .ok count k => (.ok count, f.fill name k.bytes)
      | .error fault k => (.error (.targetFailed name fault), f.fill name k.bytes)

namespace Machine

def sink (m : Machine) : Stream → Sink
  | .output => m.out
  | .errors => m.err

def withSink (m : Machine) : Stream → Sink → Machine
  | .output, out => { m with out }
  | .errors, err => { m with err }

/-- Writes the table to a standard output, where it follows what has been written before. -/
def saveTo (stream : Stream) (name : Name) : Action Unit := fun m =>
  match m.table.encode (m.sink stream) with
  | .ok count k => .ok () ((m.withSink stream k).emit (.saved name count))
  | .error fault k => .error (.targetFailed name fault) (m.withSink stream k)

def saveFile (name : Name) : Action Unit := fun m =>
  match m.files.save m.table name with
  | (.ok count, files) => .ok () ({ m with files }.emit (.saved name count))
  | (.error c, files) => .error c { m with files }

def save (name : Name) : Action Unit := fun m =>
  match m.files.stream? name with
  | some stream => if Utf8.isWellFormed name then saveTo stream name m else saveFile name m
  | none => saveFile name m

end Machine

end StackCalc
