import StackCalc.Bytes.Quoted
import StackCalc.Event

/-! # Diagnostic lines

An event written as a line of text, and the filter that decides which events are written.
-/

namespace StackCalc

namespace Value

def shown : Value → Bytes
  | number n => Decimal.ofInt n
  | text s => s
  | quoted s => Quoted.quote s

end Value

/-- The level right-aligned, the origin, the message and the fields. -/
def Event.line (e : Event) : Bytes :=
  let level := e.level.word
  let fields := e.fields.flatMap fun (name, value) =>
    Bytes.ascii " " ++ name ++ Bytes.ascii "=" ++ value.shown
  List.replicate (5 - level.length) 32 ++ level ++ Bytes.ascii " " ++ e.origin ++
    Bytes.ascii ": " ++ e.message ++ fields ++ Bytes.ascii "\n"

/-- Admits the events whose origin begins with `scope` and that are at least as important as
`most`; none at all if there is no `most`. -/
structure Filter where
  scope : Bytes := []
  most : Option Level
  deriving DecidableEq, Repr

namespace Filter

open Bytes (ascii)

def admits (f : Filter) (e : Event) : Bool :=
  f.scope.isPrefixOf e.origin && f.most.any (fun l => decide (e.level.rank ≤ l.rank))

def toUpper (b : UInt8) : UInt8 := if 97 ≤ b ∧ b ≤ 122 then b - 32 else b

/-- A level by its word, in any case, or `off`. -/
def threshold? (s : Bytes) : Option (Option Level) :=
  let word := s.map toUpper
  if word = ascii "OFF" then some none
  else ([.error, .warn, .info, .debug, .trace].find? (·.word == word)).map some

/-- Reads a filter: a level for everything, or `scope=level`. A scope alone admits all of it, and
an empty filter admits errors. -/
def ofBytes (s : Bytes) : Filter :=
  match s.span (· != 61) with
  | (scope, _ :: level) => { scope, most := (threshold? level).join }
  | ([], []) => { most := some .error }
  | (word, []) =>
    match threshold? word with
    | some most => { most }
    | none => { scope := word, most := some .trace }

end Filter

end StackCalc
