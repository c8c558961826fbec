import StackCalc.Machine.Execute

/-! # Running an input

An input is executed line by line until it ends or a line fails. Lines count from one, blank ones
too; the last one needs no newline. A line longer than the limit and a line after the last one
allowed are failures of their own, and the rest of the input stays unread.
-/

namespace StackCalc.Machine

/-- How a run ended: the number of lines executed or the error, and what is left of the input. -/
structure Outcome where
  result : Except Error Nat
  input : Source
  machine : Machine

/-- What reading and executing one line comes to. -/
inductive Step where
  | next (input : Source) (machine : Machine)
  | halt (outcome : Outcome)

/-- The line without its newline. -/
def lineContent (line : Bytes) : Bytes :=
  if line.getLast? = some Bytes.newline then line.dropLast else line

def finish (count : Nat) (input : Source) (m : Machine) : Outcome :=
  ⟨.ok count, input, m.emit (.endOfInput count)⟩

/-- Executes the line `content`, the one after `count` others. -/
def executeLine (count : Nat) (content : Bytes) (input : Source) (m : Machine) : Step :=
  let most := m.limits.maxLineLength.toNat
  if most < content.length then
    .halt ⟨.error ((Cause.lineTooLong most).atLine (count + 1)), input,
      m.emit (.lineTooLong (count + 1))⟩
  else
    match execute content m with
    | .ok _ m => .next input m
    | .error c m =>
      .halt ⟨.error (c.atLine (count + 1)), input, m.emit (.instructionFailed (count + 1) c)⟩

/-- Supplies the input with a line of at most `limit` bytes, from the files of the machine. -/
def supply (limit : Nat) (input : Source) (m : Machine) : Source × Machine :=
  let (input, disk) := m.files.disk.fetch limit input
  (input, { m with files := { m.files with disk } })

theorem supply_of_supply_eq_nothing (limit : Nat) {input : Source} (m : Machine)
    (h : input.supply = .nothing) : supply limit input m = (input, m) := by
  simp [supply, Disk.fetch_of_supply_eq_nothing _ _ h]

def step (count : Nat) (input : Source) (m : Machine) : Step :=
  let limit := m.limits.reading
  let (input, m) := supply limit input m
  match input.readLine limit with
  | (.error f, input) => .halt ⟨.error ((Cause.inputFailed f).atLine (count + 1)), input, m⟩
  | (.ok [], input) => .halt (finish count input m)
  | (.ok line, input) => executeLine count (lineContent line) input m

/-- All the lines allowed have been executed: the input should end here. -/
def expectEnd (count : Nat) (input : Source) (m : Machine) : Outcome :=
  let (input, m) := supply 1 input m
  match input.hasMore with
  | .error f => ⟨.error ((Cause.inputFailed f).atLine (count + 1)), input, m⟩
  | .ok false => finish count input m
  | .ok true =>
    let most := m.limits.maxInstructions.toNat
    ⟨.error ((Cause.tooManyInstructions most).atLine (count + 1)), input,
      m.emit (.tooManyInstructions most)⟩

def runLines : (left count : Nat) → Source → Machine → Outcome
  | 0, count, input, m => expectEnd count input m
  | left + 1, count, input, m =>
    match step count input m with
    | .next input m => runLines left (count + 1) input m
    | .halt outcome => outcome

def run (input : Source) (m : Machine) : Outcome :=
  runLines m.limits.maxInstructions.toNat 0 input m

end StackCalc.Machine
