import StackCalc.Disk.Fetch

/-! # Save targets

Where a saved table goes: into the file tree, onto a shelf that keeps named contents in memory, or
nowhere. Creating a target is the only step that can be refused before anything is written, and it
empties the target.
-/

namespace StackCalc

/-- How writing to a target goes. -/
structure Terms where
  /-- How many bytes the target takes; without a bound if `none`. -/
  room : Option Nat := none
  full : Fault := .system .noSpaceLeft
  flushFault : Option Fault := none
  deriving DecidableEq, Repr

def Terms.sink (c : Terms) : Sink :=
  { room := c.room, full := c.full, flushFault := c.flushFault }

/-- Named contents in memory. How a name is received may depend on all that has been saved. -/
structure Shelf where
  /-- What the names have been made to hold, the latest first. -/
  history : List (Bytes × Bytes) := []
  /-- Whether a name is refused, and what becomes of writing to it otherwise. -/
  policy : List (Bytes × Bytes) → Bytes → Except Fault Terms := fun _ _ => .ok {}

namespace Shelf

def find? (h : Shelf) (name : Bytes) : Option Bytes := h.history.lookup name

def fill (h : Shelf) (name contents : Bytes) : Shelf :=
  { h with history := (name, contents) :: h.history }

def terms (h : Shelf) (name : Bytes) : Except Fault Terms := h.policy h.history name

def create (h : Shelf) (name : Bytes) : Except Fault (Sink × Shelf) := do
  let c ← h.terms name
  return (c.sink, h.fill name [])

def listing (h : Shelf) : List (Bytes × Bytes) :=
  let files := h.history.foldr (fun e l => Entries.put l e.1 e.2) []
  files.mergeSort fun a b => (compare a.1 b.1).isLE

end Shelf

inductive Storage where
  | disk
  | shelf (shelf : Shelf)
  | discard

/-- The files a machine can reach: the tree its inputs are opened in, and where it saves to. -/
structure Files where
  disk : Disk := .empty
  storage : Storage := .disk

namespace Files

def create (f : Files) (name : Bytes) : Except Fault (Sink × Files) :=
  match f.storage with
  | .disk => do
    let (k, disk) ← f.disk.create name
    return (k, { f with disk })
  | .shelf h => do
    let (k, h) ← h.create name
    return (k, { f with storage := .shelf h })
  | .discard => .ok ({}, f)

/-- Lets a target that has been created hold `contents`. -/
def fill (f : Files) (name contents : Bytes) : Files :=
  match f.storage with
  | .disk => { f with disk := f.disk.fill name contents }
  | .shelf h => { f with storage := .shelf (h.fill name contents) }
  | .discard => f

def stream? (f : Files) (name : Bytes) : Option Stream :=
  match f.storage with
  | .disk => f.disk.stream? name
  | _ => none

end Files

end StackCalc
