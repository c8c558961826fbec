import StackCalc.Table.Basic

/-! # Walks through a table

Two ways to visit every node below a slot once: in ascending order of names, and level by level
from left to right. Each keeps the slots it still has to visit, so a walk can stop after any node.
-/

namespace StackCalc

namespace Table

/-- A walk in ascending order: the ancestors whose left side is under way, the nearest first, and
the subtree to enter next. -/
structure Ascending where
  pending : List Nat := []
  cursor : Option Nat

namespace Ascending

/-- Puts the left spine below `cursor` on top of `pending`. -/
def dive (t : Table) : (fuel : Nat) → (pending : List Nat) → (cursor : Option Nat) →
    Except Damage (List Nat)
  | _, pending, none => .ok pending
  | 0, _, some _ => .error .endless
  | fuel + 1, pending, some i => do
    let n ← t.node i
    dive t fuel (i :: pending) n.left

def next (t : Table) (w : Ascending) : Except Damage (Option (Nat × Ascending)) := do
  match ← dive t t.slots.size w.pending w.cursor with
  | [] => return none
  | i :: pending =>
    let n ← t.node i
    return some (i, { pending, cursor := n.right })

/-- The slots that `w` has still to visit, after those in `visited`. -/
def collect (t : Table) : (fuel : Nat) → (visited : Array Nat) → Ascending →
    Except Damage (Array Nat)
  | 0, _, _ => .error .endless
  | fuel + 1, visited, w => do
    match ← w.next t with
    | none => return visited
    | some (i, w) => collect t fuel (visited.push i) w

end Ascending

/-- A walk by levels: the slots to visit next, in order. -/
structure ByLevel where
  queue : List Nat

namespace ByLevel

def next (t : Table) (w : ByLevel) : Except Damage (Option (Nat × ByLevel)) :=
  match w.queue with
  | [] => .ok none
  | i :: queue => do
    let n ← t.node i
    return some (i, { queue := queue ++ n.left.toList ++ n.right.toList })

/-- The slots that `w` has still to visit, after those in `visited`. -/
def collect (t : Table) : (fuel : Nat) → (visited : Array Nat) → ByLevel →
    Except Damage (Array Nat)
  | 0, _, _ => .error .endless
  | fuel + 1, visited, w => do
    match ← w.next t with
    | none => return visited
    | some (i, w) => collect t fuel (visited.push i) w

end ByLevel

/-- The slots below `start` in ascending order of their names. -/
def ascendingFrom (t : Table) (start : Option Nat) : Except Damage (Array Nat) :=
  Ascending.collect t (t.slots.size + 1) #[] { cursor := start }

/-- The slots below `start` level by level. -/
def byLevelFrom (t : Table) (start : Option Nat) : Except Damage (Array Nat) :=
  ByLevel.collect t (t.slots.size + 1) #[] { queue := start.toList }

/-- The nodes in the slots that a walk visited. -/
def nodesOf (t : Table) (walk : Except Damage (Array Nat)) : List Node :=
  match walk with
  | .ok slots => slots.toList.filterMap fun i => (t.node i).toOption
  | .error _ => []

def ascending (t : Table) : List Node := t.nodesOf (t.ascendingFrom t.root)

def byLevel (t : Table) : List Node := t.nodesOf (t.byLevelFrom t.root)

def nameAt? (t : Table) (i : Nat) : Option Name := (t.node i).toOption.map Node.name

def rootName? (t : Table) : Option Name := t.root.bind t.nameAt?

end Table

namespace Node

open Bytes (ascii)

/-- What `list` writes for a binding, piece by piece, the name byte for byte. -/
def listing (n : Node) : List Bytes :=
  [ascii "VARIABLE: ", n.name, ascii ", VALUE: ", Decimal.ofInt n.value.toInt, ascii "\n"]

def shown (n : Node) : Bytes :=
  ascii "VARIABLE: " ++ Utf8.lossy n.name ++ ascii ", VALUE: " ++ Decimal.ofInt n.value.toInt

def inspect (n : Node) : Bytes :=
  Utf8.lossy n.name ++ ascii "=" ++ Decimal.ofInt n.value.toInt

end Node

end StackCalc
