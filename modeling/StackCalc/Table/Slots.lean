import StackCalc.Instruction

/-! # The slots of a table

A table keeps its nodes in an array of slots. Nodes refer to their children by slot, so that a
subtree moves by changing one link, and a slot that has been given up is used again before the
array grows.

The operations check every link they follow. A link that leads nowhere is reported as `Damage`;
tables that are only changed through their own operations never come to that.
-/

namespace StackCalc

structure Node where
  name : Name
  value : Int32
  left : Option Nat := none
  right : Option Nat := none
  deriving DecidableEq, Repr

inductive Slot where
  | vacant
  | occupied (node : Node)
  deriving DecidableEq, Repr

/-- Where a subtree hangs from. -/
inductive Link where
  | root
  | left (parent : Nat)
  | right (parent : Nat)
  deriving DecidableEq, Repr

inductive Damage where
  /-- The slot is vacant or past the end of the array. -/
  | brokenLink (slot : Nat)
  /-- A slot is given up that holds nothing. -/
  | releasedTwice (slot : Nat)
  /-- Two sibling subtrees hold the same name. -/
  | sharedName (name : Name)
  /-- More nodes are given up than were counted. -/
  | miscounted
  /-- A path goes on for longer than there are slots. -/
  | endless
  deriving DecidableEq, Repr

structure Table where
  slots : Array Slot := #[]
  /-- The vacant slots, the one given up last first. -/
  free : List Nat := []
  root : Option Nat := none
  /-- The number of bindings. -/
  size : Nat := 0
  deriving DecidableEq, Repr

namespace Table

def isEmpty (t : Table) : Bool := t.root.isNone

def node (t : Table) (i : Nat) : Except Damage Node :=
  match t.slots[i]? with
  | some (.occupied n) => .ok n
  | _ => .error (.brokenLink i)

def put (t : Table) (i : Nat) (n : Node) : Table :=
  { t with slots := t.slots.setIfInBounds i (.occupied n) }

/-- Lets `link` lead to `target`. -/
def relink (t : Table) (link : Link) (target : Option Nat) : Except Damage Table :=
  match link with
  | .root => .ok { t with root := target }
  | .left i => do
    let n ← t.node i
    return t.put i { n with left := target }
  | .right i => do
    let n ← t.node i
    return t.put i { n with right := target }

/-- Finds a slot for a new node, one given up before if there is any. -/
def allocate (t : Table) (n : Node) : Except Damage (Nat × Table) :=
  match t.free with
  | [] => .ok (t.slots.size, { t with slots := t.slots.push (.occupied n), size := t.size + 1 })
  | i :: rest =>
    if i < t.slots.size then .ok (i, { t.put i n with free := rest, size := t.size + 1 })
    else .error (.brokenLink i)

/-- Gives up the slot `i`, returning the node it held. -/
def release (t : Table) (i : Nat) : Except Damage (Node × Table) :=
  match t.slots[i]?, t.size with
  | some (.occupied n), size + 1 =>
    .ok (n, { t with slots := t.slots.setIfInBounds i .vacant, free := i :: t.free, size })
  | some (.occupied _), 0 => .error .miscounted
  | _, _ => .error (.releasedTwice i)

end Table

end StackCalc
