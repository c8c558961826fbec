import StackCalc.Table.Slots

/-! # The table of names

An unbalanced search tree from names to values. Names compare byte by byte. A name that is bound
again keeps its place; a new one becomes a leaf. When a name is removed its two subtrees are joined
in its place: the right one, unchanged, hangs below the greatest name of the left one.

A descent visits a slot at most once, so the number of slots bounds it. No operation recurses into
both children, and a tree that has degenerated into a list is only slower.
-/

namespace StackCalc.Table

/-- Searches for `name` below `link`, which leads to `target`: the link the search ends at, and
the slot found there. -/
def seek (t : Table) (name : Name) :
    (fuel : Nat) → (link : Link) → (target : Option Nat) → Except Damage (Link × Option Nat)
  | _, link, none => .ok (link, none)
  | 0, _, some _ => .error .endless
  | fuel + 1, link, some i => do
    let n ← t.node i
    match compare name n.name with
    | .eq => return (link, some i)
    | .lt => t.seek name fuel (.left i) n.left
    | .gt => t.seek name fuel (.right i) n.right

def locate (t : Table) (name : Name) : Except Damage (Link × Option Nat) :=
  t.seek name t.slots.size .root t.root

def tryGet (t : Table) (name : Name) : Except Damage (Option Int32) := do
  match ← t.locate name with
  | (_, some i) => return some (← t.node i).value
  | (_, none) => return none

def tryInsert (t : Table) (name : Name) (value : Int32) :
    Except Damage (Option Int32 × Table) := do
  match ← t.locate name with
  | (_, some i) =>
    let n ← t.node i
    return (some n.value, t.put i { n with value })
  | (link, none) =>
    let (i, t) ← t.allocate { name, value }
    return (none, ← t.relink link (some i))

/-- Hangs `subtree` below `parent`, at the empty place where the search for `name` ends. -/
def graft (t : Table) (name : Name) (subtree : Nat) :
    (fuel : Nat) → (parent : Nat) → Except Damage Table
  | 0, _ => .error .endless
  | fuel + 1, parent => do
    let n ← t.node parent
    match compare name n.name with
    | .eq => .error (.sharedName name)
    | .lt =>
      match n.left with
      | some next => t.graft name subtree fuel next
      | none => return t.put parent { n with left := some subtree }
    | .gt =>
      match n.right with
      | some next => t.graft name subtree fuel next
      | none => return t.put parent { n with right := some subtree }

/-- Joins two subtrees, every name of the second greater than every name of the first. -/
def merge (t : Table) : (left right : Option Nat) → Except Damage (Option Nat × Table)
  | none, right => .ok (right, t)
  | left, none => .ok (left, t)
  | some left, some right => do
    let n ← t.node right
    return (some left, ← t.graft n.name right t.slots.size left)

def tryRemove (t : Table) (name : Name) : Except Damage (Option Int32 × Table) := do
  match ← t.locate name with
  | (_, none) => return (none, t)
  | (link, some i) =>
    let n ← t.node i
    let (joined, t) ← t.merge n.left n.right
    let t ← t.relink link joined
    let (n, t) ← t.release i
    return (some n.value, t)

/-- Gives up the root, again and again, counting on from `released`. -/
def releaseAll : (fuel : Nat) → (released : Nat) → Table → Except Damage (Nat × Table)
  | fuel, released, t =>
    match t.root, fuel with
    | none, _ => .ok (released, t)
    | some _, 0 => .error .endless
    | some i, fuel + 1 => do
      let n ← t.node i
      let (joined, t) ← t.merge n.left n.right
      let (_, t) ← { t with root := joined }.release i
      releaseAll fuel (released + 1) t

def tryClear (t : Table) : Except Damage (Nat × Table) := do
  let (released, t) ← releaseAll t.slots.size 0 t
  return (released, { t with slots := #[], free := [] })

def get? (t : Table) (name : Name) : Option Int32 := (t.tryGet name).toOption.join

/-- Binds `name` to `value`, returning the value this replaces. -/
def insert (t : Table) (name : Name) (value : Int32) : Option Int32 × Table :=
  match t.tryInsert name value with
  | .ok r => r
  | .error _ => (none, t)

/-- Unbinds `name`, returning the value it had. -/
def remove (t : Table) (name : Name) : Option Int32 × Table :=
  match t.tryRemove name with
  | .ok r => r
  | .error _ => (none, t)

/-- Unbinds every name, returning how many there were. -/
def clear (t : Table) : Nat × Table :=
  match t.tryClear with
  | .ok r => r
  | .error _ => (0, t)

end StackCalc.Table
