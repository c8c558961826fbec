import StackCalc.Table.Walk
import StackCalc.Tree

/-! # The tree of a table

What a table stands for: the search tree read off its links. Two tables with the same tree may
keep it in different slots.
-/

namespace StackCalc.Table

/-- The tree below a link, as far down as `depth` nodes. -/
def treeBelow (t : Table) : (depth : Nat) → (target : Option Nat) → Tree
  | _, none => .leaf
  | 0, some _ => .leaf
  | depth + 1, some i =>
    match t.node i with
    | .ok n => .node (t.treeBelow depth n.left) n.name n.value (t.treeBelow depth n.right)
    | .error _ => .leaf

/-- No path through a table is longer than it has slots. -/
def toTree (t : Table) : Tree := t.treeBelow t.slots.size t.root

end StackCalc.Table
