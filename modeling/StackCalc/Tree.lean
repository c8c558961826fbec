import StackCalc.Instruction

/-! # Search trees

The trees that tables stand for, without regard to where their nodes are kept. Insertion and
removal are defined by recursion here, and so are the two orders in which a table is walked.
-/

namespace StackCalc

inductive Tree where
  | leaf
  | node (left : Tree) (name : Name) (value : Int32) (right : Tree)
  deriving DecidableEq, Repr

namespace Tree

def size : Tree → Nat
  | leaf => 0
  | node l _ _ r => l.size + r.size + 1

def height : Tree → Nat
  | leaf => 0
  | node l _ _ r => max l.height r.height + 1

/-- The value at the place where the search for a name ends. -/
def get? (name : Name) : Tree → Option Int32
  | leaf => none
  | node l n v r =>
    match compare name n with
    | .eq => some v
    | .lt => l.get? name
    | .gt => r.get? name

/-- A bound name gets a new value where it stands; any other becomes a leaf where the search for
it ends. -/
def insert (name : Name) (value : Int32) : Tree → Tree
  | leaf => node leaf name value leaf
  | node l n v r =>
    match compare name n with
    | .eq => node l n value r
    | .lt => node (l.insert name value) n v r
    | .gt => node l n v (r.insert name value)

/-- Hangs a second tree below the last node of the right spine. -/
def hang : Tree → Tree → Tree
  | leaf, other => other
  | node l n v r, other => node l n v (r.hang other)

/-- The right subtree of the name that goes hangs below the left one. -/
def remove (name : Name) : Tree → Tree
  | leaf => leaf
  | node l n v r =>
    match compare name n with
    | .eq => l.hang r
    | .lt => node (l.remove name) n v r
    | .gt => node l n v (r.remove name)

def inorder : Tree → List (Name × Int32)
  | leaf => []
  | node l n v r => l.inorder ++ (n, v) :: r.inorder

def atDepth : Tree → Nat → List (Name × Int32)
  | leaf, _ => []
  | node _ n v _, 0 => [(n, v)]
  | node l _ _ r, d + 1 => l.atDepth d ++ r.atDepth d

def levels (t : Tree) : List (Name × Int32) :=
  (List.range t.height).flatMap t.atDepth

def All (p : Name → Prop) : Tree → Prop
  | leaf => True
  | node l n _ r => l.All p ∧ p n ∧ r.All p

/-- Smaller names to the left, greater ones to the right. -/
def Ordered : Tree → Prop
  | leaf => True
  | node l n _ r =>
    l.Ordered ∧ r.Ordered ∧ l.All (compare · n = .lt) ∧ r.All (compare n · = .lt)

theorem inorder_hang (t other : Tree) : (t.hang other).inorder = t.inorder ++ other.inorder := by
  induction t with
  | leaf => rfl
  | node l n v r _ ihr => simp [hang, inorder, ihr]

theorem length_inorder (t : Tree) : t.inorder.length = t.size := by
  induction t with
  | leaf => rfl
  | node l n v r ihl ihr => simp [inorder, size, ihl, ihr]; omega

end Tree

end StackCalc
