import StackCalc.Proofs.Tree.Search
import StackCalc.Table.Basic

/-! # Trees in slots

A placement is a search tree that also says which slot each node is kept in. A table holds a
placement if every node stands in its slot with links to the slots of its children. A trail is the
way from a place in a placement up to the root; changing the link it ends at replaces the subtree
that hangs there and nothing else.
-/

namespace StackCalc

inductive Placement where
  | leaf
  | node (left : Placement) (slot : Nat) (name : Name) (value : Int32) (right : Placement)

namespace Placement

def link : Placement → Option Nat
  | leaf => none
  | node _ i _ _ _ => some i

def tree : Placement → Tree
  | leaf => .leaf
  | node l _ n v r => .node l.tree n v r.tree

def slots : Placement → List Nat
  | leaf => []
  | node l i _ _ r => l.slots ++ i :: r.slots

def Stored (s : Array Slot) : Placement → Prop
  | leaf => True
  | node l i n v r =>
    s[i]? = some (.occupied ⟨n, v, l.link, r.link⟩) ∧ l.Stored s ∧ r.Stored s

def hang : Placement → Placement → Placement
  | leaf, other => other
  | node l i n v r, other => node l i n v (r.hang other)

variable {p l r other : Placement} {s s' : Array Slot}

@[simp] theorem link_leaf : leaf.link = none := rfl

@[simp] theorem link_node {i : Nat} {n : Name} {v : Int32} : (node l i n v r).link = some i := rfl

theorem link_eq_none : p.link = none ↔ p = leaf := by
  cases p <;> simp

theorem link_mem_slots {i : Nat} (h : p.link = some i) : i ∈ p.slots := by
  cases p with
  | leaf => simp at h
  | node l j n v r =>
    obtain rfl : j = i := by simpa using h
    simp [slots]

theorem size_tree (p : Placement) : p.tree.size = p.slots.length := by
  induction p with
  | leaf => rfl
  | node l i n v r ihl ihr => simp [tree, Tree.size, slots, ihl, ihr]; omega

theorem height_le_length (p : Placement) : p.tree.height ≤ p.slots.length := by
  induction p with
  | leaf => simp [tree, Tree.height]
  | node l i n v r ihl ihr => simp [tree, Tree.height, slots]; omega

theorem tree_hang (l other : Placement) : (l.hang other).tree = l.tree.hang other.tree := by
  induction l with
  | leaf => rfl
  | node a i n v b _ ihb => rw [hang, tree, tree, Tree.hang, ihb]

theorem slots_hang (l other : Placement) : (l.hang other).slots = l.slots ++ other.slots := by
  induction l with
  | leaf => rfl
  | node a i n v b _ ihb => simp [hang, slots, ihb]

theorem hang_leaf (l : Placement) : l.hang leaf = l := by
  induction l with
  | leaf => rfl
  | node a i n v b _ ihb => rw [hang, ihb]

theorem link_hang_of_ne_leaf (h : l ≠ leaf) : (l.hang other).link = l.link := by
  cases l with
  | leaf => exact absurd rfl h
  | node a i n v b => rfl

theorem Stored.congr (h : ∀ i ∈ p.slots, s'[i]? = s[i]?) (hp : p.Stored s) : p.Stored s' := by
  induction p with
  | leaf => trivial
  | node l i n v r ihl ihr =>
    obtain ⟨hi, hl, hr⟩ := hp
    refine ⟨(h i (by simp [slots])).trans hi, ihl (fun j hj => ?_) hl, ihr (fun j hj => ?_) hr⟩
    · exact h j (by simp [slots, hj])
    · exact h j (by simp [slots, hj])

theorem Stored.occupied (hp : p.Stored s) {i : Nat} (hi : i ∈ p.slots) :
    ∃ n, s[i]? = some (.occupied n) := by
  induction p with
  | leaf => simp [slots] at hi
  | node l j n v r ihl ihr =>
    obtain ⟨hj, hl, hr⟩ := hp
    simp only [slots, List.mem_append, List.mem_cons] at hi
    rcases hi with hi | rfl | hi
    · exact ihl hl hi
    · exact ⟨_, hj⟩
    · exact ihr hr hi

end Placement

/-- A node on the way down to a place, with the side that the way does not take. -/
inductive Branch where
  | left (slot : Nat) (name : Name) (value : Int32) (right : Placement)
  | right (left : Placement) (slot : Nat) (name : Name) (value : Int32)

namespace Branch

def fill : Branch → Placement → Placement
  | left i n v r, p => .node p i n v r
  | right l i n v, p => .node l i n v p

def link : Branch → Link
  | left i _ _ _ => .left i
  | right _ i _ _ => .right i

def slot : Branch → Nat
  | left i _ _ _ | right _ i _ _ => i

def aside : Branch → Placement
  | left _ _ _ r => r
  | right l _ _ _ => l

/-- The node of the branch, when the way on leads to `hole`. -/
def node : Branch → (hole : Option Nat) → Node
  | left _ n v r, hole => ⟨n, v, hole, r.link⟩
  | right l _ n v, hole => ⟨n, v, l.link, hole⟩

def Leads (k : Name) : Branch → Prop
  | left _ n _ _ => compare k n = .lt
  | right _ _ n _ => compare k n = .gt

end Branch

/-- The branches between a place and the root, the nearest first. -/
abbrev Trail := List Branch

namespace Trail

/-- The placement that has `p` at the end of the trail. -/
def plug : Trail → Placement → Placement
  | [], p => p
  | b :: c, p => plug c (b.fill p)

def link : Trail → Link
  | [] => .root
  | b :: _ => b.link

def slots (c : Trail) : List Nat := c.flatMap fun b => b.slot :: b.aside.slots

def Leads (k : Name) (c : Trail) : Prop := ∀ b ∈ c, b.Leads k

def Held (t : Table) : Trail → (hole : Option Nat) → Prop
  | [], hole => t.root = hole
  | b :: c, hole =>
    t.slots[b.slot]? = some (.occupied (b.node hole)) ∧ b.aside.Stored t.slots ∧
      Held t c (some b.slot)

variable {c : Trail} {p : Placement} {t t' : Table} {hole : Option Nat}

theorem slots_cons (b : Branch) (c : Trail) :
    slots (b :: c) = b.slot :: (b.aside.slots ++ slots c) := by
  simp [slots]

theorem slots_plug (c : Trail) (p : Placement) : (plug c p).slots.Perm (p.slots ++ slots c) := by
  induction c generalizing p with
  | nil => simp [plug, slots]
  | cons b c ih =>
    refine (ih (b.fill p)).trans ?_
    rw [slots_cons]
    cases b with
    | left i n v r =>
      simp only [Branch.fill, Placement.slots, Branch.slot, Branch.aside, List.append_assoc,
        List.cons_append]
      exact List.Perm.refl _
    | right l i n v =>
      simp only [Branch.fill, Placement.slots, Branch.slot, Branch.aside, List.append_assoc,
        List.cons_append]
      have h : (l.slots ++ (p.slots ++ slots c)).Perm (p.slots ++ (l.slots ++ slots c)) :=
        List.perm_append_comm_assoc ..
      exact List.perm_middle.trans ((h.cons i).trans List.perm_middle.symm)

/-- A table holds a placement exactly if it holds a part of it and the trail from there. -/
theorem held_plug : Held t [] (plug c p).link ∧ (plug c p).Stored t.slots ↔
    Held t c p.link ∧ p.Stored t.slots := by
  induction c generalizing p with
  | nil => rfl
  | cons b c ih =>
    rw [plug, ih]
    cases b with
    | left i n v r =>
      simp only [Held, Branch.fill, Placement.link, Placement.Stored, Branch.slot, Branch.node,
        Branch.aside]
      tauto
    | right l i n v =>
      simp only [Held, Branch.fill, Placement.link, Placement.Stored, Branch.slot, Branch.node,
        Branch.aside]
      tauto

theorem Held.congr (hr : t'.root = t.root) (h : ∀ i ∈ slots c, t'.slots[i]? = t.slots[i]?)
    (hc : Held t c hole) : Held t' c hole := by
  induction c generalizing hole with
  | nil => exact hr.trans hc
  | cons b c ih =>
    obtain ⟨hb, ha, hc⟩ := hc
    rw [slots_cons] at h
    refine ⟨(h _ (by simp)).trans hb, ha.congr fun i hi => h i (by simp [hi]), ih ?_ hc⟩
    exact fun i hi => h i (by simp [hi])

section Search

variable {q : Placement} {k : Name} {v : Int32}

theorem Leads.cons {b : Branch} (hb : b.Leads k) (hc : Leads k c) : Leads k (b :: c) :=
  List.forall_mem_cons.2 ⟨hb, hc⟩

theorem get?_plug (hc : Leads k c) : (plug c p).tree.get? k = p.tree.get? k := by
  induction c generalizing p with
  | nil => rfl
  | cons b c ih =>
    obtain ⟨hb, hc⟩ := List.forall_mem_cons.1 hc
    rw [plug, ih hc]
    cases b <;> simp [Branch.Leads, Branch.fill, Placement.tree, Tree.get?] at hb ⊢ <;> simp [hb]

theorem insert_plug (hc : Leads k c) (h : p.tree.insert k v = q.tree) :
    (plug c p).tree.insert k v = (plug c q).tree := by
  induction c generalizing p q with
  | nil => exact h
  | cons b c ih =>
    obtain ⟨hb, hc⟩ := List.forall_mem_cons.1 hc
    refine ih hc ?_
    cases b <;> simp only [Branch.Leads] at hb <;>
      simp only [Branch.fill, Placement.tree, Tree.insert, hb, h]

theorem remove_plug (hc : Leads k c) (h : p.tree.remove k = q.tree) :
    (plug c p).tree.remove k = (plug c q).tree := by
  induction c generalizing p q with
  | nil => exact h
  | cons b c ih =>
    obtain ⟨hb, hc⟩ := List.forall_mem_cons.1 hc
    refine ih hc ?_
    cases b <;> simp only [Branch.Leads] at hb <;>
      simp only [Branch.fill, Placement.tree, Tree.remove, hb, h]

theorem ordered_of_plug (h : (plug c p).tree.Ordered) : p.tree.Ordered := by
  induction c generalizing p with
  | nil => exact h
  | cons b c ih =>
    have hb := ih h
    cases b with
    | left i n v r => exact hb.1
    | right l i n v => exact hb.2.1

end Search

end Trail

end StackCalc
