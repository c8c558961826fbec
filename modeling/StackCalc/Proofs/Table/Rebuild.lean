import StackCalc.Proofs.Table.Integrity
import StackCalc.Proofs.Table.Shape
import StackCalc.Proofs.Tree.Rebuild

/-! # Building a table again

Bindings are inserted into an empty table one after another, in an order in which every node of some
other table comes after its parent. Whatever the order is otherwise, the tree of that table comes
out. The slots of a table and the bindings of its tree say the same about who is the parent of whom,
since no two nodes bind the same name; so it is enough to know it of trees. The walk by levels visits
the nodes in such an order.
-/

namespace StackCalc

theorem map_eq_map_some_filterMap {α β : Type} {f : α → Option β} {l : List α}
    (h : ∀ a ∈ l, (f a).isSome) : l.map f = (l.filterMap f).map some := by
  induction l with
  | nil => rfl
  | cons a l ih =>
    obtain ⟨ha, hl⟩ := List.forall_mem_cons.1 h
    obtain ⟨b, hb⟩ := Option.isSome_iff_exists.1 ha
    rw [List.map_cons, List.filterMap_cons_some hb, List.map_cons, ih hl, hb]

def Table.binding? (t : Table) (i : Nat) : Option (Name × Int32) :=
  (t.node i).toOption.map Node.binding

namespace Placement

variable {p : Placement} {t : Table} {i j : Nat} {a b : Name × Int32}

theorem root?_tree (hp : p.Stored t.slots) : p.tree.root? = p.link.bind t.binding? := by
  cases p with
  | leaf => rfl
  | node l i n v r =>
    rw [link_node, Option.bind_some, Table.binding?, Table.node_of_getElem? hp.1]
    rfl

theorem isSome_binding? (hp : p.Stored t.slots) (hi : i ∈ p.slots) : (t.binding? i).isSome := by
  obtain ⟨n, hn⟩ := hp.occupied hi
  rw [Table.binding?, Table.node_of_getElem? hn]
  rfl

theorem exists_child_of_isParent (hp : p.Stored t.slots) (h : p.tree.IsParent a b) :
    ∃ i j, t.Child i j ∧ t.binding? i = some a ∧ t.binding? j = some b := by
  induction p with
  | leaf => exact h.elim
  | node l i n v r ihl ihr =>
    have ha : t.binding? i = some (n, v) := (root?_tree hp).symm
    rcases h with ⟨rfl, hb | hb⟩ | h | h
    · rw [root?_tree hp.2.1, ← target?_left hp] at hb
      obtain ⟨j, hj, hb⟩ := Option.bind_eq_some_iff.1 hb
      exact ⟨i, j, .inl hj, ha, hb⟩
    · rw [root?_tree hp.2.2, ← target?_right hp] at hb
      obtain ⟨j, hj, hb⟩ := Option.bind_eq_some_iff.1 hb
      exact ⟨i, j, .inr hj, ha, hb⟩
    · exact ihl hp.2.1 h
    · exact ihr hp.2.2 h

theorem isParent_of_child (hp : p.Stored t.slots) (hi : i ∈ p.slots) (h : t.Child i j)
    (ha : t.binding? i = some a) (hb : t.binding? j = some b) : p.tree.IsParent a b := by
  induction p with
  | leaf => simp [slots] at hi
  | node l x n v r ihl ihr =>
    simp only [slots, List.mem_append, List.mem_cons] at hi
    rcases hi with hi | rfl | hi
    · exact .inr (.inl (ihl hp.2.1 hi))
    · obtain rfl : (n, v) = a := Option.some.inj ((root?_tree hp).trans ha)
      refine .inl ⟨rfl, h.imp (fun h => ?_) (fun h => ?_)⟩
      · rw [root?_tree hp.2.1, ← target?_left hp, h]
        exact hb
      · rw [root?_tree hp.2.2, ← target?_right hp, h]
        exact hb
    · exact .inr (.inr (ihr hp.2.2 hi))

theorem map_binding?_slots (hp : p.Stored t.slots) :
    p.slots.map t.binding? = p.tree.inorder.map some :=
  (map_eq_map_some_filterMap fun _ => isSome_binding? hp).trans
    (congrArg _ (filterMap_slots hp))

theorem map_binding?_levels (hp : p.Stored t.slots) :
    p.levels.map t.binding? = p.tree.levels.map some :=
  (map_eq_map_some_filterMap fun _ hi => isSome_binding? hp (mem_slots_of_mem_levels hi)).trans
    (congrArg _ (filterMap_levels hp))

theorem eq_of_binding?_eq (hp : p.Stored t.slots) (ho : p.tree.Ordered) (hi : i ∈ p.slots)
    (hj : j ∈ p.slots) (h : t.binding? i = t.binding? j) : i = j := by
  have hn : (p.slots.map t.binding?).Nodup := by
    rw [map_binding?_slots hp]
    exact ho.nodup_inorder.map (Option.some_injective _)
  exact List.inj_on_of_nodup_map hn hi hj h

theorem nodup_levels (hp : p.Stored t.slots) (ho : p.tree.Ordered) : p.levels.Nodup := by
  have hn : (p.levels.map t.binding?).Nodup := by
    rw [map_binding?_levels hp]
    exact (p.tree.parentFirst_levels.nodup ho).map (Option.some_injective _)
  exact hn.of_map

theorem mem_levels_iff (hp : p.Stored t.slots) (ho : p.tree.Ordered) :
    i ∈ p.levels ↔ i ∈ p.slots := by
  refine ⟨mem_slots_of_mem_levels, fun hi => ?_⟩
  have hmem : t.binding? i ∈ p.levels.map t.binding? := by
    rw [map_binding?_levels hp, (p.tree.parentFirst_levels.perm.map some).mem_iff,
      ← map_binding?_slots hp]
    exact List.mem_map_of_mem hi
  obtain ⟨j, hj, hij⟩ := List.mem_map.1 hmem
  rwa [← eq_of_binding?_eq hp ho (mem_slots_of_mem_levels hj) hi hij]

/-- The walk by levels comes to a node before it comes to its children. -/
theorem sublist_levels (hp : p.Stored t.slots) (ho : p.tree.Ordered) (hi : i ∈ p.slots)
    (h : t.Child i j) : [i, j].Sublist p.levels := by
  have hj := child_mem hp hi h
  obtain ⟨a, ha⟩ := Option.isSome_iff_exists.1 (isSome_binding? hp hi)
  obtain ⟨b, hb⟩ := Option.isSome_iff_exists.1 (isSome_binding? hp hj)
  have hab := (isParent_of_child hp hi h ha hb).sublist_levels.map some
  rw [← map_binding?_levels hp, List.sublist_map_iff] at hab
  obtain ⟨l, hl, hmap⟩ := hab
  -- The two bindings come from two slots, and these can only be `i` and `j`.
  obtain ⟨x, l, rfl, hx, hmap⟩ := List.map_eq_cons_iff.1 hmap.symm
  obtain ⟨y, l, rfl, hy, hnil⟩ := List.map_eq_cons_iff.1 hmap
  obtain rfl := List.map_eq_nil_iff.1 hnil
  have hmem {z : Nat} (hz : z ∈ [x, y]) : z ∈ p.slots := mem_slots_of_mem_levels (hl.subset hz)
  obtain rfl := eq_of_binding?_eq hp ho (hmem (by simp)) hi (hx.trans ha.symm)
  obtain rfl := eq_of_binding?_eq hp ho (hmem (by simp)) hj (hy.trans hb.symm)
  exact hl

end Placement

namespace Table

variable {t : Table} {p : Placement} {order : List Nat}

/-- Every node once, and each one after its parent. -/
structure ParentFirst (t : Table) (order : List Nat) : Prop where
  nodup : order.Nodup
  mem_iff : ∀ i, i ∈ order ↔ ∃ n, t.slots[i]? = some (.occupied n)
  sublist : ∀ i j, t.Child i j → [i, j].Sublist order

def bindingsIn (t : Table) (order : List Nat) : List (Name × Int32) := order.filterMap t.binding?

def insertAll (t : Table) (es : List (Name × Int32)) : Table :=
  es.foldl (fun t e => (t.insert e.1 e.2).2) t

theorem WellFormed.insertAll (h : t.WellFormed) (es : List (Name × Int32)) :
    (t.insertAll es).WellFormed ∧ (t.insertAll es).toTree = t.toTree.insertAll es := by
  induction es generalizing t with
  | nil => exact ⟨h, rfl⟩
  | cons e es ih =>
    obtain ⟨-, hw, htree⟩ := h.insert e.1 e.2
    obtain ⟨hw', htree'⟩ := ih hw
    exact ⟨hw', htree'.trans (by rw [htree]; rfl)⟩

theorem insertAll_of_parentFirst (h : t.WellFormed) {es : List (Name × Int32)}
    (hes : t.toTree.ParentFirst es) : (({} : Table).insertAll es).LooksLike t := by
  obtain ⟨hw, htree⟩ := wellFormed_empty.insertAll es
  exact hw.looksLike h (htree.trans (Tree.insertAll_parentFirst h.ordered hes))

theorem ParentFirst.bindingsIn (ho : t.ParentFirst order) (h : t.Layout p) :
    p.tree.ParentFirst (t.bindingsIn order) := by
  refine ⟨?_, fun a b hab => ?_⟩
  · have hperm : order.Perm p.slots := by
      rw [List.perm_ext_iff_of_nodup ho.nodup h.accounts.nodup_used]
      exact fun i => (ho.mem_iff i).trans h.mem_slots_iff.symm
    exact Placement.filterMap_slots h.stored ▸ hperm.filterMap t.binding?
  · obtain ⟨i, j, hij, ha, hb⟩ := Placement.exists_child_of_isParent h.stored hab
    have hsub := (ho.sublist i j hij).filterMap t.binding?
    rwa [List.filterMap_cons_some ha, List.filterMap_cons_some hb, List.filterMap_nil] at hsub

theorem Layout.parentFirst_levels (h : t.Layout p) : t.ParentFirst p.levels where
  nodup := Placement.nodup_levels h.stored h.ordered
  mem_iff _ := (Placement.mem_levels_iff h.stored h.ordered).trans h.mem_slots_iff
  sublist _ _ hij :=
    Placement.sublist_levels h.stored h.ordered (h.mem_slots_iff.2 (occupied_of_child hij)) hij

/-- Inserting the bindings of a table into an empty one in any order that has parents before
children gives the same tree again, and the walk by levels is such an order. -/
theorem parentFirst_order_rebuilds (ht : Reachable (fun _ => True) t) :
    (∀ order, t.ParentFirst order → (({} : Table).insertAll (t.bindingsIn order)).LooksLike t) ∧
    ∃ order, t.byLevelFrom t.root = .ok order ∧ t.ParentFirst order.toList := by
  obtain ⟨p, hp⟩ := ht.wellFormed
  refine ⟨fun order horder => ?_, p.levels.toArray, ?_, hp.parentFirst_levels⟩
  · exact insertAll_of_parentFirst ⟨p, hp⟩ (hp.toTree.symm ▸ horder.bindingsIn hp)
  · rw [hp.root_eq]
    exact byLevelFrom_stored hp.stored hp.accounts.length_le

open Bytes (ascii) in
/-- The root has been removed and its slot is free. The nodes are taken down the right side first,
which is not the order in which the walk by levels comes to them. -/
theorem rebuilt_right_side_first :
    let t := (((((({} : Table).insert (ascii "d") 1).2.insert (ascii "b") 2).2.insert
      (ascii "f") 3).2.insert (ascii "a") 4).2.insert (ascii "c") 5).2.remove (ascii "d") |>.2
    t.free = [0] ∧ t.byLevelFrom t.root = .ok #[1, 3, 4, 2] ∧ t.ParentFirst [1, 4, 2, 3] ∧
      (({} : Table).insertAll
        [(ascii "b", 2), (ascii "c", 5), (ascii "f", 3), (ascii "a", 4)]).LooksLike t := by
  intro t
  have ht : Reachable (fun _ => True) t := .remove _ (.insert 5 (.insert 4 (.insert 3 (.insert 2
    (.insert 1 .empty trivial) trivial) trivial) trivial) trivial)
  have hslots : t.slots = #[.vacant, .occupied ⟨ascii "b", 2, some 3, some 4⟩,
      .occupied ⟨ascii "f", 3, none, none⟩, .occupied ⟨ascii "a", 4, none, none⟩,
      .occupied ⟨ascii "c", 5, none, some 2⟩] := by decide
  have horder : t.ParentFirst [1, 4, 2, 3] := by
    refine ⟨by decide, ?_, ?_⟩
    · rintro (_ | _ | _ | _ | _ | i) <;> simp [hslots]
    · rintro (_ | _ | _ | _ | _ | i) j h <;>
        simp [Child, target?, node, hslots, Except.toOption] at h
      · rcases h with rfl | rfl <;> decide
      · subst h
        decide
  exact ⟨by decide, by decide, horder, (parentFirst_order_rebuilds ht).1 _ horder⟩

end Table

end StackCalc
