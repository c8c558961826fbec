import StackCalc.Machine.Save
import StackCalc.Proofs.Table.Dictionary

/-! # The shape of a table

An operation on a table changes its tree in one place, the one that the search for the name comes
to. A new name becomes a leaf there, a bound one gets its value there, and a name that is removed
leaves its two subtrees there, the right one below the greatest name of the left one. All the rest
of the tree stays as it is.

So what becomes of a tree depends on the tree alone, not on the slots it is kept in: two tables with
the same tree, whatever has been done to them before, cannot be told apart by what is done to them
next.
-/

namespace StackCalc

namespace Tree

variable {t t' s s' l r : Tree} {k g : Name} {v w : Int32}

/-- The second tree is the first with `s'` in place of the subtree `s` that the search for `k` comes
to. Every node outside keeps its name, its value, its parent and its side. -/
inductive Exchange (k : Name) (s s' : Tree) : Tree → Tree → Prop where
  | here : Exchange k s s' s s'
  | left {l l' r : Tree} {n : Name} {v : Int32} : compare k n = .lt → Exchange k s s' l l' →
      Exchange k s s' (node l n v r) (node l' n v r)
  | right {l r r' : Tree} {n : Name} {v : Int32} : compare k n = .gt → Exchange k s s' r r' →
      Exchange k s s' (node l n v r) (node l n v r')

/-- The second tree is the first with `r` as the right child of its greatest node, or `r` itself if
the first has no node. -/
inductive Joined (r : Tree) : Tree → Tree → Prop where
  | empty : Joined r leaf r
  | below {l l' a : Tree} {g : Name} {w : Int32} : l.All (· ≤ g) →
      Exchange g (node a g w leaf) (node a g w r) l l' → Joined r l l'

/-- The search for a name comes to an empty place or to the name, and it is there that insertion and
removal act. -/
theorem exists_place (t : Tree) (k : Name) :
    ∃ s, t.get? k = s.get? k ∧ (s = leaf ∨ ∃ l w r, s = node l k w r) ∧
      (∀ v, Exchange k s (s.insert k v) t (t.insert k v)) ∧
      Exchange k s (s.remove k) t (t.remove k) := by
  induction t with
  | leaf => exact ⟨leaf, rfl, .inl rfl, fun _ => .here, .here⟩
  | node l n u r ihl ihr =>
    simp only [get?, Tree.insert, Tree.remove]
    cases hk : compare k n with
    | eq =>
      obtain rfl := Name.compare_eq_iff.1 hk
      refine ⟨node l k u r, ?_, .inr ⟨l, u, r, rfl⟩, fun v => ?_, ?_⟩
      · simp [get?]
      · simpa [Tree.insert] using Exchange.here
      · simpa [Tree.remove] using Exchange.here
    | lt =>
      obtain ⟨s, hget, hs, hins, hrem⟩ := ihl
      exact ⟨s, hget, hs, fun v => .left hk (hins v), .left hk hrem⟩
    | gt =>
      obtain ⟨s, hget, hs, hins, hrem⟩ := ihr
      exact ⟨s, hget, hs, fun v => .right hk (hins v), .right hk hrem⟩

theorem Exchange.eq_of_same (h : Exchange k s s t t') : t' = t := by
  induction h with
  | here => rfl
  | left _ _ ih => rw [ih]
  | right _ _ ih => rw [ih]

theorem Exchange.ordered (h : Exchange k s s' t t') (ht : t.Ordered) : s.Ordered := by
  induction h with
  | here => exact ht
  | left _ _ ih => exact ih ht.1
  | right _ _ ih => exact ih ht.2.1

theorem Exchange.all {p : Name → Prop} (h : Exchange k s s' t t') (ht : t.All p) : s.All p := by
  induction h with
  | here => exact ht
  | left _ _ ih => exact ih ht.1
  | right _ _ ih => exact ih ht.2.2

theorem exchange_of_get?_eq_none (h : t.get? k = none) :
    (∀ v, Exchange k leaf (node leaf k v leaf) t (t.insert k v)) ∧ t.remove k = t := by
  obtain ⟨s, hget, rfl | ⟨l, w, r, rfl⟩, hins, hrem⟩ := t.exists_place k
  · exact ⟨hins, hrem.eq_of_same⟩
  · rw [h] at hget
    simp [get?] at hget

theorem exchange_of_get?_eq_some (h : t.get? k = some w) :
    ∃ l r, (∀ v, Exchange k (node l k w r) (node l k v r) t (t.insert k v)) ∧
      Exchange k (node l k w r) (l.hang r) t (t.remove k) := by
  obtain ⟨s, hget, rfl | ⟨l, u, r, rfl⟩, hins, hrem⟩ := t.exists_place k
  · rw [h] at hget
    cases hget
  · obtain rfl : w = u := by simpa [h, get?] using hget
    refine ⟨l, r, fun v => ?_, ?_⟩
    · simpa [Tree.insert] using hins v
    · simpa [Tree.remove] using hrem

theorem joined_hang (hl : l.Ordered) (r : Tree) : Joined r l (l.hang r) := by
  induction l with
  | leaf => exact .empty
  | node a n u b _ ihb =>
    obtain ⟨-, hb, han, hnb⟩ := hl
    have ha : ∀ {g}, n ≤ g → a.All (· ≤ g) := fun hg => han.imp fun m hm =>
      List.le_trans (List.le_of_lt (Name.compare_lt_iff.1 hm)) hg
    cases ihb hb with
    | empty => exact .below ⟨ha (List.le_refl n), List.le_refl n, trivial⟩ .here
    | @below l l' c g w hg hex =>
      have hng : compare n g = .lt := (hex.all hnb).2.1
      have hle : n ≤ g := List.le_of_lt (Name.compare_lt_iff.1 hng)
      exact .below ⟨ha hle, hle, hg⟩ (.right (Name.compare_gt_iff.2 hng) hex)

end Tree

namespace Table

open StackCalc.Tree (Exchange Joined)

variable {t t' : Table} {k : Name} {v w : Int32}

/-- The two tables have the same tree, and show the same of it. -/
structure LooksLike (t t' : Table) : Prop where
  toTree_eq : t.toTree = t'.toTree
  size_eq : t.size = t'.size
  isEmpty_eq : t.isEmpty = t'.isEmpty
  ascending_eq : t.ascending.map Node.binding = t'.ascending.map Node.binding
  byLevel_eq : t.byLevel.map Node.binding = t'.byLevel.map Node.binding
  encode_eq : t.encode = t'.encode

theorem encode_congr (h : t.byLevel.map Node.binding = t'.byLevel.map Node.binding) :
    t.encode = t'.encode := by
  have hmap (u : Table) : u.byLevel.forM (fun n => Sink.writeAll n.statements) =
      (u.byLevel.map Node.binding).forM fun e =>
        Sink.writeAll (Node.statements { name := e.1, value := e.2 }) := by
    rw [List.forM_eq_forM, List.forM_eq_forM, List.forM_map]
    rfl
  have hlen : t.byLevel.length = t'.byLevel.length := by
    rw [← List.length_map Node.binding, h, List.length_map]
  unfold encode
  dsimp only
  rw [hmap t, hmap t', h, hlen]

namespace WellFormed

theorem looksLike (h : t.WellFormed) (h' : t'.WellFormed) (ht : t.toTree = t'.toTree) :
    t.LooksLike t' := by
  have hlevels : t.byLevel.map Node.binding = t'.byLevel.map Node.binding := by
    rw [h.byLevel_bindings, h'.byLevel_bindings, ht]
  refine ⟨ht, ?_, ?_, ?_, hlevels, encode_congr hlevels⟩
  · rw [h.size_eq, h'.size_eq, ht]
  · rw [Bool.eq_iff_iff, h.isEmpty_iff, h'.isEmpty_iff, ht]
  · rw [h.ascending_bindings, h'.ascending_bindings, ht]

/-- What an operation answers and what it makes of a tree depends on the tree alone. -/
theorem apply_congr (h : t.WellFormed) (h' : t'.WellFormed) (ht : t.toTree = t'.toTree)
    (op : Operation) :
    (t.apply op).1 = (t'.apply op).1 ∧ (t.apply op).2.WellFormed ∧ (t'.apply op).2.WellFormed ∧
      (t.apply op).2.toTree = (t'.apply op).2.toTree := by
  cases op with
  | insert k v =>
    obtain ⟨hold, hw, htree⟩ := h.insert k v
    obtain ⟨hold', hw', htree'⟩ := h'.insert k v
    refine ⟨congrArg Answer.value ?_, hw, hw', ?_⟩
    · rw [hold, hold', ht]
    · exact htree.trans (ht ▸ htree'.symm)
  | remove k =>
    obtain ⟨hold, hw, htree⟩ := h.remove k
    obtain ⟨hold', hw', htree'⟩ := h'.remove k
    refine ⟨congrArg Answer.value ?_, hw, hw', ?_⟩
    · rw [hold, hold', ht]
    · exact htree.trans (ht ▸ htree'.symm)
  | get k =>
    refine ⟨congrArg Answer.value ?_, h, h', ht⟩
    rw [h.get?_eq, h'.get?_eq, ht]
  | clear =>
    rw [Table.apply, Table.apply, h.clear_eq, h'.clear_eq, h.size_eq, h'.size_eq, ht]
    exact ⟨rfl, wellFormed_empty, wellFormed_empty, rfl⟩

theorem history_congr (h : t.WellFormed) (h' : t'.WellFormed) (ht : t.toTree = t'.toTree)
    (ops : List Operation) :
    List.Forall₂ (fun x y => x.1 = y.1 ∧ x.2.LooksLike y.2)
      (Operation.history apply t ops) (Operation.history apply t' ops) := by
  induction ops generalizing t t' with
  | nil => exact .nil
  | cons op ops ih =>
    obtain ⟨hanswer, hw, hw', htree⟩ := h.apply_congr h' ht op
    exact .cons ⟨hanswer, hw.looksLike hw' htree⟩ (ih hw hw' htree)

end WellFormed

/-- Insertion and removal change the tree of a table in one place and nowhere else. Tables with the
same tree answer alike ever after and keep having the same tree, whatever slots they use. -/
theorem operations_exchange_subtree (ht : Reachable (fun _ => True) t) :
    (∀ k, t.get? k = none →
      (∀ v, Exchange k .leaf (.node .leaf k v .leaf) t.toTree (t.insert k v).2.toTree) ∧
        (t.remove k).2.toTree = t.toTree) ∧
    (∀ k w, t.get? k = some w → ∃ l r joined,
      (∀ v, Exchange k (.node l k w r) (.node l k v r) t.toTree (t.insert k v).2.toTree) ∧
        Joined r l joined ∧
        Exchange k (.node l k w r) joined t.toTree (t.remove k).2.toTree) ∧
    ∀ t' ops, Reachable (fun _ => True) t' → t.toTree = t'.toTree →
      List.Forall₂ (fun x y => x.1 = y.1 ∧ x.2.LooksLike y.2)
        (Operation.history apply t ops) (Operation.history apply t' ops) := by
  have hw := ht.wellFormed
  refine ⟨fun k hk => ?_, fun k w hk => ?_, fun t' ops ht' htree => ?_⟩
  · rw [hw.get?_eq] at hk
    obtain ⟨hins, hrem⟩ := Tree.exchange_of_get?_eq_none hk
    rw [(hw.remove k).2.2]
    refine ⟨fun v => ?_, hrem⟩
    rw [(hw.insert k v).2.2]
    exact hins v
  · rw [hw.get?_eq] at hk
    obtain ⟨l, r, hins, hrem⟩ := Tree.exchange_of_get?_eq_some hk
    rw [(hw.remove k).2.2]
    have hl : l.Ordered := (hrem.ordered hw.ordered).1
    refine ⟨l, r, l.hang r, fun v => ?_, Tree.joined_hang hl r, hrem⟩
    rw [(hw.insert k v).2.2]
    exact hins v
  · exact hw.history_congr ht'.wellFormed htree ops

open Bytes (ascii) in
/-- The root is removed from a table whose greatest smaller name has a child. What comes out has the
tree of a table that has never seen a removal, in other slots. -/
theorem subtree_exchanged_at_root :
    let t := ((((({} : Table).insert (ascii "m") 1).2.insert (ascii "g") 2).2.insert
      (ascii "x") 3).2.insert (ascii "c") 4).2
    let t' := (((({} : Table).insert (ascii "g") 2).2.insert (ascii "c") 4).2.insert
      (ascii "x") 3).2
    let c : Tree := .node .leaf (ascii "c") 4 .leaf
    let x : Tree := .node .leaf (ascii "x") 3 .leaf
    t.toTree = .node (.node c (ascii "g") 2 .leaf) (ascii "m") 1 x ∧
      (t.remove (ascii "m")).2.toTree = .node c (ascii "g") 2 x ∧
      t'.toTree = (t.remove (ascii "m")).2.toTree ∧ t'.slots ≠ (t.remove (ascii "m")).2.slots ∧
      (∃ l r joined, Joined r l joined ∧ Exchange (ascii "m") (.node l (ascii "m") 1 r) joined
        t.toTree (t.remove (ascii "m")).2.toTree) ∧
      ∀ ops, List.Forall₂ (fun x y => x.1 = y.1 ∧ x.2.LooksLike y.2)
        (Operation.history apply t' ops) (Operation.history apply (t.remove (ascii "m")).2 ops) := by
  intro t t' c x
  have ht : Reachable (fun _ => True) t :=
    .insert 4 (.insert 3 (.insert 2 (.insert 1 .empty trivial) trivial) trivial) trivial
  have ht' : Reachable (fun _ => True) t' :=
    .insert 3 (.insert 4 (.insert 2 .empty trivial) trivial) trivial
  have htree : t'.toTree = (t.remove (ascii "m")).2.toTree := by decide
  refine ⟨by decide, by decide, htree, by decide, ?_, fun ops => ?_⟩
  · have hget : t.get? (ascii "m") = some 1 := by decide
    obtain ⟨l, r, joined, -, hj, hex⟩ := (operations_exchange_subtree ht).2.1 (ascii "m") 1 hget
    exact ⟨l, r, joined, hj, hex⟩
  · exact (operations_exchange_subtree ht').2.2 _ ops (.remove _ ht) htree

end Table

end StackCalc
