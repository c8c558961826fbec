import StackCalc.Proofs.Table.Rebuild

/-! # The walks as recursions

A walk goes from one node to the next with the help of a list of what it has still to visit. From
whatever node it starts, it comes to an end, and what it has visited by then is what a recursion
through the links visits: the nodes of the subtree, each one once, every node between its two sides
in one walk and depth after depth in the other.
-/

namespace StackCalc

/-- What `next` hands out, one after the other, until there is nothing more. -/
inductive Yields {ω : Type} (next : ω → Except Damage (Option (Nat × ω))) : ω → List Nat → Prop where
  | done {w : ω} : next w = .ok none → Yields next w []
  | more {w w' : ω} {i : Nat} {is : List Nat} : next w = .ok (some (i, w')) →
      Yields next w' is → Yields next w (i :: is)

section Collects

variable {ω : Type} {next : ω → Except Damage (Option (Nat × ω))}
  {collect : Nat → Array Nat → ω → Except Damage (Array Nat)}

/-- As long as its fuel lasts, `collect` gathers what `next` hands out. -/
structure Collects (next : ω → Except Damage (Option (Nat × ω)))
    (collect : Nat → Array Nat → ω → Except Damage (Array Nat)) : Prop where
  exhausted : ∀ visited w, collect 0 visited w = .error .endless
  damaged : ∀ {w d} fuel visited, next w = .error d → collect (fuel + 1) visited w = .error d
  done : ∀ {w} fuel visited, next w = .ok none → collect (fuel + 1) visited w = .ok visited
  more : ∀ {w i w'} fuel visited, next w = .ok (some (i, w')) →
    collect (fuel + 1) visited w = collect fuel (visited.push i) w'

theorem Collects.yields (hc : Collects next collect) {fuel : Nat} {visited out : Array Nat} {w : ω}
    (h : collect fuel visited w = .ok out) : ∃ is, Yields next w is ∧ out = visited ++ is.toArray := by
  induction fuel generalizing visited w with
  | zero =>
    rw [hc.exhausted] at h
    cases h
  | succ fuel ih =>
    rcases hn : next w with d | _ | ⟨i, w'⟩
    · rw [hc.damaged fuel visited hn] at h
      cases h
    · rw [hc.done fuel visited hn] at h
      obtain rfl := Except.ok.inj h
      exact ⟨[], .done hn, by simp⟩
    · rw [hc.more fuel visited hn] at h
      obtain ⟨is, his, rfl⟩ := ih h
      exact ⟨i :: is, .more hn his, by simp⟩

theorem Collects.yields_toList (hc : Collects next collect) {fuel : Nat} {is : List Nat} {w : ω}
    (h : collect fuel #[] w = .ok is.toArray) : Yields next w is := by
  obtain ⟨js, hjs, hij⟩ := hc.yields h
  obtain rfl : is = js := by simpa using hij
  exact hjs

end Collects

namespace Table

/-- The slots below a link, every one between those to its left and those to its right. -/
inductive Inorder (t : Table) : (target : Option Nat) → List Nat → Prop where
  | nothing : Inorder t none []
  | node {i : Nat} {n : Node} {ls rs : List Nat} : t.node i = .ok n → Inorder t n.left ls →
      Inorder t n.right rs → Inorder t (some i) (ls ++ i :: rs)

inductive AtDepth (t : Table) : (depth : Nat) → (target : Option Nat) → List Nat → Prop where
  | nothing (d : Nat) : AtDepth t d none []
  | top {i : Nat} {n : Node} : t.node i = .ok n → AtDepth t 0 (some i) [i]
  | deeper {d i : Nat} {n : Node} {ls rs : List Nat} : t.node i = .ok n → AtDepth t d n.left ls →
      AtDepth t d n.right rs → AtDepth t (d + 1) (some i) (ls ++ rs)

structure Rows (t : Table) (target : Option Nat) (rows : List (List Nat)) : Prop where
  atDepth : ∀ d row, rows[d]? = some row → t.AtDepth d target row
  nothing_deeper : ∀ d, rows.length ≤ d → t.AtDepth d target []

structure Enumerates (t : Table) (target : Option Nat) (is : List Nat) : Prop where
  nodup : is.Nodup
  mem_iff : ∀ j, j ∈ is ↔ t.Below target j

end Table

namespace Placement

variable {p : Placement} {t : Table}

theorem Stored.inorder (hp : p.Stored t.slots) : t.Inorder p.link p.slots := by
  induction p with
  | leaf => exact .nothing
  | node l i n v r ihl ihr =>
    obtain ⟨hi, hl, hr⟩ := hp
    exact .node (Table.node_of_getElem? hi) (ihl hl) (ihr hr)

theorem Stored.atDepth (hp : p.Stored t.slots) (d : Nat) :
    t.AtDepth d p.link (p.atDepth d) := by
  induction p generalizing d with
  | leaf => exact .nothing d
  | node l i n v r ihl ihr =>
    obtain ⟨hi, hl, hr⟩ := hp
    cases d with
    | zero => exact .top (Table.node_of_getElem? hi)
    | succ d => exact .deeper (Table.node_of_getElem? hi) (ihl hl d) (ihr hr d)

theorem atDepth_of_height_le {d : Nat} (h : p.tree.height ≤ d) : p.atDepth d = [] := by
  induction p generalizing d with
  | leaf => rfl
  | node l i n v r ihl ihr =>
    simp only [tree, Tree.height] at h
    obtain ⟨d, rfl⟩ : ∃ e, d = e + 1 := Nat.exists_eq_add_one.2 (by omega)
    rw [atDepth, ihl (by omega), ihr (by omega)]
    rfl

def rows (p : Placement) : List (List Nat) := (List.range p.tree.height).map p.atDepth

theorem flatten_rows (p : Placement) : p.rows.flatten = p.levels := by
  rw [rows, levels, List.flatMap_def]

theorem Stored.rows (hp : p.Stored t.slots) : t.Rows p.link p.rows where
  atDepth d row hrow := by
    obtain ⟨hd, rfl⟩ := List.getElem?_eq_some_iff.1 hrow
    simp only [Placement.rows, List.getElem_map, List.getElem_range]
    exact hp.atDepth d
  nothing_deeper d hd := by
    rw [Placement.rows, List.length_map, List.length_range] at hd
    rw [← atDepth_of_height_le hd]
    exact hp.atDepth d

theorem Stored.length_slots_le (hp : p.Stored t.slots) (hn : p.slots.Nodup) :
    p.slots.length ≤ t.slots.size := by
  have hsub : p.slots ⊆ List.range t.slots.size := by
    intro i hi
    obtain ⟨n, hin⟩ := hp.occupied hi
    exact List.mem_range.2 (Array.getElem?_eq_some_iff.1 hin).1
  have hle := (List.subperm_of_subset hn hsub).length_le
  rwa [List.length_range] at hle

end Placement

namespace Table

variable {t : Table} {i : Nat} {n : Node} {is : List Nat}

theorem Layout.exists_placement {p : Placement} (h : t.Layout p) (hi : t.node i = .ok n) :
    ∃ q : Placement, q.link = some i ∧ q.Stored t.slots ∧ q.slots.Nodup ∧ q.tree.Ordered := by
  obtain ⟨l, r, hq, -, -, hn, ho⟩ := h.exists_subtree (node_eq_ok_iff.1 hi)
  exact ⟨.node l i n.name n.value r, rfl, hq, hn, ho⟩

theorem Ascending.collects (t : Table) : Collects (next t) (collect t) where
  exhausted _ _ := rfl
  damaged _ _ h := by rw [collect, h]; rfl
  done _ _ h := by rw [collect, h]; rfl
  more _ _ h := by rw [collect, h]; rfl

theorem ByLevel.collects (t : Table) : Collects (next t) (collect t) where
  exhausted _ _ := rfl
  damaged _ _ h := by rw [collect, h]; rfl
  done _ _ h := by rw [collect, h]; rfl
  more _ _ h := by rw [collect, h]; rfl

/-- From any node the walks through a table end, having visited what recursion through the links
visits: the nodes of the subtree, each of them once. -/
theorem walks_agree_with_recursion (ht : Reachable (fun _ => True) t) (hi : t.node i = .ok n) :
    (∃ is, t.ascendingFrom (some i) = .ok is.toArray ∧
      Yields (Ascending.next t) { cursor := some i } is ∧ t.Inorder (some i) is ∧
      t.Enumerates (some i) is) ∧
    ∃ rows, t.byLevelFrom (some i) = .ok rows.flatten.toArray ∧
      Yields (ByLevel.next t) { queue := [i] } rows.flatten ∧ t.Rows (some i) rows ∧
      t.Enumerates (some i) rows.flatten := by
  obtain ⟨p, hp⟩ := ht.wellFormed
  obtain ⟨q, hlink, hq, hn, ho⟩ := hp.exists_placement hi
  have hlen := hq.length_slots_le hn
  have hasc := ascendingFrom_stored hq hlen
  have hlevel := byLevelFrom_stored hq hlen
  have hrows := hq.rows
  have hin := hq.inorder
  rw [← q.flatten_rows] at hlevel
  rw [hlink] at hasc hlevel hrows hin
  refine ⟨⟨q.slots, hasc, (Ascending.collects t).yields_toList hasc, hin, hn, fun j => ?_⟩,
    q.rows, hlevel, (ByLevel.collects t).yields_toList hlevel, hrows, ?_, fun j => ?_⟩
  · rw [← hlink, Placement.below_link_iff hq]
  · rw [q.flatten_rows]
    exact Placement.nodup_levels hq ho
  · rw [q.flatten_rows, Placement.mem_levels_iff hq ho, ← hlink, Placement.below_link_iff hq]

open Bytes (ascii) in
/-- The subtree at `c`, which has taken the slot that another name has left. It is not the whole
tree, and its two sides do not look alike. -/
theorem walks_below_reused_slot :
    let t := (((((((({} : Table).insert (ascii "d") 1).2.insert (ascii "g") 2).2.remove
      (ascii "d")).2.insert (ascii "c") 3).2.insert (ascii "p") 4).2.insert (ascii "a") 5).2.insert
      (ascii "e") 6).2
    let t := (t.insert (ascii "d") 7).2
    t.root = some 1 ∧ t.nameAt? 0 = some (ascii "c") ∧
      (Yields (Ascending.next t) { cursor := some 0 } [3, 0, 5, 4] ∧
        t.Inorder (some 0) [3, 0, 5, 4] ∧ t.Enumerates (some 0) [3, 0, 5, 4]) ∧
      ∃ rows, t.Rows (some 0) rows ∧ rows.flatten = [0, 3, 4, 5] ∧
        Yields (ByLevel.next t) { queue := [0] } [0, 3, 4, 5] := by
  intro t₀ t
  have ht : Reachable (fun _ => True) t :=
    .insert 7 (.insert 6 (.insert 5 (.insert 4 (.insert 3 (.remove _ (.insert 2 (.insert 1 .empty
      trivial) trivial)) trivial) trivial) trivial) trivial) trivial
  have hi : t.node 0 = .ok ⟨ascii "c", 3, some 3, some 4⟩ := by decide
  obtain ⟨⟨is, hasc, hyields, hin, henum⟩, rows, hlevel, hyields', hrows, -⟩ :=
    walks_agree_with_recursion ht hi
  obtain rfl : is = [3, 0, 5, 4] := by
    have h : t.ascendingFrom (some 0) = .ok #[3, 0, 5, 4] := by decide
    rw [hasc] at h
    simpa using h
  have hflat : rows.flatten = [0, 3, 4, 5] := by
    have h : t.byLevelFrom (some 0) = .ok #[0, 3, 4, 5] := by decide
    rw [hlevel] at h
    simpa using h
  rw [hflat] at hyields'
  exact ⟨by decide, by decide, ⟨hyields, hin, henum⟩, rows, hrows, hflat, hyields'⟩

end Table

end StackCalc
