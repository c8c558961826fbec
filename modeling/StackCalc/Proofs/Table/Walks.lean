import StackCalc.Proofs.Table.Operations

/-! # The walks through a table

Both walks visit what the corresponding walk of the tree visits, in the same order, from whatever
node they start. The ascending walk keeps the nodes whose left side is done together with their
right sides, which are what it has still to visit. The walk by levels has two levels in its queue
at most times; it is followed one level at a time.
-/

namespace StackCalc

def Node.binding (n : Node) : Name × Int32 := (n.name, n.value)

namespace Placement

def atDepth : Placement → Nat → List Nat
  | leaf, _ => []
  | node _ i _ _ _, 0 => [i]
  | node l _ _ _ r, d + 1 => l.atDepth d ++ r.atDepth d

def levels (p : Placement) : List Nat := (List.range p.tree.height).flatMap p.atDepth

/-- The nodes on the left spine with their right sides, the lowest first, on top of `pending`. -/
def leftSpine : Placement → (pending : List (Nat × Placement)) → List (Nat × Placement)
  | leaf, pending => pending
  | node l i _ _ r, pending => l.leftSpine ((i, r) :: pending)

def children : Placement → List Placement
  | leaf => []
  | node l _ _ _ r => [l, r]

variable {p : Placement} {t : Table}

theorem filterMap_slots (hp : p.Stored t.slots) :
    p.slots.filterMap (fun i => (t.node i).toOption.map Node.binding) = p.tree.inorder := by
  induction p with
  | leaf => rfl
  | node l i n v r ihl ihr =>
    obtain ⟨hi, hl, hr⟩ := hp
    rw [slots, List.filterMap_append, ihl hl, List.filterMap_cons, Table.node_of_getElem? hi,
      ihr hr]
    rfl

theorem filterMap_atDepth (hp : p.Stored t.slots) (d : Nat) :
    (p.atDepth d).filterMap (fun i => (t.node i).toOption.map Node.binding) =
      p.tree.atDepth d := by
  induction p generalizing d with
  | leaf => rfl
  | node l i n v r ihl ihr =>
    obtain ⟨hi, hl, hr⟩ := hp
    cases d with
    | zero =>
      simp [atDepth, Table.node_of_getElem? hi, Except.toOption, Node.binding, tree, Tree.atDepth]
    | succ d => rw [atDepth, List.filterMap_append, ihl hl, ihr hr, tree, Tree.atDepth]

theorem filterMap_levels (hp : p.Stored t.slots) :
    p.levels.filterMap (fun i => (t.node i).toOption.map Node.binding) = p.tree.levels := by
  rw [levels, List.filterMap_flatMap, Tree.levels]
  exact List.flatMap_congr fun d _ => filterMap_atDepth hp d

end Placement

namespace Table

variable {t : Table} {q : Placement} {ps : List (Nat × Placement)}

namespace Ascending

/-- The walk has these nodes and their right sides to visit yet. -/
def Pending (t : Table) (ps : List (Nat × Placement)) : Prop :=
  ∀ e ∈ ps, (∃ n, t.node e.1 = .ok n ∧ n.right = e.2.link) ∧ e.2.Stored t.slots

def toVisit (ps : List (Nat × Placement)) : List Nat := ps.flatMap fun e => e.1 :: e.2.slots

theorem Pending.leftSpine (hq : q.Stored t.slots) (hps : Pending t ps) :
    Pending t (q.leftSpine ps) := by
  induction q generalizing ps with
  | leaf => exact hps
  | node l i n v r ihl _ =>
    obtain ⟨hi, hl, hr⟩ := hq
    refine ihl hl (List.forall_mem_cons.2 ⟨⟨⟨_, node_of_getElem? hi, rfl⟩, hr⟩, hps⟩)

theorem toVisit_leftSpine (q : Placement) (ps : List (Nat × Placement)) :
    toVisit (q.leftSpine ps) = q.slots ++ toVisit ps := by
  induction q generalizing ps with
  | leaf => rfl
  | node l i n v r ihl _ =>
    rw [Placement.leftSpine, ihl, Placement.slots, toVisit, toVisit, List.flatMap_cons]
    simp

theorem dive_stored {fuel : Nat} (ps : List (Nat × Placement)) (hq : q.Stored t.slots)
    (hf : q.tree.height ≤ fuel) :
    dive t fuel (ps.map Prod.fst) q.link = .ok ((q.leftSpine ps).map Prod.fst) := by
  induction q generalizing fuel ps with
  | leaf => simp [dive, Placement.leftSpine]
  | node l i n v r ihl _ =>
    obtain ⟨hi, hl, hr⟩ := hq
    simp only [Placement.tree, Tree.height] at hf
    obtain ⟨fuel, rfl⟩ : ∃ f, fuel = f + 1 := Nat.exists_eq_add_one.2 (by omega)
    have hd := ihl ((i, r) :: ps) hl (show l.tree.height ≤ fuel by omega)
    rw [Placement.link_node, dive, node_of_getElem? hi, ok_bind, Placement.leftSpine]
    exact hd

theorem collect_stored {fuel : Nat} (visited : Array Nat) (hq : q.Stored t.slots)
    (hps : Pending t ps) (hf : (q.slots ++ toVisit ps).length < fuel)
    (hs : (q.slots ++ toVisit ps).length ≤ t.slots.size) :
    collect t fuel visited { pending := ps.map Prod.fst, cursor := q.link } =
      .ok (visited ++ (q.slots ++ toVisit ps).toArray) := by
  induction fuel generalizing q ps visited with
  | zero => omega
  | succ fuel ih =>
    have hh : q.tree.height ≤ t.slots.size := by
      refine (Placement.height_le_length q).trans (le_trans ?_ hs)
      simp
    have hpend := Pending.leftSpine hq hps
    rw [← toVisit_leftSpine] at hf hs ⊢
    rw [collect, next, dive_stored ps hq hh]
    cases hsp : q.leftSpine ps with
    | nil => simp [toVisit]
    | cons e rest =>
      obtain ⟨i, r⟩ := e
      rw [hsp] at hpend hf hs
      obtain ⟨⟨⟨n, hn, hr⟩, hrs⟩, hrest⟩ := List.forall_mem_cons.1 hpend
      have hlen : (toVisit ((i, r) :: rest)).length = (r.slots ++ toVisit rest).length + 1 := by
        simp [toVisit]
      have hc := ih (q := r) (visited.push i) hrs hrest (by omega) (by omega)
      simp only [ok_bind, List.map_cons, hn, hr, pure_eq_ok, hc]
      simp [toVisit]

end Ascending

theorem ascendingFrom_stored (hq : q.Stored t.slots) (hs : q.slots.length ≤ t.slots.size) :
    t.ascendingFrom q.link = .ok q.slots.toArray := by
  have hlen : (q.slots ++ Ascending.toVisit []).length ≤ t.slots.size := by
    simpa [Ascending.toVisit] using hs
  have h := Ascending.collect_stored #[] hq (List.forall_mem_nil _) (Nat.lt_succ_of_le hlen) hlen
  simpa [Ascending.toVisit, ascendingFrom] using h

namespace ByLevel

variable {qs ts us : List Placement}

def below (qs : List Placement) : List Placement := qs.flatMap Placement.children

def total (qs : List Placement) : Nat := (qs.flatMap Placement.slots).length

theorem total_eq (qs : List Placement) :
    total qs = (qs.filterMap Placement.link).length + total (below qs) := by
  induction qs with
  | nil => rfl
  | cons q qs ih =>
    simp only [total, below, List.flatMap_cons, List.flatMap_append, List.length_append] at ih ⊢
    cases q with
    | leaf =>
      rw [List.filterMap_cons_none Placement.link_leaf]
      simpa [Placement.children, Placement.slots] using ih
    | node l i n v r =>
      rw [List.filterMap_cons_some Placement.link_node]
      simp only [Placement.children, Placement.slots, List.flatMap_cons, List.flatMap_nil,
        List.length_cons, List.length_append, List.length_nil]
      omega

theorem below_stored (h : ∀ q ∈ qs, q.Stored t.slots) : ∀ q ∈ below qs, q.Stored t.slots := by
  intro q hq
  obtain ⟨p, hp, hqp⟩ := List.mem_flatMap.1 hq
  have hst := h p hp
  cases p with
  | leaf => simp [Placement.children] at hqp
  | node l i n v r =>
    rcases List.mem_pair.1 hqp with rfl | rfl
    · exact hst.2.1
    · exact hst.2.2

theorem below_height {d : Nat} (h : ∀ q ∈ qs, q.tree.height ≤ d + 1) :
    ∀ q ∈ below qs, q.tree.height ≤ d := by
  intro q hq
  obtain ⟨p, hp, hqp⟩ := List.mem_flatMap.1 hq
  have hh := h p hp
  cases p with
  | leaf => simp [Placement.children] at hqp
  | node l i n v r =>
    simp only [Placement.tree, Tree.height] at hh
    rcases List.mem_pair.1 hqp with rfl | rfl <;> omega

theorem filterMap_link_pair (l r : Placement) :
    [l, r].filterMap Placement.link = l.link.toList ++ r.link.toList := by
  cases l <;> cases r <;> rfl

/-- The walk passes the subtrees `ts` of one level, and has the next level in its queue then. -/
theorem collect_level (us : List Placement) (fuel : Nat) (visited : Array Nat)
    (hts : ∀ q ∈ ts, q.Stored t.slots) :
    collect t ((ts.filterMap Placement.link).length + fuel) visited
        { queue := (ts ++ us).filterMap Placement.link } =
      collect t fuel (visited ++ (ts.filterMap Placement.link).toArray)
        { queue := (us ++ below ts).filterMap Placement.link } := by
  induction ts generalizing us visited with
  | nil => simp [below]
  | cons q ts ih =>
    obtain ⟨hq, hts'⟩ := List.forall_mem_cons.1 hts
    cases q with
    | leaf =>
      rw [List.cons_append, List.filterMap_cons_none Placement.link_leaf,
        List.filterMap_cons_none Placement.link_leaf]
      exact ih us visited hts'
    | node l i n v r =>
      -- The node leaves the front of the queue, and its children join the end.
      have hstep := ih (us ++ [l, r]) (visited.push i) hts'
      have hqueue : (ts ++ us).filterMap Placement.link ++ l.link.toList ++ r.link.toList =
          (ts ++ (us ++ [l, r])).filterMap Placement.link := by
        simp only [List.filterMap_append, List.append_assoc, filterMap_link_pair]
      rw [List.cons_append, List.filterMap_cons_some Placement.link_node,
        List.filterMap_cons_some Placement.link_node, List.length_cons, Nat.add_right_comm, collect,
        next]
      simp only [node_of_getElem? hq.1, ok_bind, pure_eq_ok, hqueue, hstep]
      simp [below, Placement.children]

def forest (depth : Nat) (qs : List Placement) : List Nat :=
  (List.range depth).flatMap fun d => qs.flatMap (·.atDepth d)

theorem flatMap_atDepth_zero (qs : List Placement) :
    qs.flatMap (·.atDepth 0) = qs.filterMap Placement.link := by
  induction qs with
  | nil => rfl
  | cons q qs ih =>
    rw [List.flatMap_cons, ih]
    cases q <;> rfl

theorem flatMap_atDepth_succ (qs : List Placement) (d : Nat) :
    qs.flatMap (·.atDepth (d + 1)) = (below qs).flatMap (·.atDepth d) := by
  induction qs with
  | nil => rfl
  | cons q qs ih =>
    simp only [below, List.flatMap_cons, List.flatMap_append] at ih ⊢
    rw [ih]
    cases q <;> simp [Placement.atDepth, Placement.children]

theorem forest_succ (depth : Nat) (qs : List Placement) :
    forest (depth + 1) qs = qs.filterMap Placement.link ++ forest depth (below qs) := by
  rw [forest, List.range_succ_eq_map, List.flatMap_cons, List.flatMap_map, forest,
    flatMap_atDepth_zero]
  simp only [flatMap_atDepth_succ]

theorem collect_stored {depth fuel : Nat} (visited : Array Nat) (hqs : ∀ q ∈ qs, q.Stored t.slots)
    (hd : ∀ q ∈ qs, q.tree.height ≤ depth) (hf : total qs < fuel) :
    collect t fuel visited { queue := qs.filterMap Placement.link } =
      .ok (visited ++ (forest depth qs).toArray) := by
  induction depth generalizing qs fuel visited with
  | zero =>
    have hleaf : qs.filterMap Placement.link = [] := by
      refine List.filterMap_eq_nil_iff.2 fun q hq => ?_
      have hh := hd q hq
      cases q with
      | leaf => rfl
      | node l i n v r => simp [Placement.tree, Tree.height] at hh
    obtain ⟨fuel, rfl⟩ : ∃ f, fuel = f + 1 := Nat.exists_eq_add_one.2 (by omega)
    simp [hleaf, collect, next, forest]
  | succ depth ih =>
    have htotal := total_eq qs
    obtain ⟨fuel, rfl⟩ : ∃ f, fuel = (qs.filterMap Placement.link).length + f :=
      Nat.exists_eq_add_of_le (by omega)
    have hl := collect_level [] fuel visited hqs
    simp only [List.append_nil, List.nil_append] at hl
    have hc := ih (visited ++ (qs.filterMap Placement.link).toArray)
      (below_stored hqs) (below_height hd) (show total (below qs) < fuel by omega)
    rw [hl, hc, forest_succ]
    simp

end ByLevel

theorem byLevelFrom_stored (hq : q.Stored t.slots) (hs : q.slots.length ≤ t.slots.size) :
    t.byLevelFrom q.link = .ok q.levels.toArray := by
  have hst : ∀ p ∈ [q], p.Stored t.slots := by simpa using hq
  have hd : ∀ p ∈ [q], p.tree.height ≤ q.tree.height := by simp
  have hf : ByLevel.total [q] < t.slots.size + 1 := by
    simpa [ByLevel.total] using Nat.lt_succ_of_le hs
  have h := ByLevel.collect_stored #[] hst hd hf
  have hqueue : [q].filterMap Placement.link = q.link.toList := by
    cases q <;> rfl
  rw [hqueue] at h
  simpa [ByLevel.forest, byLevelFrom, Placement.levels] using h

theorem nodesOf_map_binding (t : Table) (slots : Array Nat) :
    (t.nodesOf (.ok slots)).map Node.binding =
      slots.toList.filterMap fun i => (t.node i).toOption.map Node.binding := by
  rw [nodesOf, List.map_filterMap]

namespace WellFormed

variable (h : t.WellFormed)

include h

theorem ascending_bindings : t.ascending.map Node.binding = t.toTree.inorder := by
  obtain ⟨p, hp⟩ := h
  have hw := ascendingFrom_stored hp.stored hp.accounts.length_le
  rw [ascending, hp.root_eq, hw, nodesOf_map_binding, hp.toTree]
  exact Placement.filterMap_slots hp.stored

theorem byLevel_bindings : t.byLevel.map Node.binding = t.toTree.levels := by
  obtain ⟨p, hp⟩ := h
  have hw := byLevelFrom_stored hp.stored hp.accounts.length_le
  rw [byLevel, hp.root_eq, hw, nodesOf_map_binding, hp.toTree]
  exact Placement.filterMap_levels hp.stored

end WellFormed

end Table

end StackCalc
