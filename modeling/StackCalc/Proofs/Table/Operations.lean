import StackCalc.Proofs.Table.Layout

/-! # What the operations of a table do to its tree

On a table that is laid out as a placement every operation succeeds, and it is laid out again
afterwards, as a placement of the tree that the corresponding operation on trees gives. So tables
that are only changed by their own operations always have a layout.
-/

namespace StackCalc.Table

open Trail

variable {t t' : Table} {p l r : Placement} {c : Trail} {k : Name} {v : Int32} {i : Nat}

theorem seek_of_node {n : Node} (h : t.slots[i]? = some (.occupied n)) (fuel : Nat) (link : Link) :
    t.seek k (fuel + 1) link (some i) =
      match compare k n.name with
      | .eq => .ok (link, some i)
      | .lt => t.seek k fuel (.left i) n.left
      | .gt => t.seek k fuel (.right i) n.right := by
  rw [seek, node_of_getElem? h, ok_bind]
  cases compare k n.name <;> rfl

/-- A search follows a trail to the place of the name, which is empty or holds the name. -/
theorem seek_stored {fuel : Nat} (hp : p.Stored t.slots) (hf : p.tree.height ≤ fuel)
    (hc : Leads k c) :
    ∃ c' q, t.seek k fuel (link c) p.link = .ok (link c', q.link) ∧ plug c' q = plug c p ∧
      Leads k c' ∧ (q = .leaf ∨ ∃ l i v r, q = .node l i k v r) := by
  induction p generalizing fuel c with
  | leaf => exact ⟨c, .leaf, by simp [seek], rfl, hc, .inl rfl⟩
  | node l i n v r ihl ihr =>
    obtain ⟨hi, hl, hr⟩ := hp
    simp only [Placement.tree, Tree.height] at hf
    obtain ⟨fuel, rfl⟩ : ∃ f, fuel = f + 1 := Nat.exists_eq_add_one.2 (by omega)
    rw [Placement.link, seek_of_node hi]
    cases h : compare k n with
    | eq =>
      obtain rfl := Name.compare_eq_iff.1 h
      exact ⟨c, .node l i k v r, rfl, rfl, hc, .inr ⟨l, i, v, r, rfl⟩⟩
    | lt => exact ihl (c := .left i n v r :: c) hl (by omega) (Leads.cons h hc)
    | gt => exact ihr (c := .right l i n v :: c) hr (by omega) (Leads.cons h hc)

theorem releaseAll_of_root_eq_none {fuel released : Nat} (h : t.root = none) :
    releaseAll fuel released t = .ok (released, t) := by
  cases fuel <;> simp [releaseAll, h]

theorem releaseAll_of_root_eq_some {fuel released : Nat} {n : Node} {joined : Option Nat}
    (h : t.root = some i) (hi : t.slots[i]? = some (.occupied n))
    (hm : t.merge n.left n.right = .ok (joined, t')) :
    releaseAll (fuel + 1) released t =
      ({ t' with root := joined }.release i >>= fun x => releaseAll fuel (released + 1) x.2) := by
  simp [releaseAll, h, node_of_getElem? hi, hm]

namespace Layout

theorem height_le (h : t.Layout p) : p.tree.height ≤ t.slots.size :=
  (Placement.height_le_length p).trans h.accounts.length_le

theorem held (h : t.Layout (plug c p)) : Held t c p.link ∧ p.Stored t.slots :=
  held_plug.1 ⟨h.root_eq, h.stored⟩

theorem accounts_plug (h : t.Layout (plug c p)) : t.Accounts (p.slots ++ Trail.slots c) :=
  h.accounts.perm (slots_plug c p)

theorem of_held (hc : Held t c p.link) (hp : p.Stored t.slots)
    (ha : t.Accounts (p.slots ++ Trail.slots c)) (ho : (plug c p).tree.Ordered) :
    t.Layout (plug c p) :=
  have h := held_plug.2 ⟨hc, hp⟩
  ⟨h.1, h.2, ha.perm (slots_plug c p).symm, ho⟩

theorem locate (h : t.Layout p) (k : Name) :
    ∃ c q, t.locate k = .ok (link c, q.link) ∧ plug c q = p ∧ Leads k c ∧
      (q = .leaf ∨ ∃ l i v r, q = .node l i k v r) := by
  have hs := seek_stored (c := []) (k := k) h.stored h.height_le (by simp [Leads])
  rw [Table.locate, h.root_eq]
  exact hs

theorem tryGet (h : t.Layout p) (k : Name) : t.tryGet k = .ok (p.tree.get? k) := by
  obtain ⟨c, q, hloc, rfl, hc, rfl | ⟨l, i, v, r, rfl⟩⟩ := h.locate k
  · rw [get?_plug hc]
    simp [Table.tryGet, hloc, Placement.tree, Tree.get?]
  · have hi := node_of_getElem? h.held.2.1
    rw [get?_plug hc]
    simp [Table.tryGet, hloc, hi, Placement.tree, Tree.get?]

theorem update (h : t.Layout (plug c (.node l i k v r))) (hc : Leads k c) (value : Int32) :
    (t.put i ⟨k, value, l.link, r.link⟩).Layout (plug c (.node l i k value r)) := by
  obtain ⟨hheld, hi, hl, hr⟩ := h.held
  have ha := h.accounts_plug
  have he := edited_put t i ⟨k, value, l.link, r.link⟩
  have hn := ha.nodup_used
  simp only [Placement.slots, List.append_assoc, List.cons_append] at ha hn
  have hni : i ∉ l.slots ∧ i ∉ r.slots ∧ i ∉ Trail.slots c := by
    have := (List.perm_middle.nodup_iff.1 hn)
    simpa using (List.nodup_cons.1 this).1
  have hsame : ∀ j, j ≠ i → (t.put i ⟨k, value, l.link, r.link⟩).slots[j]? = t.slots[j]? :=
    fun j hj => he.same j (by simpa using hj)
  refine of_held (Held.congr (t := t) rfl ?_ hheld)
    ⟨getElem?_put_self hi, hl.congr ?_, hr.congr ?_⟩ ?_ ?_
  · exact fun j hj => hsame j fun e => hni.2.2 (e ▸ hj)
  · exact fun j hj => hsame j fun e => hni.1 (e ▸ hj)
  · exact fun j hj => hsame j fun e => hni.2.1 (e ▸ hj)
  · simpa only [Placement.slots, List.append_assoc, List.cons_append] using
      ha.edited he (by simp)
  · rw [← insert_plug (v := value) hc (p := .node l i k v r)]
    · exact h.ordered.insert
    · simp [Placement.tree, Tree.insert]

theorem attach (h : t.Layout (plug c .leaf)) (hc : Leads k c) (v : Int32) :
    ∃ i t₁ t₂, t.allocate { name := k, value := v } = .ok (i, t₁) ∧
      t₁.relink (link c) (some i) = .ok t₂ ∧ t₂.Layout (plug c (.node .leaf i k v .leaf)) := by
  have ha := h.accounts_plug
  simp only [Placement.slots, List.nil_append] at ha
  obtain ⟨i, t₁, ht₁, ha₁, hr₁, hi₁, hs₁⟩ := ha.allocate { name := k, value := v }
  have hn := List.nodup_append.1 ha₁.nodup
  obtain ⟨hic, hcn⟩ := List.nodup_cons.1 hn.1
  have hheld : Held t₁ c none := h.held.1.congr hr₁ hs₁
  obtain ⟨t₂, ht₂, hheld₂, he⟩ := relink_held hheld hcn (some i)
  refine ⟨i, t₁, t₂, ht₁, ht₂, of_held hheld₂ ⟨?_, trivial, trivial⟩ ?_ ?_⟩
  · exact (he.same i hic).trans hi₁
  · exact ha₁.edited he (List.subset_cons_self ..)
  · rw [← insert_plug (v := v) hc (p := .leaf) (by rfl)]
    exact h.ordered.insert

theorem tryInsert (h : t.Layout p) (k : Name) (v : Int32) :
    ∃ t' p', t.tryInsert k v = .ok (p.tree.get? k, t') ∧ t'.Layout p' ∧
      p'.tree = p.tree.insert k v := by
  obtain ⟨c, q, hloc, rfl, hc, rfl | ⟨l, i, w, r, rfl⟩⟩ := h.locate k
  · obtain ⟨i, t₁, t₂, ht₁, ht₂, h₂⟩ := h.attach hc v
    refine ⟨t₂, _, ?_, h₂, (insert_plug hc rfl).symm⟩
    rw [get?_plug hc]
    simp [Table.tryInsert, hloc, ht₁, ht₂, Placement.tree, Tree.get?]
  · have hi := node_of_getElem? h.held.2.1
    refine ⟨_, _, ?_, h.update hc v, (insert_plug hc ?_).symm⟩
    · rw [get?_plug hc]
      simp [Table.tryInsert, hloc, hi, Placement.tree, Tree.get?]
    · simp [Placement.tree, Tree.insert]

/-- Joining the two sides of a node in its place, moving the link to them and giving up the slot
takes the node out of the placement. -/
theorem detach (h : t.Layout (plug c (.node l i k v r))) (hc : Leads k c) :
    ∃ t₁ t₂ t₃, t.merge l.link r.link = .ok ((l.hang r).link, t₁) ∧
      t₁.relink (link c) (l.hang r).link = .ok t₂ ∧
      t₂.release i = .ok (⟨k, v, l.link, r.link⟩, t₃) ∧ t₃.Layout (plug c (l.hang r)) := by
  obtain ⟨hheld, hi, hl, hr⟩ := h.held
  have ha : t.Accounts (i :: ((l.hang r).slots ++ Trail.slots c)) := by
    refine h.accounts_plug.perm ?_
    simp only [Placement.slots, Placement.slots_hang, List.append_assoc, List.cons_append]
    exact List.perm_middle
  obtain ⟨hni, hn⟩ := List.nodup_cons.1 ha.nodup_used
  obtain ⟨hlr, hcn, hlrc⟩ := List.nodup_append.1 hn
  rw [Placement.slots_hang] at hlr hni hlrc
  have ho := ordered_of_plug h.ordered
  have hlen : l.slots.length ≤ t.slots.size := by
    have := h.accounts_plug.length_le
    simp only [Placement.slots, List.length_append] at this
    omega
  obtain ⟨t₁, ht₁, hs₁, hr₁, he₁⟩ := merge_stored hl hr hlr ho.2.2.1 ho.2.2.2 hlen
  have hheld₁ : Held t₁ c (some i) := hheld.congr hr₁ fun j hj =>
    he₁.same j fun hjl => hlrc j (by simp [hjl]) j hj rfl
  obtain ⟨t₂, ht₂, hheld₂, he₂⟩ := relink_held hheld₁ hcn (l.hang r).link
  have ha₂ : t₂.Accounts (i :: ((l.hang r).slots ++ Trail.slots c)) := by
    refine (ha.edited he₁ fun j hj => ?_).edited he₂ fun j hj => ?_
    · simp [Placement.slots_hang, hj]
    · simp [hj]
  -- Neither joining the sides nor moving the link has written to the slot of the node.
  have hi₂ : t₂.slots[i]? = some (.occupied ⟨k, v, l.link, r.link⟩) := by
    rw [he₂.same i fun hic => hni (by simp [hic]), he₁.same i fun hil => hni (by simp [hil])]
    exact hi
  obtain ⟨t₃, ht₃, ha₃, hr₃, hs₃⟩ := ha₂.release hi₂
  refine ⟨t₁, t₂, t₃, ht₁, ht₂, ht₃, of_held (hheld₂.congr hr₃ fun j hj => ?_) ?_ ha₃ ?_⟩
  · exact hs₃ j (by simp [hj])
  · have hs₂ : (l.hang r).Stored t₂.slots := hs₁.congr fun j hj =>
      he₂.same j fun hjc => hlrc j (Placement.slots_hang l r ▸ hj) j hjc rfl
    exact hs₂.congr fun j hj => hs₃ j (by simp [hj])
  · rw [← remove_plug hc (p := .node l i k v r)]
    · exact h.ordered.remove
    · simp [Placement.tree, Tree.remove, Placement.tree_hang]

theorem tryRemove (h : t.Layout p) (k : Name) :
    ∃ t' p', t.tryRemove k = .ok (p.tree.get? k, t') ∧ t'.Layout p' ∧
      p'.tree = p.tree.remove k := by
  obtain ⟨c, q, hloc, rfl, hc, rfl | ⟨l, i, w, r, rfl⟩⟩ := h.locate k
  · refine ⟨t, _, ?_, h, (remove_plug hc rfl).symm⟩
    rw [get?_plug hc]
    simp [Table.tryRemove, hloc, Placement.tree, Tree.get?]
  · have hi := node_of_getElem? h.held.2.1
    obtain ⟨t₁, t₂, t₃, ht₁, ht₂, ht₃, h₃⟩ := h.detach hc
    refine ⟨t₃, _, ?_, h₃, (remove_plug hc ?_).symm⟩
    · rw [get?_plug hc]
      simp [Table.tryRemove, hloc, hi, ht₁, ht₂, ht₃, Placement.tree, Tree.get?]
    · simp [Placement.tree, Tree.remove, Placement.tree_hang]

theorem releaseAll {fuel : Nat} (h : t.Layout p) (hf : p.slots.length ≤ fuel) (released : Nat) :
    ∃ t', Table.releaseAll fuel released t = .ok (released + p.slots.length, t') ∧
      t'.Layout .leaf := by
  induction fuel generalizing t p released with
  | zero =>
    obtain rfl : p = .leaf := by
      cases p with
      | leaf => rfl
      | node l i n v r => simp [Placement.slots] at hf
    exact ⟨t, releaseAll_of_root_eq_none h.root_eq, h⟩
  | succ fuel ih =>
    cases p with
    | leaf => exact ⟨t, releaseAll_of_root_eq_none h.root_eq, h⟩
    | node l i n v r =>
      obtain ⟨t₁, t₂, t₃, ht₁, ht₂, ht₃, h₃⟩ := detach (c := []) h (by simp [Leads])
      obtain rfl : { t₁ with root := (l.hang r).link } = t₂ := Except.ok.inj ht₂
      have hlen : (Placement.node l i n v r).slots.length = (l.hang r).slots.length + 1 := by
        simp [Placement.slots, Placement.slots_hang]
        omega
      obtain ⟨t', ht', h'⟩ := ih (p := l.hang r) h₃ (by omega) (released + 1)
      refine ⟨t', ?_, h'⟩
      rw [releaseAll_of_root_eq_some h.root_eq h.stored.1 ht₁, ht₃, ok_bind, ht', hlen]
      congr 2
      omega

theorem tryClear (h : t.Layout p) : t.tryClear = .ok (t.size, {}) := by
  obtain ⟨t', ht', h'⟩ := h.releaseAll h.accounts.length_le 0
  have hroot : t'.root = none := h'.root_eq
  have hsize : t'.size = 0 := h'.accounts.size_eq
  rw [Table.tryClear, ht', h.accounts.size_eq]
  simp [hroot, hsize]

end Layout

theorem treeBelow_stored {depth : Nat} (hp : p.Stored t.slots) (hd : p.tree.height ≤ depth) :
    t.treeBelow depth p.link = p.tree := by
  induction p generalizing depth with
  | leaf => simp [treeBelow, Placement.tree]
  | node l i n v r ihl ihr =>
    obtain ⟨hi, hl, hr⟩ := hp
    simp only [Placement.tree, Tree.height] at hd
    obtain ⟨depth, rfl⟩ : ∃ d, depth = d + 1 := Nat.exists_eq_add_one.2 (by omega)
    rw [Placement.link_node, treeBelow, node_of_getElem? hi]
    simp only [ihl hl (show l.tree.height ≤ depth by omega),
      ihr hr (show r.tree.height ≤ depth by omega), Placement.tree]

theorem Layout.toTree (h : t.Layout p) : t.toTree = p.tree := by
  rw [Table.toTree, h.root_eq]
  exact treeBelow_stored h.stored h.height_le

def WellFormed (t : Table) : Prop := ∃ p, t.Layout p

theorem wellFormed_empty : ({} : Table).WellFormed :=
  ⟨.leaf, rfl, trivial, ⟨by simp [Placement.slots], by simp, rfl⟩, trivial⟩

namespace WellFormed

variable (h : t.WellFormed)

include h

theorem ordered : t.toTree.Ordered := by
  obtain ⟨p, hp⟩ := h
  exact hp.toTree ▸ hp.ordered

theorem size_eq : t.size = t.toTree.size := by
  obtain ⟨p, hp⟩ := h
  rw [hp.toTree, hp.accounts.size_eq, Placement.size_tree]

theorem isEmpty_iff : t.isEmpty ↔ t.toTree = .leaf := by
  obtain ⟨p, hp⟩ := h
  rw [hp.toTree, isEmpty, hp.root_eq]
  cases p <;> simp [Placement.tree]

theorem tryGet (k : Name) : t.tryGet k = .ok (t.toTree.get? k) := by
  obtain ⟨p, hp⟩ := h
  rw [hp.toTree, hp.tryGet]

theorem tryInsert (k : Name) (v : Int32) :
    ∃ t', t.tryInsert k v = .ok (t.toTree.get? k, t') ∧ t'.WellFormed ∧
      t'.toTree = t.toTree.insert k v := by
  obtain ⟨p, hp⟩ := h
  obtain ⟨t', p', ht', hp', htree⟩ := hp.tryInsert k v
  rw [hp.toTree]
  exact ⟨t', ht', ⟨p', hp'⟩, hp'.toTree.trans htree⟩

theorem tryRemove (k : Name) :
    ∃ t', t.tryRemove k = .ok (t.toTree.get? k, t') ∧ t'.WellFormed ∧
      t'.toTree = t.toTree.remove k := by
  obtain ⟨p, hp⟩ := h
  obtain ⟨t', p', ht', hp', htree⟩ := hp.tryRemove k
  rw [hp.toTree]
  exact ⟨t', ht', ⟨p', hp'⟩, hp'.toTree.trans htree⟩

theorem tryClear : t.tryClear = .ok (t.size, {}) := by
  obtain ⟨p, hp⟩ := h
  exact hp.tryClear

theorem get?_eq (k : Name) : t.get? k = t.toTree.get? k := by
  rw [get?, h.tryGet]
  rfl

theorem insert (k : Name) (v : Int32) :
    (t.insert k v).1 = t.toTree.get? k ∧ (t.insert k v).2.WellFormed ∧
      (t.insert k v).2.toTree = t.toTree.insert k v := by
  obtain ⟨t', ht', hw, htree⟩ := h.tryInsert k v
  rw [Table.insert, ht']
  exact ⟨rfl, hw, htree⟩

theorem remove (k : Name) :
    (t.remove k).1 = t.toTree.get? k ∧ (t.remove k).2.WellFormed ∧
      (t.remove k).2.toTree = t.toTree.remove k := by
  obtain ⟨t', ht', hw, htree⟩ := h.tryRemove k
  rw [Table.remove, ht']
  exact ⟨rfl, hw, htree⟩

theorem clear_eq : t.clear = (t.size, {}) := by
  rw [clear, h.tryClear]

end WellFormed

/-- The tables that come about by insertion of names that `admits` allows, removal and clearing. -/
inductive Reachable (admits : Name → Prop) : Table → Prop where
  | empty : Reachable admits {}
  | insert {t : Table} {k : Name} (v : Int32) :
      Reachable admits t → admits k → Reachable admits (t.insert k v).2
  | remove {t : Table} (k : Name) : Reachable admits t → Reachable admits (t.remove k).2
  | clear {t : Table} : Reachable admits t → Reachable admits t.clear.2

namespace Reachable

variable {admits : Name → Prop}

theorem wellFormed (h : Reachable admits t) : t.WellFormed := by
  induction h with
  | empty => exact wellFormed_empty
  | insert v _ _ ih => exact (ih.insert _ v).2.1
  | remove k _ ih => exact (ih.remove k).2.1
  | clear _ ih => rw [ih.clear_eq]; exact wellFormed_empty

theorem all_names (h : Reachable admits t) : t.toTree.All admits := by
  induction h with
  | empty => trivial
  | insert v ht hk ih => rw [(ht.wellFormed.insert _ v).2.2]; exact ih.insert hk
  | remove k ht ih => rw [(ht.wellFormed.remove k).2.2]; exact ih.remove
  | clear ht _ => rw [ht.wellFormed.clear_eq]; trivial

end Reachable

end StackCalc.Table
