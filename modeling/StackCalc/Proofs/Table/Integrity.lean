import Mathlib.Data.List.Perm.Basic
import Mathlib.Logic.Relation
import StackCalc.Proofs.Table.Walks

/-! # The integrity of a table

Links lead to occupied slots and form one tree: every node hangs from one link, below the root, and
no way down leads back to where it started. The free slots are the vacant ones, the size counts the
others, and names are in order. All this is read off the layout of a table. It is why no operation
and no walk ever comes to a broken link, gives up a slot twice, finds a name shared by two siblings,
counts below zero or goes on without end.
-/

namespace StackCalc

def Slot.isOccupied : Slot → Bool
  | .vacant => false
  | .occupied _ => true

namespace Table

def target? (t : Table) : Link → Option Nat
  | .root => t.root
  | .left i => (t.node i).toOption.bind Node.left
  | .right i => (t.node i).toOption.bind Node.right

def Child (t : Table) (i j : Nat) : Prop :=
  t.target? (.left i) = some j ∨ t.target? (.right i) = some j

/-- The slot `j` is in the subtree that hangs from a link to `target`. -/
def Below (t : Table) (target : Option Nat) (j : Nat) : Prop :=
  ∃ i, target = some i ∧ Relation.ReflTransGen t.Child i j

structure Intact (t : Table) : Prop where
  target_occupied : ∀ link j, t.target? link = some j →
    j < t.slots.size ∧ ∃ n, t.slots[j]? = some (.occupied n)
  linked_once : ∀ (j : Nat) (n : Node), t.slots[j]? = some (.occupied n) →
    ∃! link, t.target? link = some j
  below_root : ∀ (j : Nat) (n : Node), t.slots[j]? = some (.occupied n) → t.Below t.root j
  acyclic : ∀ i, ¬ Relation.TransGen t.Child i i
  free_nodup : t.free.Nodup
  mem_free_iff : ∀ i : Nat, i ∈ t.free ↔ t.slots[i]? = some .vacant
  size_eq : t.size = t.slots.countP Slot.isOccupied
  left_lt : ∀ (i : Nat) (n : Node), t.slots[i]? = some (.occupied n) → ∀ (j : Nat) (m : Node),
    t.Below n.left j → t.slots[j]? = some (.occupied m) → m.name < n.name
  right_gt : ∀ (i : Nat) (n : Node), t.slots[i]? = some (.occupied n) → ∀ (j : Nat) (m : Node),
    t.Below n.right j → t.slots[j]? = some (.occupied m) → n.name < m.name

/-- No operation and no walk finds anything wrong. -/
structure Undamaged (t : Table) : Prop where
  get : ∀ k, ∃ r, t.tryGet k = .ok r
  insert : ∀ k v, ∃ r, t.tryInsert k v = .ok r
  remove : ∀ k, ∃ r, t.tryRemove k = .ok r
  clear : ∃ r, t.tryClear = .ok r
  ascending : ∃ visited, t.ascendingFrom t.root = .ok visited ∧
    ∀ i ∈ visited, ∃ n, t.node i = .ok n
  byLevel : ∃ visited, t.byLevelFrom t.root = .ok visited ∧ ∀ i ∈ visited, ∃ n, t.node i = .ok n

end Table

namespace Placement

variable {p q : Placement} {t : Table} {i j : Nat}

def links (k : Link) : Placement → List (Link × Nat)
  | leaf => []
  | node l i _ _ r => (k, i) :: (l.links (.left i) ++ r.links (.right i))

theorem links_targets (k : Link) (p : Placement) : ((p.links k).map Prod.snd).Perm p.slots := by
  induction p generalizing k with
  | leaf => exact List.Perm.refl _
  | node l i n v r ihl ihr =>
    simp only [links, slots, List.map_cons, List.map_append]
    exact (((ihl _).append (ihr _)).cons i).trans List.perm_middle.symm

theorem link_mem_links (k : Link) (h : p.link = some j) : (k, j) ∈ p.links k := by
  cases p with
  | leaf => simp at h
  | node l i n v r =>
    obtain rfl : i = j := by simpa using h
    simp [links]

theorem target?_left {l r : Placement} {n : Name} {v : Int32}
    (h : (node l i n v r).Stored t.slots) : t.target? (.left i) = l.link := by
  rw [Table.target?, Table.node_of_getElem? h.1]
  rfl

theorem target?_right {l r : Placement} {n : Name} {v : Int32}
    (h : (node l i n v r).Stored t.slots) : t.target? (.right i) = r.link := by
  rw [Table.target?, Table.node_of_getElem? h.1]
  rfl

/-- The links of a stored placement lead where the table says, but for the one it hangs from. -/
theorem target?_of_mem_links {k link : Link} (hp : p.Stored t.slots) (h : (link, j) ∈ p.links k) :
    (link = k ∧ p.link = some j) ∨ t.target? link = some j := by
  induction p generalizing k with
  | leaf => simp [links] at h
  | node l i n v r ihl ihr =>
    simp only [links, List.mem_cons, Prod.mk.injEq, List.mem_append] at h
    rcases h with ⟨rfl, rfl⟩ | h | h
    · exact .inl ⟨rfl, rfl⟩
    · rcases ihl hp.2.1 h with ⟨rfl, hl⟩ | ht
      · exact .inr ((target?_left hp).trans hl)
      · exact .inr ht
    · rcases ihr hp.2.2 h with ⟨rfl, hr⟩ | ht
      · exact .inr ((target?_right hp).trans hr)
      · exact .inr ht

theorem mem_links_of_target? (k : Link) (hp : p.Stored t.slots) (hi : i ∈ p.slots) :
    (t.target? (.left i) = some j → (.left i, j) ∈ p.links k) ∧
      (t.target? (.right i) = some j → (.right i, j) ∈ p.links k) := by
  induction p generalizing k with
  | leaf => simp [slots] at hi
  | node l x n v r ihl ihr =>
    simp only [slots, List.mem_append, List.mem_cons] at hi
    simp only [links, List.mem_cons, List.mem_append]
    rcases hi with hi | rfl | hi
    · obtain ⟨h₁, h₂⟩ := ihl (.left x) hp.2.1 hi
      exact ⟨fun h => .inr (.inl (h₁ h)), fun h => .inr (.inl (h₂ h))⟩
    · rw [target?_left hp, target?_right hp]
      exact ⟨fun h => .inr (.inl (link_mem_links _ h)), fun h => .inr (.inr (link_mem_links _ h))⟩
    · obtain ⟨h₁, h₂⟩ := ihr (.right x) hp.2.2 hi
      exact ⟨fun h => .inr (.inr (h₁ h)), fun h => .inr (.inr (h₂ h))⟩

theorem child_mem (hp : p.Stored t.slots) (hi : i ∈ p.slots) (h : t.Child i j) : j ∈ p.slots := by
  obtain ⟨h₁, h₂⟩ := mem_links_of_target? (j := j) .root hp hi
  have hmem : ∃ link, (link, j) ∈ p.links .root := by
    rcases h with h | h
    · exact ⟨_, h₁ h⟩
    · exact ⟨_, h₂ h⟩
  obtain ⟨link, hlink⟩ := hmem
  exact (links_targets .root p).mem_iff.1 (List.mem_map_of_mem hlink)

theorem below_link_iff (hp : p.Stored t.slots) : t.Below p.link j ↔ j ∈ p.slots := by
  constructor
  · rintro ⟨i, hi, h⟩
    induction h with
    | refl => exact link_mem_slots hi
    | tail _ hc ih => exact child_mem hp ih hc
  · intro hj
    induction p with
    | leaf => simp [slots] at hj
    | node l i n v r ihl ihr =>
      refine ⟨i, rfl, ?_⟩
      simp only [slots, List.mem_append, List.mem_cons] at hj
      rcases hj with hj | rfl | hj
      · obtain ⟨x, hx, hxj⟩ := ihl hp.2.1 hj
        exact .head (.inl ((target?_left hp).trans hx)) hxj
      · exact .refl
      · obtain ⟨x, hx, hxj⟩ := ihr hp.2.2 hj
        exact .head (.inr ((target?_right hp).trans hx)) hxj

theorem all_stored {P : Name → Prop} {m : Node} (hp : p.Stored t.slots) (h : p.tree.All P)
    (hj : j ∈ p.slots) (hm : t.slots[j]? = some (.occupied m)) : P m.name := by
  induction p with
  | leaf => simp [slots] at hj
  | node l i n v r ihl ihr =>
    simp only [slots, List.mem_append, List.mem_cons] at hj
    rcases hj with hj | rfl | hj
    · exact ihl hp.2.1 h.1 hj
    · obtain rfl : m = ⟨n, v, l.link, r.link⟩ := by
        have := hm.symm.trans hp.1
        simpa using this
      exact h.2.1
    · exact ihr hp.2.2 h.2.2 hj

theorem mem_slots_of_mem_atDepth {d : Nat} (h : i ∈ p.atDepth d) : i ∈ p.slots := by
  induction p generalizing d with
  | leaf => simp [atDepth] at h
  | node l x n v r ihl ihr =>
    cases d with
    | zero => simp_all [atDepth, slots]
    | succ d =>
      rcases List.mem_append.1 h with h | h
      · simp [slots, ihl h]
      · simp [slots, ihr h]

theorem mem_slots_of_mem_levels (h : i ∈ p.levels) : i ∈ p.slots := by
  obtain ⟨d, -, hd⟩ := List.mem_flatMap.1 h
  exact mem_slots_of_mem_atDepth hd

theorem plug_append (c c' : Trail) (p : Placement) :
    Trail.plug (c ++ c') p = Trail.plug c' (Trail.plug c p) := by
  induction c generalizing p with
  | nil => rfl
  | cons b c ih => exact ih (b.fill p)

theorem exists_trail (hi : i ∈ p.slots) :
    ∃ c l n v r, Trail.plug c (node l i n v r) = p := by
  induction p with
  | leaf => simp [slots] at hi
  | node l x m w r ihl ihr =>
    simp only [slots, List.mem_append, List.mem_cons] at hi
    rcases hi with hi | rfl | hi
    · obtain ⟨c, l', n, v, r', hc⟩ := ihl hi
      exact ⟨c ++ [.left x m w r], l', n, v, r', by rw [plug_append, hc]; rfl⟩
    · exact ⟨[], l, m, w, r, rfl⟩
    · obtain ⟨c, l', n, v, r', hc⟩ := ihr hi
      exact ⟨c ++ [.right l x m w], l', n, v, r', by rw [plug_append, hc]; rfl⟩

end Placement

namespace Table

variable {t : Table} {p : Placement} {i j : Nat}

theorem toOption_eq_some {x : Except Damage Node} {n : Node} :
    x.toOption = some n ↔ x = .ok n := by
  cases x <;> simp [Except.toOption]

theorem occupied_of_child (h : t.Child i j) : ∃ n, t.slots[i]? = some (.occupied n) := by
  rcases h with h | h <;>
  · obtain ⟨n, hn, -⟩ := Option.bind_eq_some_iff.1 h
    exact ⟨n, node_eq_ok_iff.1 (toOption_eq_some.1 hn)⟩

namespace Layout

theorem mem_slots_iff (h : t.Layout p) : i ∈ p.slots ↔ ∃ n, t.slots[i]? = some (.occupied n) := by
  constructor
  · exact h.stored.occupied
  · rintro ⟨n, hn⟩
    have hlt := (Array.getElem?_eq_some_iff.1 hn).1
    have hmem := h.accounts.covers.mem_iff.2 (List.mem_range.2 hlt)
    rcases List.mem_append.1 hmem with hi | hi
    · exact hi
    · have := (h.accounts.vacant i hi).symm.trans hn
      simp at this

theorem mem_free_iff (h : t.Layout p) : i ∈ t.free ↔ t.slots[i]? = some .vacant := by
  constructor
  · exact h.accounts.vacant i
  · intro hv
    have hlt := (Array.getElem?_eq_some_iff.1 hv).1
    have hmem := h.accounts.covers.mem_iff.2 (List.mem_range.2 hlt)
    rcases List.mem_append.1 hmem with hi | hi
    · obtain ⟨n, hn⟩ := h.mem_slots_iff.1 hi
      simp [hn] at hv
    · exact hi

theorem target?_iff (h : t.Layout p) (link : Link) :
    t.target? link = some j ↔ (link, j) ∈ p.links .root := by
  constructor
  · intro ht
    cases link with
    | root => exact Placement.link_mem_links _ (h.root_eq ▸ ht)
    | left i =>
      have hi : i ∈ p.slots := h.mem_slots_iff.2 (occupied_of_child (.inl ht))
      exact (Placement.mem_links_of_target? .root h.stored hi).1 ht
    | right i =>
      have hi : i ∈ p.slots := h.mem_slots_iff.2 (occupied_of_child (.inr ht))
      exact (Placement.mem_links_of_target? .root h.stored hi).2 ht
  · intro hm
    rcases Placement.target?_of_mem_links h.stored hm with ⟨rfl, hl⟩ | ht
    · exact h.root_eq.trans hl
    · exact ht

theorem linked_once (h : t.Layout p) (hj : j ∈ p.slots) : ∃! link, t.target? link = some j := by
  have hn : ((p.links .root).map Prod.snd).Nodup :=
    (Placement.links_targets .root p).nodup_iff.2 h.accounts.nodup_used
  obtain ⟨⟨link, x⟩, hlink, rfl⟩ :=
    List.mem_map.1 ((Placement.links_targets .root p).mem_iff.2 hj)
  refine ⟨link, (h.target?_iff link).2 hlink, fun other ho => ?_⟩
  have he := List.inj_on_of_nodup_map hn ((h.target?_iff other).1 ho) hlink rfl
  exact congrArg Prod.fst he

theorem exists_subtree {n : Node} (h : t.Layout p) (hi : t.slots[i]? = some (.occupied n)) :
    ∃ l r, (Placement.node l i n.name n.value r).Stored t.slots ∧ l.link = n.left ∧
      r.link = n.right ∧ (Placement.node l i n.name n.value r).slots.Nodup ∧
      (Placement.node l i n.name n.value r).tree.Ordered := by
  obtain ⟨c, l, k, v, r, rfl⟩ := Placement.exists_trail (h.mem_slots_iff.2 ⟨n, hi⟩)
  have hst := h.held.2
  obtain rfl : n = ⟨k, v, l.link, r.link⟩ := by
    have := hi.symm.trans hst.1
    simpa using this
  have hn := h.accounts_plug.nodup_used
  exact ⟨l, r, hst, rfl, rfl, (List.nodup_append.1 hn).1, Trail.ordered_of_plug h.ordered⟩

theorem acyclic (h : t.Layout p) (i : Nat) : ¬ Relation.TransGen t.Child i i := by
  intro hii
  obtain ⟨j, hij, hji⟩ := Relation.TransGen.head'_iff.1 hii
  obtain ⟨n, hn⟩ := occupied_of_child hij
  obtain ⟨l, r, hst, -, -, hnd, -⟩ := h.exists_subtree hn
  simp only [Placement.slots] at hnd
  obtain ⟨-, hir, hl⟩ := List.nodup_append.1 hnd
  -- The way back would have to end in the side that it started into.
  rcases hij with hij | hij
  · rw [Placement.target?_left hst] at hij
    have hmem := (Placement.below_link_iff hst.2.1).1 ⟨j, hij, hji⟩
    exact hl i hmem i (by simp) rfl
  · rw [Placement.target?_right hst] at hij
    have hmem := (Placement.below_link_iff hst.2.2).1 ⟨j, hij, hji⟩
    exact (List.nodup_cons.1 hir).1 hmem

theorem countP_isOccupied (h : t.Layout p) : t.slots.countP Slot.isOccupied = p.slots.length := by
  have hmap : (List.range t.slots.size).map (fun i => t.slots[i]?) = t.slots.toList.map some := by
    refine List.ext_getElem (by simp) fun i hi _ => ?_
    simp at hi
    simp [hi]
  have hused : p.slots.countP (fun i => t.slots[i]?.any Slot.isOccupied) = p.slots.length := by
    refine List.countP_eq_length.2 fun i hi => ?_
    obtain ⟨n, hn⟩ := h.mem_slots_iff.1 hi
    simp [hn, Slot.isOccupied]
  have hfree : t.free.countP (fun i => t.slots[i]?.any Slot.isOccupied) = 0 := by
    refine List.countP_eq_zero.2 fun i hi => ?_
    simp [h.accounts.vacant i hi, Slot.isOccupied]
  calc t.slots.countP Slot.isOccupied
      = (t.slots.toList.map some).countP (Option.any Slot.isOccupied) := by
        rw [List.countP_map, ← Array.countP_toList]
        rfl
    _ = (List.range t.slots.size).countP (fun i => t.slots[i]?.any Slot.isOccupied) := by
        rw [← hmap, List.countP_map]
        rfl
    _ = (p.slots ++ t.free).countP (fun i => t.slots[i]?.any Slot.isOccupied) :=
        (h.accounts.covers.countP_eq _).symm
    _ = p.slots.length := by rw [List.countP_append, hused, hfree, Nat.add_zero]

theorem intact (h : t.Layout p) : t.Intact where
  target_occupied link j hj := by
    have hmem := (Placement.links_targets .root p).mem_iff.1
      (List.mem_map_of_mem ((h.target?_iff link).1 hj))
    obtain ⟨n, hn⟩ := h.mem_slots_iff.1 hmem
    exact ⟨(Array.getElem?_eq_some_iff.1 hn).1, n, hn⟩
  linked_once j n hn := h.linked_once (h.mem_slots_iff.2 ⟨n, hn⟩)
  below_root j n hn := by
    rw [h.root_eq]
    exact (Placement.below_link_iff h.stored).2 (h.mem_slots_iff.2 ⟨n, hn⟩)
  acyclic := h.acyclic
  free_nodup := (List.nodup_append.1 h.accounts.nodup).2.1
  mem_free_iff _ := h.mem_free_iff
  size_eq := h.accounts.size_eq.trans h.countP_isOccupied.symm
  left_lt i n hn j m hj hm := by
    obtain ⟨l, r, hst, hl, -, -, ho⟩ := h.exists_subtree hn
    rw [← hl, Placement.below_link_iff hst.2.1] at hj
    exact Name.compare_lt_iff.1 (Placement.all_stored hst.2.1 ho.2.2.1 hj hm)
  right_gt i n hn j m hj hm := by
    obtain ⟨l, r, hst, -, hr, -, ho⟩ := h.exists_subtree hn
    rw [← hr, Placement.below_link_iff hst.2.2] at hj
    exact Name.compare_lt_iff.1 (Placement.all_stored hst.2.2 ho.2.2.2 hj hm)

theorem undamaged (h : t.Layout p) : t.Undamaged where
  get k := ⟨_, h.tryGet k⟩
  insert k v := by
    obtain ⟨t', p', ht', -⟩ := h.tryInsert k v
    exact ⟨_, ht'⟩
  remove k := by
    obtain ⟨t', p', ht', -⟩ := h.tryRemove k
    exact ⟨_, ht'⟩
  clear := ⟨_, h.tryClear⟩
  ascending := by
    rw [h.root_eq]
    refine ⟨_, ascendingFrom_stored h.stored h.accounts.length_le, fun i hi => ?_⟩
    obtain ⟨n, hn⟩ := h.mem_slots_iff.1 (List.mem_toArray.1 hi)
    exact ⟨n, node_of_getElem? hn⟩
  byLevel := by
    rw [h.root_eq]
    refine ⟨_, byLevelFrom_stored h.stored h.accounts.length_le, fun i hi => ?_⟩
    obtain ⟨n, hn⟩ := h.mem_slots_iff.1 (Placement.mem_slots_of_mem_levels (List.mem_toArray.1 hi))
    exact ⟨n, node_of_getElem? hn⟩

end Layout

/-- Whatever has been inserted, removed and cleared, in whatever order, a table is intact, and
nothing that is done with it next finds it otherwise. -/
theorem intact_of_reachable (h : Reachable (fun _ => True) t) : t.Intact ∧ t.Undamaged := by
  obtain ⟨p, hp⟩ := h.wellFormed
  exact ⟨hp.intact, hp.undamaged⟩

/-- A table in which a slot has been given up and taken again. -/
theorem intact_after_reuse :
    let t := ((((({} : Table).insert [109] 1).2.insert [99] 2).2.insert [120] 3).2.remove [109]).2
    let t' := (t.insert [101] 4).2
    t.free = [0] ∧ t'.free = [] ∧ t'.slots.size = 3 ∧ t'.Intact ∧ t'.Undamaged :=
  ⟨by decide, by decide, by decide, intact_of_reachable
    (.insert 4 (.remove [109] (.insert 3 (.insert 2 (.insert 1 .empty trivial) trivial) trivial))
      trivial)⟩

end Table

end StackCalc
