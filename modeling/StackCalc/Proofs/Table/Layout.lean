import Mathlib.Data.List.Range
import StackCalc.Proofs.Table.Placement
import StackCalc.Table.View

/-! # The layout of a table

A table is laid out as a placement if it holds it from the root, its free slots are exactly those
that the placement does not use, and its size counts those that it does. Writing a node, moving a
link, taking a slot and giving one up each have one statement here; the operations are assembled
from them.
-/

namespace StackCalc.Table

variable {t t' : Table} {p l r other : Placement} {c : Trail} {hole target : Option Nat}
  {used touched : List Nat} {i : Nat} {n : Node}

@[simp] theorem ok_bind {α β : Type} (a : α) (f : α → Except Damage β) :
    (Except.ok a >>= f) = f a := rfl

@[simp] theorem pure_eq_ok {α : Type} (a : α) : (pure a : Except Damage α) = .ok a := rfl

theorem ok_of_bind {α β : Type} {x : Except Damage α} {f : α → Except Damage β} {b : β}
    (h : (x >>= f) = .ok b) : ∃ a, x = .ok a ∧ f a = .ok b := by
  cases x with
  | error d => cases h
  | ok a => exact ⟨a, rfl, h⟩

theorem node_of_getElem? (h : t.slots[i]? = some (.occupied n)) : t.node i = .ok n := by
  simp [node, h]

theorem node_eq_ok_iff : t.node i = .ok n ↔ t.slots[i]? = some (.occupied n) := by
  constructor
  · intro h
    rw [node] at h
    split at h
    next hi => rw [hi, Except.ok.inj h]
    next => cases h
  · exact node_of_getElem?

theorem allocate_of_free_eq_nil (h : t.free = []) : t.allocate n =
    .ok (t.slots.size, { t with slots := t.slots.push (.occupied n), size := t.size + 1 }) := by
  simp [allocate, h]

theorem allocate_of_free_eq_cons {rest : List Nat} (h : t.free = i :: rest)
    (hi : i < t.slots.size) :
    t.allocate n = .ok (i, { t.put i n with free := rest, size := t.size + 1 }) := by
  simp [allocate, h, hi]

theorem release_of_occupied {k : Nat} (h : t.slots[i]? = some (.occupied n))
    (hs : t.size = k + 1) :
    t.release i =
      .ok (n, { t with
        slots := t.slots.setIfInBounds i .vacant, free := i :: t.free, size := k }) := by
  simp [release, h, hs]

/-- The slots in `used` and the free ones make up the table. -/
structure Accounts (t : Table) (used : List Nat) : Prop where
  covers : (used ++ t.free).Perm (List.range t.slots.size)
  vacant : ∀ i ∈ t.free, t.slots[i]? = some .vacant
  size_eq : t.size = used.length

structure Edited (t t' : Table) (touched : List Nat) : Prop where
  same : ∀ i, i ∉ touched → t'.slots[i]? = t.slots[i]?
  length_eq : t'.slots.size = t.slots.size
  free_eq : t'.free = t.free
  size_eq : t'.size = t.size

/-- The table holds the placement `p` and accounts for the rest of its slots. -/
structure Layout (t : Table) (p : Placement) : Prop where
  root_eq : t.root = p.link
  stored : p.Stored t.slots
  accounts : t.Accounts p.slots
  ordered : p.tree.Ordered

namespace Accounts

theorem nodup (h : t.Accounts used) : (used ++ t.free).Nodup :=
  h.covers.nodup_iff.2 List.nodup_range

theorem nodup_used (h : t.Accounts used) : used.Nodup := (List.nodup_append.1 h.nodup).1

theorem perm {used' : List Nat} (h : t.Accounts used) (hp : used.Perm used') :
    t.Accounts used' where
  covers := (hp.symm.append_right _).trans h.covers
  vacant := h.vacant
  size_eq := h.size_eq.trans hp.length_eq

theorem edited (h : t.Accounts used) (he : Edited t t' touched) (hs : touched ⊆ used) :
    t'.Accounts used where
  covers := by rw [he.free_eq, he.length_eq]; exact h.covers
  vacant := by
    intro i hi
    rw [he.free_eq] at hi
    have hu : i ∉ touched := fun hm => (List.nodup_append.1 h.nodup).2.2 i (hs hm) i hi rfl
    exact (he.same i hu).trans (h.vacant i hi)
  size_eq := he.size_eq.trans h.size_eq

theorem slots_size (h : t.Accounts used) : t.slots.size = t.size + t.free.length := by
  have hlen := h.covers.length_eq
  rw [List.length_append, List.length_range, ← h.size_eq] at hlen
  exact hlen.symm

theorem length_le (h : t.Accounts used) : used.length ≤ t.slots.size := by
  rw [h.slots_size, h.size_eq]
  exact Nat.le_add_right _ _

theorem allocate (h : t.Accounts used) (n : Node) :
    ∃ i t', t.allocate n = .ok (i, t') ∧ t'.Accounts (i :: used) ∧ t'.root = t.root ∧
      t'.slots[i]? = some (.occupied n) ∧ ∀ j ∈ used, t'.slots[j]? = t.slots[j]? := by
  obtain ⟨hc, hv, hs⟩ := h
  have hmem : ∀ j ∈ used, j < t.slots.size := fun j hj =>
    List.mem_range.1 (hc.mem_iff.1 (List.mem_append_left _ hj))
  cases hf : t.free with
  | nil =>
    rw [allocate_of_free_eq_nil hf]
    refine ⟨t.slots.size, _, rfl, ⟨?_, ?_, ?_⟩, rfl, by simp, ?_⟩
    · simp only [hf, List.append_nil, Array.size_push, List.range_succ] at hc ⊢
      exact (List.perm_append_singleton _ _).symm.trans (hc.append_right _)
    · simp [hf]
    · simp [hs]
    · intro j hj
      have := hmem j hj
      simp only [Array.getElem?_push, Nat.ne_of_lt this, if_false]
  | cons i rest =>
    have hi : i < t.slots.size := List.mem_range.1 (hc.mem_iff.1 (by simp [hf]))
    have hn := hc.nodup_iff.2 List.nodup_range
    rw [hf] at hc hv hn
    obtain ⟨-, hir, hui⟩ := List.nodup_append.1 hn
    rw [allocate_of_free_eq_cons hf hi]
    refine ⟨i, _, rfl, ⟨?_, ?_, ?_⟩, rfl, ?_, ?_⟩
    · simpa only [put, Array.size_setIfInBounds, List.cons_append] using
        List.perm_middle.symm.trans hc
    · intro j hj
      have hij : i ≠ j := fun h => (List.nodup_cons.1 hir).1 (h ▸ hj)
      have hj' := hv j (List.mem_cons_of_mem i hj)
      simpa [put, hij] using hj'
    · simp [hs]
    · simp [put, hi]
    · intro j hj
      have hij : i ≠ j := fun h => hui j hj i (by simp) h.symm
      simp [put, hij]

theorem release (h : t.Accounts (i :: used)) (hi : t.slots[i]? = some (.occupied n)) :
    ∃ t', t.release i = .ok (n, t') ∧ t'.Accounts used ∧ t'.root = t.root ∧
      ∀ j ∈ used, t'.slots[j]? = t.slots[j]? := by
  have hs : t.size = used.length + 1 := h.size_eq
  have hn := List.nodup_cons.1 h.nodup
  rw [release_of_occupied hi hs]
  refine ⟨_, rfl, ⟨?_, ?_, rfl⟩, rfl, ?_⟩
  · simpa only [Array.size_setIfInBounds] using List.perm_middle.trans h.covers
  · intro j hj
    rcases List.mem_cons.1 hj with rfl | hj
    · have hlt := (Array.getElem?_eq_some_iff.1 hi).1
      simp [hlt]
    · have hij : i ≠ j := fun he => hn.1 (he ▸ List.mem_append_right _ hj)
      simpa [hij] using h.vacant j hj
  · intro j hj
    have hij : i ≠ j := fun he => hn.1 (he ▸ List.mem_append_left _ hj)
    simp [hij]

end Accounts

theorem edited_put (t : Table) (i : Nat) (n : Node) : Edited t (t.put i n) [i] where
  same j hj := by
    have hij : i ≠ j := fun h => hj (by simp [h])
    simp [put, hij]
  length_eq := by simp [put]
  free_eq := rfl
  size_eq := rfl

theorem getElem?_put_self {m : Node} (h : t.slots[i]? = some (.occupied m)) :
    (t.put i n).slots[i]? = some (.occupied n) := by
  have hlt := (Array.getElem?_eq_some_iff.1 h).1
  simp [put, hlt]

theorem Edited.refl (t : Table) (touched : List Nat) : Edited t t touched :=
  ⟨fun _ _ => rfl, rfl, rfl, rfl⟩

theorem Edited.mono {touched' : List Nat} (h : Edited t t' touched) (hs : touched ⊆ touched') :
    Edited t t' touched' :=
  ⟨fun i hi => h.same i fun hm => hi (hs hm), h.length_eq, h.free_eq, h.size_eq⟩

theorem relink_held (hc : Trail.Held t c hole) (hn : (Trail.slots c).Nodup) (target : Option Nat) :
    ∃ t', t.relink (Trail.link c) target = .ok t' ∧ Trail.Held t' c target ∧
      Edited t t' (Trail.slots c) := by
  cases c with
  | nil => exact ⟨_, rfl, rfl, ⟨fun _ _ => rfl, rfl, rfl, rfl⟩⟩
  | cons b c =>
    obtain ⟨hb, ha, hc⟩ := hc
    rw [Trail.slots_cons] at hn ⊢
    obtain ⟨hbn, -⟩ := List.nodup_cons.1 hn
    have hne : ∀ i ∈ b.aside.slots ++ Trail.slots c, i ∉ [b.slot] := by
      intro i hi hib
      obtain rfl := List.mem_singleton.1 hib
      exact hbn hi
    have he := edited_put t b.slot (b.node target)
    refine ⟨t.put b.slot (b.node target), ?_, ⟨getElem?_put_self hb, ?_, ?_⟩, he.mono (by simp)⟩
    · have hnode := node_of_getElem? hb
      cases b <;> simp only [Trail.link, Branch.link, Branch.slot] at hnode ⊢ <;>
        simp only [relink, hnode, ok_bind, pure_eq_ok, Branch.node]
    · exact ha.congr fun i hi => he.same i (hne i (List.mem_append_left _ hi))
    · refine Trail.Held.congr (t := t) rfl (fun i hi => ?_) hc
      exact he.same i (hne i (List.mem_append_right _ hi))

/-- Grafting below a subtree all of whose names are smaller hangs the other one from the end of its
right spine. -/
theorem graft_stored {k : Name} {j fuel : Nat} (hl : l.Stored t.slots) (hlink : l.link = some i)
    (hn : l.slots.Nodup) (hk : l.tree.All (compare · k = .lt)) (ho : other.Stored t.slots)
    (hj : other.link = some j) (hd : ∀ x ∈ other.slots, x ∉ l.slots)
    (hf : l.slots.length ≤ fuel) :
    ∃ t', t.graft k j fuel i = .ok t' ∧ (l.hang other).Stored t'.slots ∧ t'.root = t.root ∧
      Edited t t' l.slots := by
  induction l generalizing i fuel with
  | leaf => simp at hlink
  | node a x m v b _ ihb =>
    obtain rfl : x = i := by simpa using hlink
    obtain ⟨hx, ha, hb⟩ := hl
    obtain ⟨-, hxk, hbk⟩ := hk
    simp only [Placement.slots] at hn hd ⊢
    simp only [Placement.slots, List.length_append, List.length_cons] at hf
    obtain ⟨-, hxb, hab⟩ := List.nodup_append.1 hn
    obtain ⟨hxb, hbn⟩ := List.nodup_cons.1 hxb
    have hxa : x ∉ a.slots := fun h => hab x h x (by simp) rfl
    have hnode := node_of_getElem? hx
    have hkx : compare k m = .gt := Name.compare_gt_iff.2 hxk
    obtain ⟨fuel, rfl⟩ : ∃ f, fuel = f + 1 := Nat.exists_eq_add_one.2 (by omega)
    cases hblink : b.link with
    | none =>
      obtain rfl := Placement.link_eq_none.1 hblink
      have he := edited_put t x ⟨m, v, a.link, some j⟩
      refine ⟨t.put x ⟨m, v, a.link, some j⟩, ?_, ⟨?_, ?_, ?_⟩, rfl, he.mono (by simp)⟩
      · simp [graft, hnode, hkx]
      · rw [Placement.hang, hj]
        exact getElem?_put_self hx
      · exact ha.congr fun y hy => he.same y fun h => hxa (List.mem_singleton.1 h ▸ hy)
      · exact ho.congr fun y hy => he.same y fun h =>
          hd y hy (by simp [List.mem_singleton.1 h])
    | some y =>
      obtain ⟨t', ht', hs, hr, he⟩ := ihb hb hblink hbn hbk
        (fun z hz h => hd z hz (by simp [h])) (show b.slots.length ≤ fuel by omega)
      have hb' : b ≠ .leaf := by
        rintro rfl
        simp at hblink
      refine ⟨t', ?_, ⟨?_, ?_, hs⟩, hr, he.mono (by simp)⟩
      · simp [graft, hnode, hkx, hblink, ht']
      · rw [Placement.link_hang_of_ne_leaf hb', he.same x hxb, hx]
      · exact ha.congr fun z hz => he.same z fun h => hab z hz z (by simp [h]) rfl

theorem merge_stored {k : Name} (hl : l.Stored t.slots) (hr : r.Stored t.slots)
    (hn : (l.slots ++ r.slots).Nodup) (hlk : l.tree.All (compare · k = .lt))
    (hkr : r.tree.All (compare k · = .lt)) (hf : l.slots.length ≤ t.slots.size) :
    ∃ t', t.merge l.link r.link = .ok ((l.hang r).link, t') ∧ (l.hang r).Stored t'.slots ∧
      t'.root = t.root ∧ Edited t t' l.slots := by
  obtain ⟨hln, -, hlr⟩ := List.nodup_append.1 hn
  cases hli : l.link with
  | none =>
    obtain rfl := Placement.link_eq_none.1 hli
    exact ⟨t, by simp [merge, Placement.hang], hr, rfl, .refl t _⟩
  | some i =>
    cases r with
    | leaf =>
      rw [Placement.hang_leaf, hli]
      exact ⟨t, rfl, hl, rfl, .refl t _⟩
    | node a j m v b =>
      have hlm : l.tree.All (compare · m = .lt) :=
        hlk.imp fun _ h => Name.compare_lt_trans h hkr.2.1
      obtain ⟨t', ht', hs, hroot, he⟩ := graft_stored hl hli hln hlm hr (j := j) rfl
        (fun x hx h => hlr x h x hx rfl) hf
      have hl' : l ≠ .leaf := by
        rintro rfl
        simp at hli
      refine ⟨t', ?_, hs, hroot, he⟩
      have hnode := node_of_getElem? hr.1
      rw [Placement.link_hang_of_ne_leaf hl', hli]
      simp [merge, hnode, ht']

end StackCalc.Table
