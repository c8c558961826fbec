import Mathlib.Data.Finmap
import StackCalc.Proofs.Table.Walks

/-! # A table is a finite map

Whatever is done to a table, in whatever order, every answer is the one that a finite map from
names to values gives, and after every step the size of the table, whether it is empty and its
listing are those of the map. A step keeps table and map in agreement about every name; everything
that can be seen of them follows from that.
-/

namespace StackCalc

abbrev Bindings := Finmap fun _ : Name => Int32

inductive Operation where
  | insert (name : Name) (value : Int32)
  | remove (name : Name)
  | get (name : Name)
  | clear
  deriving DecidableEq, Repr

inductive Answer where
  | value (value? : Option Int32)
  | count (n : Nat)
  deriving DecidableEq, Repr

namespace Operation

def history {σ : Type} (apply : σ → Operation → Answer × σ) :
    σ → List Operation → List (Answer × σ)
  | _, [] => []
  | s, op :: ops => apply s op :: history apply (apply s op).2 ops

end Operation

/-- Insertion and removal answer with the value that was bound before. -/
def Bindings.apply (m : Bindings) : Operation → Answer × Bindings
  | .insert k v => (.value (m.lookup k), m.insert k v)
  | .remove k => (.value (m.lookup k), m.erase k)
  | .get k => (.value (m.lookup k), m)
  | .clear => (.count m.keys.card, ∅)

namespace Table

variable {t : Table} {m : Bindings}

def apply (t : Table) : Operation → Answer × Table
  | .insert k v => (.value (t.insert k v).1, (t.insert k v).2)
  | .remove k => (.value (t.remove k).1, (t.remove k).2)
  | .get k => (.value (t.get? k), t)
  | .clear => (.count t.clear.1, t.clear.2)

/-- All that can be seen of the table is as the map has it: the size, whether there are bindings at
all, and the bindings themselves, each once and in ascending byte order of their names. -/
structure Shows (t : Table) (m : Bindings) : Prop where
  size_eq : t.size = m.keys.card
  isEmpty_iff : t.isEmpty ↔ m = ∅
  entries_eq : (t.ascending.map fun n => (⟨n.name, n.value⟩ : Σ _ : Name, Int32)) = m.entries
  ascending : (t.ascending.map Node.name).Pairwise (· < ·)

structure Represents (t : Table) (m : Bindings) : Prop where
  wellFormed : t.WellFormed
  get?_eq : ∀ k, t.toTree.get? k = m.lookup k

theorem represents_empty : ({} : Table).Represents ∅ :=
  ⟨wellFormed_empty, fun _ => rfl⟩

namespace Represents

theorem mem_entries_iff (h : t.Represents m) (k : Name) (v : Int32) :
    ⟨k, v⟩ ∈ m.entries ↔ (k, v) ∈ t.toTree.inorder := by
  rw [← Tree.get?_eq_some_iff h.wellFormed.ordered, h.get?_eq]
  exact Finmap.lookup_eq_some_iff.symm

theorem entries_eq (h : t.Represents m) :
    (t.toTree.inorder.map fun e => (⟨e.1, e.2⟩ : Σ _ : Name, Int32)) = m.entries := by
  have hn := h.wellFormed.ordered.nodup_inorder
  have hmap : (t.toTree.inorder.map fun e => (⟨e.1, e.2⟩ : Σ _ : Name, Int32)).Nodup := by
    refine hn.map fun a b hab => ?_
    obtain ⟨ha, hb⟩ := Sigma.mk.inj_iff.1 hab
    exact Prod.ext ha (eq_of_heq hb)
  refine (Multiset.Nodup.ext (Multiset.coe_nodup.2 hmap) m.nodup_entries).2 ?_
  rintro ⟨k, v⟩
  rw [h.mem_entries_iff, Multiset.mem_coe, List.mem_map]
  constructor
  · rintro ⟨⟨k', v'⟩, hmem, he⟩
    obtain ⟨rfl, hv⟩ := Sigma.mk.inj_iff.1 he
    rwa [← eq_of_heq hv]
  · intro hmem
    exact ⟨(k, v), hmem, rfl⟩

theorem size_eq (h : t.Represents m) : t.size = m.keys.card := by
  have hcard : m.keys.card = m.entries.card := Multiset.card_map _ _
  rw [hcard, ← h.entries_eq, Multiset.coe_card, List.length_map, Tree.length_inorder]
  exact h.wellFormed.size_eq

theorem isEmpty_iff (h : t.Represents m) : t.isEmpty ↔ m = ∅ := by
  rw [h.wellFormed.isEmpty_iff]
  constructor
  · intro ht
    refine Finmap.ext_lookup fun k => ?_
    rw [← h.get?_eq, ht, Finmap.lookup_empty]
    rfl
  · rintro rfl
    cases ht : t.toTree with
    | leaf => rfl
    | node l n v r =>
      have hn := h.get?_eq n
      rw [ht, Finmap.lookup_empty] at hn
      simp [Tree.get?] at hn

theorem shows (h : t.Represents m) : t.Shows m := by
  have hb := h.wellFormed.ascending_bindings
  refine ⟨h.size_eq, h.isEmpty_iff, ?_, ?_⟩
  · rw [← h.entries_eq, ← hb, List.map_map]
    rfl
  · have hnames : t.ascending.map Node.name = t.toTree.inorder.map Prod.fst := by
      rw [← hb, List.map_map]
      rfl
    rw [hnames, List.pairwise_map]
    exact h.wellFormed.ordered.pairwise_inorder.imp Name.compare_lt_iff.1

/-- One operation gets the same answer from both and leaves them in agreement. -/
theorem apply (h : t.Represents m) (op : Operation) :
    (t.apply op).1 = (m.apply op).1 ∧ (t.apply op).2.Represents (m.apply op).2 := by
  have hw := h.wellFormed
  cases op with
  | insert k v =>
    obtain ⟨hold, hw', htree⟩ := hw.insert k v
    refine ⟨congrArg Answer.value (hold.trans (h.get?_eq k)), hw', fun n => ?_⟩
    change (t.insert k v).2.toTree.get? n = (m.insert k v).lookup n
    rw [htree, Tree.get?_insert]
    by_cases hn : n = k
    · rw [if_pos hn, hn, Finmap.lookup_insert]
    · rw [if_neg hn, Finmap.lookup_insert_of_ne _ hn, h.get?_eq]
  | remove k =>
    obtain ⟨hold, hw', htree⟩ := hw.remove k
    refine ⟨congrArg Answer.value (hold.trans (h.get?_eq k)), hw', fun n => ?_⟩
    change (t.remove k).2.toTree.get? n = (m.erase k).lookup n
    rw [htree, Tree.get?_remove hw.ordered]
    by_cases hn : n = k
    · rw [if_pos hn, hn, Finmap.lookup_erase]
    · rw [if_neg hn, Finmap.lookup_erase_ne hn, h.get?_eq]
  | get k => exact ⟨congrArg Answer.value ((hw.get?_eq k).trans (h.get?_eq k)), h⟩
  | clear =>
    rw [Table.apply, hw.clear_eq]
    exact ⟨congrArg Answer.count h.size_eq, represents_empty⟩

theorem history (h : t.Represents m) (ops : List Operation) :
    List.Forall₂ (fun x y => x.1 = y.1 ∧ x.2.Represents y.2)
      (Operation.history Table.apply t ops) (Operation.history Bindings.apply m ops) := by
  induction ops generalizing t m with
  | nil => exact .nil
  | cons op ops ih => exact .cons (h.apply op) (ih (h.apply op).2)

end Represents

/-- Over every sequence of operations a table answers as a finite map does, and shows the same
bindings after every one of them. -/
theorem history_refines_bindings (ops : List Operation) :
    List.Forall₂ (fun x y => x.1 = y.1 ∧ x.2.Shows y.2)
      (Operation.history apply {} ops) (Operation.history Bindings.apply ∅ ops) :=
  (represents_empty.history ops).imp fun _ _ h => ⟨h.1, h.2.shows⟩

end Table

end StackCalc
