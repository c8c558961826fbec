import Mathlib.Data.List.Nodup
import Mathlib.Data.List.Pairwise
import StackCalc.Tree

/-! # Searching ordered trees

Insertion and removal keep a tree ordered, and an ordered tree is searched correctly: the search
for a name finds exactly the binding that the walk from left to right passes. What insertion and
removal do to later searches follows from what they do to that walk.
-/

namespace StackCalc

namespace Name

variable {a b c : Name}

theorem compare_lt_trans (h : compare a b = .lt) (h' : compare b c = .lt) : compare a c = .lt :=
  Std.TransCmp.lt_trans h h'

theorem compare_gt_iff : compare a b = .gt ↔ compare b a = .lt :=
  Std.OrientedCmp.gt_iff_lt

theorem compare_eq_iff : compare a b = .eq ↔ a = b :=
  Std.LawfulEqCmp.compare_eq_iff_eq

theorem ne_of_compare_lt (h : compare a b = .lt) : a ≠ b := by
  rintro rfl
  simp at h

/-- Names compare as lists of bytes do: by the first byte in which they differ, and a name comes
before those that it begins. -/
theorem compare_lt_iff : compare a b = .lt ↔ a < b := by
  induction a generalizing b with
  | nil => cases b <;> simp [compare, List.compareLex]
  | cons x a ih =>
    cases b with
    | nil => simp [compare, List.compareLex]
    | cons y b =>
      rw [List.cons_lt_cons_iff, ← ih, List.compare_cons_cons, Ordering.then_eq_lt,
        Std.compare_eq_lt, Std.LawfulEqCmp.compare_eq_iff_eq]

end Name

namespace Tree

variable {t l r : Tree} {p q : Name → Prop} {k n : Name} {v w : Int32}

theorem All.imp (h : ∀ n, p n → q n) (ht : t.All p) : t.All q := by
  induction t with
  | leaf => trivial
  | node l n v r ihl ihr => exact ⟨ihl ht.1, h n ht.2.1, ihr ht.2.2⟩

theorem all_iff : t.All p ↔ ∀ e ∈ t.inorder, p e.1 := by
  induction t with
  | leaf => simp [All, inorder]
  | node l n v r ihl ihr =>
    simp only [All, inorder, ihl, ihr, List.mem_append, List.mem_cons]
    constructor
    · rintro ⟨hl, hn, hr⟩ e (he | rfl | he)
      · exact hl e he
      · exact hn
      · exact hr e he
    · intro h
      refine ⟨fun e he => h e (.inl he), h (n, v) (.inr (.inl rfl)), fun e he => ?_⟩
      exact h e (.inr (.inr he))

theorem All.insert (ht : t.All p) (hk : p k) : (t.insert k v).All p := by
  induction t with
  | leaf => exact ⟨trivial, hk, trivial⟩
  | node l n w r ihl ihr =>
    obtain ⟨hl, hn, hr⟩ := ht
    rw [Tree.insert]
    split
    · exact ⟨hl, hn, hr⟩
    · exact ⟨ihl hl, hn, hr⟩
    · exact ⟨hl, hn, ihr hr⟩

theorem all_hang : (l.hang r).All p ↔ l.All p ∧ r.All p := by
  simp only [all_iff, inorder_hang, List.mem_append, or_imp, forall_and]

theorem All.remove (ht : t.All p) : (t.remove k).All p := by
  induction t with
  | leaf => trivial
  | node l n w r ihl ihr =>
    obtain ⟨hl, hn, hr⟩ := ht
    rw [Tree.remove]
    split
    · exact all_hang.2 ⟨hl, hr⟩
    · exact ⟨ihl hl, hn, hr⟩
    · exact ⟨hl, hn, ihr hr⟩

theorem Ordered.insert (ht : t.Ordered) : (t.insert k v).Ordered := by
  induction t with
  | leaf => exact ⟨trivial, trivial, trivial, trivial⟩
  | node l n w r ihl ihr =>
    obtain ⟨hl, hr, hln, hnr⟩ := ht
    rw [Tree.insert]
    split
    next => exact ⟨hl, hr, hln, hnr⟩
    next h => exact ⟨ihl hl, hr, hln.insert h, hnr⟩
    next h => exact ⟨hl, ihr hr, hln, hnr.insert (Name.compare_gt_iff.1 h)⟩

theorem Ordered.hang (hl : l.Ordered) (hr : r.Ordered) (hln : l.All (compare · n = .lt))
    (hnr : r.All (compare n · = .lt)) : (l.hang r).Ordered := by
  induction l with
  | leaf => exact hr
  | node a m w b _ ihb =>
    obtain ⟨ha, hb, ham, hmb⟩ := hl
    obtain ⟨_, hmn, hbn⟩ := hln
    have hmr : r.All (compare m · = .lt) := hnr.imp fun _ h => Name.compare_lt_trans hmn h
    exact ⟨ha, ihb hb hbn, ham, all_hang.2 ⟨hmb, hmr⟩⟩

theorem Ordered.remove (ht : t.Ordered) : (t.remove k).Ordered := by
  induction t with
  | leaf => trivial
  | node l n w r ihl ihr =>
    obtain ⟨hl, hr, hln, hnr⟩ := ht
    rw [Tree.remove]
    split
    · exact hl.hang hr hln hnr
    · exact ⟨ihl hl, hr, hln.remove, hnr⟩
    · exact ⟨hl, ihr hr, hln, hnr.remove⟩

theorem Ordered.pairwise_inorder (ht : t.Ordered) :
    t.inorder.Pairwise fun a b => compare a.1 b.1 = .lt := by
  induction t with
  | leaf => exact List.Pairwise.nil
  | node l n w r ihl ihr =>
    obtain ⟨hl, hr, hln, hnr⟩ := ht
    rw [all_iff] at hln hnr
    refine List.pairwise_append.2 ⟨ihl hl, List.pairwise_cons.2 ⟨hnr, ihr hr⟩, ?_⟩
    rintro a ha b hb
    rcases List.mem_cons.1 hb with rfl | hb
    · exact hln a ha
    · exact Name.compare_lt_trans (hln a ha) (hnr b hb)

theorem Ordered.nodup_names (ht : t.Ordered) : (t.inorder.map Prod.fst).Nodup :=
  List.pairwise_map.2 (ht.pairwise_inorder.imp Name.ne_of_compare_lt)

theorem Ordered.nodup_inorder (ht : t.Ordered) : t.inorder.Nodup := ht.nodup_names.of_map

theorem get?_eq_some_iff (ht : t.Ordered) : t.get? k = some v ↔ (k, v) ∈ t.inorder := by
  induction t with
  | leaf => simp [get?, inorder]
  | node l n w r ihl ihr =>
    obtain ⟨hl, hr, hln, hnr⟩ := ht
    rw [all_iff] at hln hnr
    -- The side that the search does not enter cannot hold the name.
    have hleft : (k, v) ∈ l.inorder → compare k n = .lt := hln (k, v)
    have hright : (k, v) ∈ r.inorder → compare k n = .gt := fun h =>
      Name.compare_gt_iff.2 (hnr (k, v) h)
    simp only [inorder, List.mem_append, List.mem_cons, Prod.mk.injEq]
    rw [get?]
    split
    next h =>
      obtain rfl := Name.compare_eq_iff.1 h
      simp only [h, reduceCtorEq, imp_false] at hleft hright
      simp [hleft, hright, eq_comm]
    next h =>
      simp only [h, reduceCtorEq, imp_false] at hright
      simp [ihl hl, hright, Name.ne_of_compare_lt h]
    next h =>
      simp only [h, reduceCtorEq, imp_false] at hleft
      simp [ihr hr, hleft, (Name.ne_of_compare_lt (Name.compare_gt_iff.1 h)).symm]

theorem get?_insert (t : Tree) (k : Name) (v : Int32) (n : Name) :
    (t.insert k v).get? n = if n = k then some v else t.get? n := by
  induction t with
  | leaf =>
    have h : n = k ↔ compare n k = .eq := Name.compare_eq_iff.symm
    simp only [h, Tree.insert, get?]
    cases compare n k <;> rfl
  | node l m w r ihl ihr =>
    rw [Tree.insert]
    split <;> rename_i hk <;> simp only [get?] <;> split <;> rename_i hn
    all_goals grind [Name.compare_eq_iff]

theorem All.filter_ne (ht : t.All p) (hp : ∀ n, p n → n ≠ k) :
    t.inorder.filter (fun e => e.1 ≠ k) = t.inorder := by
  refine List.filter_eq_self.2 fun e he => ?_
  simpa using hp e.1 (all_iff.1 ht e he)

theorem inorder_remove (ht : t.Ordered) :
    (t.remove k).inorder = t.inorder.filter (fun e => e.1 ≠ k) := by
  induction t with
  | leaf => rfl
  | node l n w r ihl ihr =>
    obtain ⟨hl, hr, hln, hnr⟩ := ht
    rw [Tree.remove]
    split
    next h =>
      obtain rfl := Name.compare_eq_iff.1 h
      rw [inorder_hang, inorder, List.filter_append, List.filter_cons_of_neg (by simp),
        hln.filter_ne fun _ => Name.ne_of_compare_lt,
        hnr.filter_ne fun _ h => (Name.ne_of_compare_lt h).symm]
    next h =>
      rw [inorder, inorder, ihl hl, List.filter_append,
        List.filter_cons_of_pos (by simpa using (Name.ne_of_compare_lt h).symm),
        hnr.filter_ne fun _ h' => (Name.ne_of_compare_lt (Name.compare_lt_trans h h')).symm]
    next h =>
      have h' := Name.compare_gt_iff.1 h
      rw [inorder, inorder, ihr hr, List.filter_append,
        List.filter_cons_of_pos (by simpa using Name.ne_of_compare_lt h'),
        hln.filter_ne fun _ hm => Name.ne_of_compare_lt (Name.compare_lt_trans hm h')]

theorem get?_remove (ht : t.Ordered) (n : Name) :
    (t.remove k).get? n = if n = k then none else t.get? n := by
  ext v
  rw [get?_eq_some_iff ht.remove, inorder_remove ht, List.mem_filter]
  split
  next h => simp [h]
  next h => simp [get?_eq_some_iff ht, h]

end Tree

end StackCalc
