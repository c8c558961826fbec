import Mathlib.Data.List.Perm.Basic
import StackCalc.Proofs.Tree.Search

/-! # Building a tree again

Insertion into an empty tree, one binding after another, gives back the tree that the bindings come
from whenever every parent precedes its children: a node divides the bindings that come after it
into those that reach its left side and those that reach its right side, and on neither side does
the order among them change. The walk by levels is such an order.
-/

namespace StackCalc.Tree

variable {t s l r : Tree} {n : Name} {v : Int32} {e p c : Name × Int32}
  {es : List (Name × Int32)}

def insertAll (t : Tree) (es : List (Name × Int32)) : Tree :=
  es.foldl (fun t e => t.insert e.1 e.2) t

def root? : Tree → Option (Name × Int32)
  | leaf => none
  | node _ n v _ => some (n, v)

def IsParent : Tree → Name × Int32 → Name × Int32 → Prop
  | leaf, _, _ => False
  | node l n v r, p, c =>
    (p = (n, v) ∧ (l.root? = some c ∨ r.root? = some c)) ∨ l.IsParent p c ∨ r.IsParent p c

/-- Every binding once, and each one after its parent. -/
structure ParentFirst (t : Tree) (es : List (Name × Int32)) : Prop where
  perm : es.Perm t.inorder
  sublist : ∀ p c, t.IsParent p c → [p, c].Sublist es

theorem insertAll_cons : t.insertAll (e :: es) = (t.insert e.1 e.2).insertAll es := rfl

theorem insertAll_node (hes : ∀ e ∈ es, e.1 ≠ n) :
    (node l n v r).insertAll es =
      node (l.insertAll (es.filter fun e => compare e.1 n = .lt)) n v
        (r.insertAll (es.filter fun e => compare n e.1 = .lt)) := by
  induction es generalizing l r with
  | nil => rfl
  | cons e es ih =>
    obtain ⟨he, hes⟩ := List.forall_mem_cons.1 hes
    rw [insertAll_cons, Tree.insert]
    split
    next h => exact absurd (Name.compare_eq_iff.1 h) he
    next h =>
      have h' : ¬ compare n e.1 = .lt := by
        rw [← Name.compare_gt_iff, h]
        decide
      rw [ih hes, List.filter_cons_of_pos (by simpa using h),
        List.filter_cons_of_neg (by simpa using h')]
      rfl
    next h =>
      have h' : ¬ compare e.1 n = .lt := by
        rw [h]
        decide
      rw [ih hes, List.filter_cons_of_neg (by simpa using h'),
        List.filter_cons_of_pos (by simpa using Name.compare_gt_iff.1 h)]
      rfl

theorem root?_mem (h : t.root? = some e) : e ∈ t.inorder := by
  cases t with
  | leaf => cases h
  | node l n v r =>
    obtain rfl := Option.some.inj h
    simp [inorder]

theorem IsParent.mem (h : t.IsParent p c) : p ∈ t.inorder ∧ c ∈ t.inorder := by
  induction t with
  | leaf => exact h.elim
  | node l n v r ihl ihr =>
    rw [inorder]
    rcases h with ⟨rfl, hc | hc⟩ | h | h
    · simp [root?_mem hc]
    · simp [root?_mem hc]
    · simp [ihl h]
    · simp [ihr h]

theorem root_or_child (h : e ∈ t.inorder) : t.root? = some e ∨ ∃ p, t.IsParent p e := by
  induction t with
  | leaf => cases h
  | node l n v r ihl ihr =>
    rcases List.mem_append.1 h with h | h
    · rcases ihl h with he | ⟨p, hp⟩
      · exact .inr ⟨(n, v), .inl ⟨rfl, .inl he⟩⟩
      · exact .inr ⟨p, .inr (.inl hp)⟩
    · rcases List.mem_cons.1 h with rfl | h
      · exact .inl rfl
      · rcases ihr h with he | ⟨p, hp⟩
        · exact .inr ⟨(n, v), .inl ⟨rfl, .inr he⟩⟩
        · exact .inr ⟨p, .inr (.inr hp)⟩

theorem Ordered.filter_left (ht : (node l n v r).Ordered) :
    (node l n v r).inorder.filter (fun e => compare e.1 n = .lt) = l.inorder := by
  obtain ⟨-, -, hln, hnr⟩ := ht
  rw [all_iff] at hln hnr
  have hl : l.inorder.filter (fun e => compare e.1 n = .lt) = l.inorder :=
    List.filter_eq_self.2 fun e he => by simpa using hln e he
  have hr : r.inorder.filter (fun e => compare e.1 n = .lt) = [] :=
    List.filter_eq_nil_iff.2 fun e he => by simp [Name.compare_gt_iff.2 (hnr e he)]
  rw [inorder, List.filter_append, List.filter_cons_of_neg (by simp), hl, hr, List.append_nil]

theorem Ordered.filter_right (ht : (node l n v r).Ordered) :
    (node l n v r).inorder.filter (fun e => compare n e.1 = .lt) = r.inorder := by
  obtain ⟨-, -, hln, hnr⟩ := ht
  rw [all_iff] at hln hnr
  have hl : l.inorder.filter (fun e => compare n e.1 = .lt) = [] :=
    List.filter_eq_nil_iff.2 fun e he => by simp [Name.compare_gt_iff.2 (hln e he)]
  have hr : r.inorder.filter (fun e => compare n e.1 = .lt) = r.inorder :=
    List.filter_eq_self.2 fun e he => by simpa using hnr e he
  rw [inorder, List.filter_append, List.filter_cons_of_neg (by simp), hl, hr, List.nil_append]

namespace ParentFirst

theorem nodup (ht : t.Ordered) (h : t.ParentFirst es) : es.Nodup :=
  h.perm.nodup_iff.2 ht.nodup_inorder

/-- Everything but the root has its parent before it, so the root comes first. -/
theorem eq_cons (ht : (node l n v r).Ordered) (h : (node l n v r).ParentFirst es) :
    ∃ rest, es = (n, v) :: rest := by
  have hnodup := h.nodup ht
  cases es with
  | nil =>
    have := h.perm.length_eq
    simp [inorder] at this
  | cons e rest =>
    refine ⟨rest, ?_⟩
    rcases root_or_child (h.perm.mem_iff.1 List.mem_cons_self) with he | ⟨p, hp⟩
    · rw [Option.some.inj he]
    · have hs := h.sublist p e hp
      have he : e ∈ rest := by
        cases hs with
        | cons _ hs => exact hs.subset (by simp)
        | cons_cons _ hs => exact hs.subset (by simp)
      exact absurd he (List.nodup_cons.1 hnodup).1

/-- The bindings of a subtree keep their order among themselves. -/
theorem restrict {q : Name × Int32 → Bool} (hq : t.inorder.filter q = s.inorder)
    (hs : ∀ p c, s.IsParent p c → t.IsParent p c) (h : t.ParentFirst es) :
    s.ParentFirst (es.filter q) := by
  refine ⟨hq ▸ h.perm.filter q, fun p c hpc => ?_⟩
  obtain ⟨hp, hc⟩ := hpc.mem
  rw [← hq, List.mem_filter] at hp hc
  have hsub := (h.sublist p c (hs p c hpc)).filter q
  rwa [List.filter_cons_of_pos hp.2, List.filter_cons_of_pos hc.2, List.filter_nil] at hsub

end ParentFirst

theorem insertAll_parentFirst (ht : t.Ordered) (h : t.ParentFirst es) : leaf.insertAll es = t := by
  induction t generalizing es with
  | leaf =>
    rw [h.perm.eq_nil]
    rfl
  | node l n v r ihl ihr =>
    have hl := h.restrict ht.filter_left fun _ _ hp => .inr (.inl hp)
    have hr := h.restrict ht.filter_right fun _ _ hp => .inr (.inr hp)
    obtain ⟨rest, rfl⟩ := h.eq_cons ht
    rw [List.filter_cons_of_neg (by simp)] at hl hr
    have hrest : ∀ e ∈ rest, e.1 ≠ n := by
      have := (h.perm.map Prod.fst).nodup_iff.2 ht.nodup_names
      rw [List.map_cons, List.nodup_cons] at this
      rintro e he rfl
      exact this.1 (List.mem_map.2 ⟨e, he, rfl⟩)
    rw [insertAll_cons, Tree.insert, insertAll_node hrest, ihl ht.1 hl, ihr ht.2.1 hr]

section Levels

theorem root?_mem_atDepth (h : t.root? = some e) : e ∈ t.atDepth 0 ∧ 0 < t.height := by
  cases t with
  | leaf => cases h
  | node l n v r =>
    obtain rfl := Option.some.inj h
    simp [atDepth, height]

theorem IsParent.atDepth (h : t.IsParent p c) :
    ∃ d, p ∈ t.atDepth d ∧ c ∈ t.atDepth (d + 1) ∧ d + 1 < t.height := by
  induction t with
  | leaf => exact h.elim
  | node l n v r ihl ihr =>
    simp only [Tree.height]
    rcases h with ⟨rfl, hc | hc⟩ | h | h
    · obtain ⟨hc, hh⟩ := root?_mem_atDepth hc
      exact ⟨0, by simp [Tree.atDepth], List.mem_append_left _ hc, by omega⟩
    · obtain ⟨hc, hh⟩ := root?_mem_atDepth hc
      exact ⟨0, by simp [Tree.atDepth], List.mem_append_right _ hc, by omega⟩
    · obtain ⟨d, hp, hc, hh⟩ := ihl h
      exact ⟨d + 1, List.mem_append_left _ hp, List.mem_append_left _ hc, by omega⟩
    · obtain ⟨d, hp, hc, hh⟩ := ihr h
      exact ⟨d + 1, List.mem_append_right _ hp, List.mem_append_right _ hc, by omega⟩

theorem flatMap_atDepth_perm {h : Nat} (hh : t.height ≤ h) :
    ((List.range h).flatMap t.atDepth).Perm t.inorder := by
  induction t generalizing h with
  | leaf => simp [atDepth, inorder]
  | node l n v r ihl ihr =>
    rw [height] at hh
    obtain ⟨h, rfl⟩ : ∃ k, h = k + 1 := ⟨h - 1, by omega⟩
    have hl := ihl (h := h) (by omega)
    have hr := ihr (h := h) (by omega)
    have hsplit := List.flatMap_append_perm (List.range h) l.atDepth r.atDepth
    rw [List.range_succ_eq_map, List.flatMap_cons, List.flatMap_map]
    exact ((hsplit.symm.trans (hl.append hr)).cons _).trans List.perm_middle.symm

theorem IsParent.sublist_levels (h : t.IsParent p c) : [p, c].Sublist t.levels := by
  obtain ⟨d, hp, hc, hd⟩ := h.atDepth
  obtain ⟨k, hk⟩ : ∃ k, t.height = d + 1 + k := ⟨t.height - (d + 1), by omega⟩
  rw [levels, hk, List.range_add, List.flatMap_append]
  -- The depths are cut right behind the depth of `p`.
  refine List.Sublist.append (List.singleton_sublist.2 ?_) (List.singleton_sublist.2 ?_)
  · exact List.mem_flatMap.2 ⟨d, by simp, hp⟩
  · refine List.mem_flatMap.2 ⟨d + 1, List.mem_map.2 ⟨0, ?_, rfl⟩, hc⟩
    rw [List.mem_range]
    omega

theorem parentFirst_levels (t : Tree) : t.ParentFirst t.levels :=
  ⟨flatMap_atDepth_perm (Nat.le_refl _), fun _ _ h => h.sublist_levels⟩

theorem length_levels (t : Tree) : t.levels.length = t.size :=
  t.parentFirst_levels.perm.length_eq.trans t.length_inorder

theorem mem_levels : e ∈ t.levels ↔ e ∈ t.inorder := t.parentFirst_levels.perm.mem_iff

end Levels

end StackCalc.Tree
