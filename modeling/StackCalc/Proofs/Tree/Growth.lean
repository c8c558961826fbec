import StackCalc.Proofs.Tree.Rebuild

/-! # Growing a tree

Insertion gives a name that is bound another value and hangs a name that is new below the others. So
however many bindings are inserted, what was in the tree before stays where it is: every node keeps
its ancestors, and stands on the same side of each of them.
-/

namespace StackCalc.Tree

inductive Side where
  | left
  | right
  deriving DecidableEq, Repr

/-- The ancestors of a name from the root down, each with the side that the name is on. -/
def ancestors? (k : Name) : Tree → Option (List (Name × Side))
  | leaf => none
  | node l n _ r =>
    if k = n then some []
    else ((l.ancestors? k).map ((n, .left) :: ·)).or ((r.ancestors? k).map ((n, .right) :: ·))

/-- The second tree has every node of the first in its place, perhaps with another value. What else
it has hangs below them. -/
inductive Extends : Tree → Tree → Prop where
  | leaf (t : Tree) : Extends leaf t
  | node {l l' r r' : Tree} (n : Name) (v w : Int32) : Extends l l' → Extends r r' →
      Extends (node l n v r) (node l' n w r')

variable {t t' t'' : Tree} {k : Name} {v : Int32} {es : List (Name × Int32)}
  {way : List (Name × Side)}

namespace Extends

theorem refl (t : Tree) : t.Extends t := by
  induction t with
  | leaf => exact .leaf _
  | node l n v r ihl ihr => exact .node n v v ihl ihr

theorem trans (h : t.Extends t') (h' : t'.Extends t'') : t.Extends t'' := by
  induction h generalizing t'' with
  | leaf => exact .leaf _
  | node n v w _ _ ihl ihr =>
    cases h' with
    | node _ _ u hl hr => exact .node n v u (ihl hl) (ihr hr)

theorem insert (t : Tree) (k : Name) (v : Int32) : t.Extends (t.insert k v) := by
  induction t with
  | leaf => exact .leaf _
  | node l n w r ihl ihr =>
    rw [Tree.insert]
    split
    · exact .node n w v (.refl l) (.refl r)
    · exact .node n w w ihl (.refl r)
    · exact .node n w w (.refl l) ihr

theorem insertAll (t : Tree) (es : List (Name × Int32)) : t.Extends (t.insertAll es) := by
  induction es generalizing t with
  | nil => exact .refl t
  | cons e es ih => exact (insert t e.1 e.2).trans (ih _)

end Extends

theorem All.of_ancestors? {p : Name → Prop} (ht : t.All p) (h : t.ancestors? k = some way) : p k := by
  induction t generalizing way with
  | leaf => cases h
  | node l n v r ihl ihr =>
    obtain ⟨hl, hn, hr⟩ := ht
    rw [ancestors?] at h
    split at h
    next hk => exact hk ▸ hn
    next =>
      rcases Option.or_eq_some_iff.1 h with h | ⟨-, h⟩
      · obtain ⟨w, hw, -⟩ := Option.map_eq_some_iff.1 h
        exact ihl hl hw
      · obtain ⟨w, hw, -⟩ := Option.map_eq_some_iff.1 h
        exact ihr hr hw

theorem isSome_ancestors? (h : (k, v) ∈ t.inorder) : (t.ancestors? k).isSome := by
  induction t with
  | leaf => cases h
  | node l n w r ihl ihr =>
    rw [ancestors?]
    split
    next => rfl
    next hk =>
      rw [Option.isSome_or, Option.isSome_map, Option.isSome_map, Bool.or_eq_true]
      rcases List.mem_append.1 h with h | h
      · exact .inl (ihl h)
      · rcases List.mem_cons.1 h with h | h
        · exact absurd (congrArg Prod.fst h) hk
        · exact .inr (ihr h)

/-- A name keeps its place while the tree grows. -/
theorem Extends.ancestors?_eq (h : t.Extends t') (ht : t'.Ordered)
    (hk : t.ancestors? k = some way) : t'.ancestors? k = some way := by
  induction h generalizing way with
  | leaf => cases hk
  | @node l l' r r' n v w _ _ ihl ihr =>
    obtain ⟨hl, hr, hln, hnr⟩ := ht
    rw [ancestors?] at hk ⊢
    split at hk
    next h => rwa [if_pos h]
    next h =>
      rw [if_neg h]
      rcases Option.or_eq_some_iff.1 hk with hk | ⟨-, hk⟩
      · obtain ⟨way, hway, rfl⟩ := Option.map_eq_some_iff.1 hk
        rw [ihl hl hway]
        rfl
      · obtain ⟨way, hway, rfl⟩ := Option.map_eq_some_iff.1 hk
        have hright := ihr hr hway
        -- What has come to the left side since cannot be the same name.
        have hleft : l'.ancestors? k = none := by
          refine Option.eq_none_iff_forall_ne_some.2 fun _ hleft => ?_
          have hgt := Name.compare_gt_iff.2 (hnr.of_ancestors? hright)
          rw [hln.of_ancestors? hleft] at hgt
          cases hgt
        rw [hleft, hright]
        rfl

theorem get?_insertAll_of_notMem (hk : ∀ e ∈ es, e.1 ≠ k) : (t.insertAll es).get? k = t.get? k := by
  induction es generalizing t with
  | nil => rfl
  | cons e es ih =>
    obtain ⟨he, hes⟩ := List.forall_mem_cons.1 hk
    rw [insertAll_cons, ih hes, get?_insert, if_neg he.symm]

theorem get?_insertAll_of_mem (hes : (es.map Prod.fst).Nodup) (hk : (k, v) ∈ es) :
    (t.insertAll es).get? k = some v := by
  induction es generalizing t with
  | nil => cases hk
  | cons e es ih =>
    obtain ⟨he, hes⟩ := List.nodup_cons.1 hes
    rw [insertAll_cons]
    rcases List.mem_cons.1 hk with rfl | hk
    · rw [get?_insertAll_of_notMem, get?_insert, if_pos rfl]
      intro e hmem hek
      exact he (List.mem_map.2 ⟨e, hmem, hek⟩)
    · exact ih hes hk

theorem get?_insertAll_levels {s : Tree} (hs : s.Ordered) (k : Name) :
    (t.insertAll s.levels).get? k = (s.get? k).or (t.get? k) := by
  have hperm := s.parentFirst_levels.perm
  have hnodup : (s.levels.map Prod.fst).Nodup := (hperm.map _).nodup_iff.2 hs.nodup_names
  cases hk : s.get? k with
  | some v =>
    have hmem := mem_levels.2 ((get?_eq_some_iff hs).1 hk)
    rw [get?_insertAll_of_mem hnodup hmem, Option.some_or]
  | none =>
    rw [get?_insertAll_of_notMem, Option.none_or]
    rintro ⟨n, v⟩ hmem rfl
    rw [(get?_eq_some_iff hs).2 (mem_levels.1 hmem)] at hk
    cases hk

end StackCalc.Tree
