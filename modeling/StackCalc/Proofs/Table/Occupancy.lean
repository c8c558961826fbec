import Mathlib.Data.List.Induction
import Mathlib.Order.Bounds.Basic
import StackCalc.Proofs.Table.Dictionary

/-! # How many slots a table has

A table takes a new slot only when none is free, and a slot that is given up is free at once. So
every slot is in use or free, and there are just as many as the table has had bindings at one time
since it was last cleared. What an operation can do to the three counts is said once, for any table
whatever its links; the greatest size is then followed along a sequence of operations.
-/

namespace StackCalc

namespace Operation

variable {σ : Type} {apply : σ → Operation → Answer × σ} {s : σ}

def after (apply : σ → Operation → Answer × σ) (s : σ) (ops : List Operation) : σ :=
  ops.foldl (fun s op => (apply s op).2) s

theorem after_append_singleton (ops : List Operation) (op : Operation) :
    after apply s (ops ++ [op]) = (apply (after apply s ops) op).2 := by
  simp [after]

end Operation

namespace Table

open Operation (after after_append_singleton)

structure Counts where
  slots : Nat
  free : Nat
  size : Nat

def counts (t : Table) : Counts := ⟨t.slots.size, t.free.length, t.size⟩

def Counts.Balanced (c : Counts) : Prop := c.slots = c.size + c.free

/-- What becomes of the counts in one operation: nothing, or one slot is taken, which is a new one
only if none is free, or one is given up. -/
inductive Turnover : Counts → Counts → Prop where
  | kept (c : Counts) : Turnover c c
  | grown (n s : Nat) : Turnover ⟨n, 0, s⟩ ⟨n + 1, 0, s + 1⟩
  | reused (n f s : Nat) : Turnover ⟨n, f + 1, s⟩ ⟨n, f, s + 1⟩
  | released (n f s : Nat) : Turnover ⟨n, f, s + 1⟩ ⟨n, f + 1, s⟩

/-- There are more slots afterwards only if all of them are in use. -/
theorem Turnover.slots_eq {c c' : Counts} (h : Turnover c c') (hc : c.Balanced) :
    c'.slots = max c'.size c.slots := by
  cases h <;> simp only [Counts.Balanced] at hc ⊢ <;> omega

variable {t t' : Table} {k : Name} {v : Int32} {i : Nat} {link : Link} {target : Option Nat}
  {n : Node} {ops : List Operation} {op : Operation}

theorem counts_put (t : Table) (i : Nat) (n : Node) : (t.put i n).counts = t.counts := by
  simp [counts, put]

theorem relink_counts (h : t.relink link target = .ok t') : t'.counts = t.counts := by
  cases link with
  | root =>
    cases h
    rfl
  | left j | right j =>
    obtain ⟨n, -, h⟩ := ok_of_bind h
    cases h
    exact counts_put t j _

theorem graft_counts {fuel parent : Nat} (h : t.graft k i fuel parent = .ok t') :
    t'.counts = t.counts := by
  induction fuel generalizing parent with
  | zero => cases h
  | succ fuel ih =>
    obtain ⟨n, -, h⟩ := ok_of_bind h
    split at h
    · cases h
    all_goals -- on either side the way goes on or ends at an empty place
      split at h
      · exact ih h
      · cases h
        exact counts_put t parent _

theorem merge_counts {left right joined : Option Nat}
    (h : t.merge left right = .ok (joined, t')) : t'.counts = t.counts := by
  unfold merge at h
  split at h
  · cases h
    rfl
  · cases h
    rfl
  · obtain ⟨n, -, h⟩ := ok_of_bind h
    obtain ⟨t₁, hgraft, h⟩ := ok_of_bind h
    cases h
    exact graft_counts hgraft

theorem allocate_turnover (h : t.allocate n = .ok (i, t')) : Turnover t.counts t'.counts := by
  unfold allocate at h
  split at h
  next hfree =>
    cases h
    simp only [counts, hfree, Array.size_push, List.length_nil]
    exact .grown _ _
  next j rest hfree =>
    split at h
    · cases h
      simp only [counts, hfree, put, Array.size_setIfInBounds, List.length_cons]
      exact .reused _ _ _
    · cases h

theorem release_turnover (h : t.release i = .ok (n, t')) : Turnover t.counts t'.counts := by
  unfold release at h
  split at h
  next size _ hsize =>
    cases h
    simp only [counts, hsize, Array.size_setIfInBounds, List.length_cons]
    exact .released _ _ _
  all_goals cases h

theorem tryInsert_turnover {r : Option Int32} (h : t.tryInsert k v = .ok (r, t')) :
    Turnover t.counts t'.counts := by
  obtain ⟨⟨link, found⟩, -, h⟩ := ok_of_bind h
  cases found with
  | some j =>
    obtain ⟨n, -, h⟩ := ok_of_bind h
    cases h
    rw [counts_put]
    exact .kept _
  | none =>
    obtain ⟨⟨j, t₁⟩, hallocate, h⟩ := ok_of_bind h
    obtain ⟨t₂, hrelink, h⟩ := ok_of_bind h
    cases h
    rw [relink_counts hrelink]
    exact allocate_turnover hallocate

theorem tryRemove_turnover {r : Option Int32} (h : t.tryRemove k = .ok (r, t')) :
    Turnover t.counts t'.counts := by
  obtain ⟨⟨link, found⟩, -, h⟩ := ok_of_bind h
  cases found with
  | none =>
    cases h
    exact .kept _
  | some j =>
    obtain ⟨n, -, h⟩ := ok_of_bind h
    obtain ⟨⟨joined, t₁⟩, hmerge, h⟩ := ok_of_bind h
    obtain ⟨t₂, hrelink, h⟩ := ok_of_bind h
    obtain ⟨⟨m, t₃⟩, hrelease, h⟩ := ok_of_bind h
    cases h
    rw [← merge_counts hmerge, ← relink_counts hrelink]
    exact release_turnover hrelease

theorem apply_turnover (t : Table) (hop : op ≠ .clear) :
    Turnover t.counts (t.apply op).2.counts := by
  cases op with
  | insert k v =>
    rw [apply, insert]
    cases h : t.tryInsert k v with
    | ok r => exact tryInsert_turnover h
    | error d => exact .kept _ -- a damaged table stays as it is
  | remove k =>
    rw [apply, remove]
    cases h : t.tryRemove k with
    | ok r => exact tryRemove_turnover h
    | error d => exact .kept _
  | get k => exact .kept _
  | clear => exact absurd rfl hop

theorem WellFormed.balanced (h : t.WellFormed) : t.counts.Balanced := by
  obtain ⟨p, hp⟩ := h
  exact hp.accounts.slots_size

theorem WellFormed.slots_apply (h : t.WellFormed) (hop : op ≠ .clear) :
    (t.apply op).2.slots.size = max (t.apply op).2.size t.slots.size :=
  (apply_turnover t hop).slots_eq h.balanced

theorem represents_after (ops : List Operation) :
    (after apply {} ops).Represents (after Bindings.apply ∅ ops) := by
  induction ops using List.reverseRecOn with
  | nil => exact represents_empty
  | append_singleton ops op ih =>
    rw [after_append_singleton, after_append_singleton]
    exact (ih.apply op).2

/-- The sizes that a table, empty at first, has had since it was last cleared, or from the beginning
if it never was. -/
def sizesSinceClear (ops : List Operation) : Set Nat :=
  {n | ∃ before since, before ++ since = ops ∧ .clear ∉ since ∧ (after apply {} before).size = n}

theorem mem_sizesSinceClear_append_singleton {n : Nat} :
    n ∈ sizesSinceClear (ops ++ [op]) ↔
      n = (after apply {} (ops ++ [op])).size ∨ op ≠ .clear ∧ n ∈ sizesSinceClear ops := by
  constructor
  · rintro ⟨before, since, hsplit, hclear, rfl⟩
    cases since using List.reverseRecOn with
    | nil =>
      rw [List.append_nil] at hsplit
      exact .inl (by rw [hsplit])
    | append_singleton since last =>
      rw [← List.append_assoc] at hsplit
      obtain ⟨rfl, hlast⟩ := List.append_inj' hsplit rfl
      obtain rfl := List.singleton_inj.1 hlast
      rw [List.mem_append, not_or, List.mem_singleton] at hclear
      exact .inr ⟨fun h => hclear.2 h.symm, before, since, rfl, hclear.1, rfl⟩
  · rintro (rfl | ⟨hop, before, since, rfl, hclear, rfl⟩)
    · exact ⟨ops ++ [op], [], List.append_nil _, List.not_mem_nil, rfl⟩
    · refine ⟨before, since ++ [op], (List.append_assoc ..).symm, ?_, rfl⟩
      rw [List.mem_append, not_or, List.mem_singleton]
      exact ⟨hclear, fun h => hop h.symm⟩

theorem isGreatest_slots (ops : List Operation) :
    IsGreatest (sizesSinceClear ops) (after apply {} ops).slots.size := by
  induction ops using List.reverseRecOn with
  | nil =>
    constructor
    · exact ⟨[], [], rfl, List.not_mem_nil, rfl⟩
    · rintro n ⟨before, since, hsplit, -, rfl⟩
      obtain ⟨rfl, -⟩ := List.append_eq_nil_iff.1 hsplit
      exact le_rfl
  | append_singleton ops op ih =>
    have hw := (represents_after ops).wellFormed
    by_cases hop : op = .clear
    · -- Nothing that came before counts any more.
      have hset : sizesSinceClear (ops ++ [op]) = {0} := by
        ext n
        rw [mem_sizesSinceClear_append_singleton, after_append_singleton, hop, apply, hw.clear_eq]
        simp
      rw [hset, after_append_singleton, hop, apply, hw.clear_eq]
      exact isGreatest_singleton
    · have hset : sizesSinceClear (ops ++ [op]) =
          Insert.insert (after apply {} (ops ++ [op])).size (sizesSinceClear ops) := by
        ext n
        rw [mem_sizesSinceClear_append_singleton, Set.mem_insert_iff, and_iff_right hop]
      rw [hset, after_append_singleton, hw.slots_apply hop]
      exact ih.insert _

/-- No slot is ever lost. After any sequence of operations the table has as many slots as it has had
bindings at one time since it was last cleared, each of them is in use or free, and clearing leaves
none. -/
theorem slots_eq_greatest_size (ops : List Operation) :
    let t := after apply {} ops
    t.size = (after Bindings.apply ∅ ops).keys.card ∧
      IsGreatest (sizesSinceClear ops) t.slots.size ∧ t.slots.size = t.size + t.free.length ∧
      t.clear.2.slots = #[] ∧ t.clear.2.free = [] := by
  intro t
  have ht := represents_after ops
  refine ⟨ht.size_eq, isGreatest_slots ops, ht.wellFormed.balanced, ?_⟩
  rw [ht.wellFormed.clear_eq]
  exact ⟨rfl, rfl⟩

open Bytes (ascii) in
example : (after apply {} [.insert (ascii "a") 1, .insert (ascii "b") 2, .clear,
    .insert (ascii "c") 3, .remove (ascii "c"), .insert (ascii "d") 4]).slots.size = 1 := by
  decide

end Table

end StackCalc
