import StackCalc.Proofs.Instruction.Text
import StackCalc.Proofs.Machine.Stopping
import StackCalc.Proofs.Machine.Surroundings
import StackCalc.Proofs.Table.Rebuild

/-! # Replaying a saved table

A saved table is a script of two lines for each binding, a `push` and a `store`. Running it needs
room for one operand and otherwise leaves the stack alone; the table gets the bindings in the order
in which they were saved. That order has parents before children, so an empty table becomes one with
the tree of the saved table. Nothing but the limits can get in the way.
-/

namespace StackCalc

open Bytes (IsField unlines)

variable {es : List (Name × Int32)}

def script (es : List (Name × Int32)) : List Bytes :=
  es.flatMap fun e => [(Instruction.push e.2).text, (Instruction.store e.1).text]

theorem script_cons (e : Name × Int32) (es : List (Name × Int32)) :
    script (e :: es) =
      (Instruction.push e.2).text :: (Instruction.store e.1).text :: script es := rfl

theorem length_script (es : List (Name × Int32)) : (script es).length = 2 * es.length := by
  induction es with
  | nil => rfl
  | cons e es ih =>
    rw [script_cons, List.length_cons, List.length_cons, ih, List.length_cons]
    omega

theorem forall_mem_script {q : Bytes → Prop} :
    (∀ l ∈ script es, q l) ↔
      ∀ e ∈ es, q (Instruction.push e.2).text ∧ q (Instruction.store e.1).text := by
  simp only [script, List.forall_mem_flatMap, List.forall_mem_cons, List.not_mem_nil,
    false_implies, implies_true, and_true]

theorem unlines_script (nodes : List Node) :
    unlines (script (nodes.map Node.binding)) = nodes.flatMap fun n => n.statements.flatten := by
  rw [script, unlines, List.flatMap_assoc, List.flatMap_map]
  refine List.flatMap_congr fun n _ => ?_
  simp [Node.statements, Node.binding]
  rfl

theorem Table.WellFormed.encode_script {t : Table} (h : t.WellFormed) :
    ∃ k, t.encode {} = .ok t.size k ∧ k.bytes = unlines (script t.toTree.levels) := by
  obtain ⟨k, hk, hbytes⟩ := h.encode_text
  rw [Table.text, ← unlines_script, h.byLevel_bindings] at hbytes
  exact ⟨k, hk, hbytes⟩

theorem Table.WellFormed.length_levels {t : Table} (h : t.WellFormed) :
    t.toTree.levels.length = t.size :=
  (Tree.length_levels _).trans h.size_eq.symm

theorem Table.Reachable.levels {t : Table} {admits : Name → Prop} (h : t.Reachable admits) :
    ∀ e ∈ t.toTree.levels, admits e.1 := fun e he =>
  Tree.all_iff.1 h.all_names e (Tree.mem_levels.1 he)

theorem Table.insertAll_levels {t : Table} (h : t.WellFormed) :
    (({} : Table).insertAll t.toTree.levels).toTree = t.toTree :=
  (insertAll_of_parentFirst h t.toTree.parentFirst_levels).toTree_eq

namespace Machine

variable {L : Limits} {m m' : Machine} {n : Name} {v : Int32}

theorem execute_text {i : Instruction} (hi : i.Writable) (m : Machine) :
    execute i.text m = perform i (m.emit (.executing i m.stack.size)) := by
  rw [execute, Instruction.instruction?_text hi]

theorem execute_push (v : Int32) (m : Machine) :
    execute (Instruction.push v).text m =
      pushOperand v (m.emit (.executing (.push v) m.stack.size)) :=
  execute_text (Instruction.writable_push v) m

theorem execute_push_of_lt (h : m.stack.size < m.stack.capacity) (v : Int32) :
    ∃ m', execute (Instruction.push v).text m = .ok () m' ∧
      m'.stack = { m.stack with items := v :: m.stack.items } ∧ m'.table = m.table := by
  have hpush : m.stack.push v = .ok { m.stack with items := v :: m.stack.items } :=
    Stack.push_eq_ok.2 ⟨h, rfl⟩
  rw [execute_push, pushOperand, emit, hpush]
  exact ⟨_, rfl, rfl, rfl⟩

theorem lt_of_execute_push (h : execute (Instruction.push v).text m = .ok () m') :
    m.stack.size < m.stack.capacity := by
  rw [execute_push, pushOperand, emit] at h
  cases hpush : m.stack.push v with
  | ok s => exact (Stack.push_eq_ok.1 hpush).1
  | error c =>
    rw [hpush] at h
    cases h

theorem execute_store (hn : IsField n) {items : List Int32} (h : m.stack.items = v :: items) :
    ∃ m', execute (Instruction.store n).text m = .ok () m' ∧
      m'.stack = { m.stack with items } ∧ m'.table = (m.table.insert n v).2 := by
  have hpop : m.stack.pop = .ok (v, { m.stack with items }) := by
    rw [Stack.pop, h]
  rw [execute_text (Instruction.writable_store hn), perform, store_eq, emit, hpop]
  refine ⟨_, rfl, ?_⟩
  split <;> exact ⟨rfl, rfl⟩

/-- Where there is room for an operand, a script leaves the stack alone and binds its names. -/
theorem forM_execute_script (hes : ∀ e ∈ es, IsField e.1) (h : m.stack.size < m.stack.capacity) :
    ∃ m', (script es).forM execute m = .ok () m' ∧ m'.stack = m.stack ∧
      m'.table = m.table.insertAll es := by
  induction es generalizing m with
  | nil => exact ⟨m, rfl, rfl, rfl⟩
  | cons e es ih =>
    obtain ⟨he, hes⟩ := List.forall_mem_cons.1 hes
    obtain ⟨m₁, hx₁, hs₁, ht₁⟩ := execute_push_of_lt h e.2
    obtain ⟨m₂, hx₂, hs₂, ht₂⟩ := execute_store (m := m₁) he (by rw [hs₁])
    have hs : m₂.stack = m.stack := by rw [hs₂, hs₁]
    obtain ⟨m', hx, hs', ht'⟩ := ih hes (hs ▸ h)
    refine ⟨m', ?_, hs'.trans hs, by rw [ht', ht₂, ht₁]; rfl⟩
    rw [script_cons, forM_execute_cons_of_ok hx₁, forM_execute_cons_of_ok hx₂, hx]

/-- The limits leave room for the script: for one operand, for its lines and for each of them. -/
def Fits (m : Machine) (es : List (Name × Int32)) : Prop :=
  es = [] ∨ m.stack.size < m.stack.capacity ∧ 2 * es.length ≤ m.limits.maxInstructions.toNat ∧
    ∀ e ∈ es, 5 + (Decimal.ofInt e.2.toInt).length ≤ m.limits.maxLineLength.toNat ∧
      6 + e.1.length ≤ m.limits.maxLineLength.toNat

theorem lines_script_le_iff {most : Nat} :
    (∀ l ∈ script es, l.length ≤ most) ↔
      ∀ e ∈ es, 5 + (Decimal.ofInt e.2.toInt).length ≤ most ∧ 6 + e.1.length ≤ most := by
  simp only [forall_mem_script, Instruction.length_text_push, Instruction.length_text_store]

theorem fits_of_completes (h : Completes m.limits.maxInstructions.toNat (script es) m m') :
    m.Fits es := by
  obtain ⟨hlen, hle, hx⟩ := h
  cases es with
  | nil => exact .inl rfl
  | cons e es =>
    refine .inr ⟨?_, length_script _ ▸ hlen, lines_script_le_iff.1 hle⟩
    rw [script_cons, forM_execute_cons] at hx
    cases h : execute (Instruction.push e.2).text m with
    | ok u m₁ => exact lt_of_execute_push h
    | error c m₁ =>
      rw [h] at hx
      cases hx

theorem Fits.completes (hes : ∀ e ∈ es, IsField e.1) (h : m.Fits es) :
    ∃ m', Completes m.limits.maxInstructions.toNat (script es) m m' ∧ m'.stack = m.stack ∧
      m'.table = m.table.insertAll es := by
  rcases h with rfl | ⟨hroom, hlen, hle⟩
  · exact ⟨m, completes_nil _ m, rfl, rfl⟩
  · obtain ⟨m', hx, hs, ht⟩ := forM_execute_script hes hroom
    exact ⟨m', ⟨(length_script es).symm ▸ hlen, lines_script_le_iff.2 hle, hx⟩, hs, ht⟩

theorem lines_rest_script (hes : ∀ e ∈ es, IsField e.1) :
    (Source.ofBytes (unlines (script es))).rest.lines = script es := by
  refine Bytes.lines_unlines (forall_mem_script.2 fun e he => ⟨?_, ?_⟩)
  · exact Instruction.newline_notMem_text (Instruction.writable_push e.2)
  · exact Instruction.newline_notMem_text (Instruction.writable_store (hes e he))

theorem run_script_of_fits (hL : m.limits.ReadsLines) (hes : ∀ e ∈ es, IsField e.1)
    (hm : m.stack.Bounded) (h : m.Fits es) :
    (run (.ofBytes (unlines (script es))) m).result = .ok (2 * es.length) ∧
      (run (.ofBytes (unlines (script es))) m).machine.stack = m.stack ∧
      (run (.ofBytes (unlines (script es))) m).machine.table = m.table.insertAll es := by
  obtain ⟨m', hc, hs, ht⟩ := h.completes hes
  have hrun := run_of_completes hL (Source.whole_ofBytes (unlines (script es))) hm
    ((lines_rest_script hes).symm ▸ hc)
  rw [hrun, lines_rest_script hes, length_script]
  exact ⟨rfl, hs, ht⟩

theorem run_script_of_not_fits (hL : m.limits.ReadsLines) (hes : ∀ e ∈ es, IsField e.1)
    (hm : m.stack.Bounded) (h : ¬ m.Fits es) :
    ∃ e, (run (.ofBytes (unlines (script es))) m).result = .error e := by
  cases hr : (run (.ofBytes (unlines (script es))) m).result with
  | error e => exact ⟨e, rfl⟩
  | ok k =>
    obtain ⟨m', hc⟩ := completes_of_run_ok hL (Source.whole_ofBytes _) hm hr
    rw [lines_rest_script hes] at hc
    exact absurd (fits_of_completes hc) h

end Machine

/-- A machine with these limits can replay the table. -/
def Limits.Admits (L : Limits) (t : Table) : Prop :=
  t.size = 0 ∨ 1 ≤ L.stackCapacity.toNat ∧ 2 * t.size ≤ L.maxInstructions.toNat ∧
    ∀ name value, t.get? name = some value →
      5 + (Decimal.ofInt value.toInt).length ≤ L.maxLineLength.toNat ∧
        6 + name.length ≤ L.maxLineLength.toNat

namespace Machine

variable {L : Limits} {m : Machine} {t : Table}

theorem fits_levels_iff (ht : t.WellFormed) (hm : SameCore (new L) m) :
    m.Fits t.toTree.levels ↔ L.Admits t := by
  have hempty : t.toTree.levels = [] ↔ t.size = 0 := by
    rw [← List.length_eq_zero_iff, Tree.length_levels, ht.size_eq]
  have hmem (e : Name × Int32) : e ∈ t.toTree.levels ↔ t.get? e.1 = some e.2 := by
    rw [Tree.mem_levels, ht.get?_eq, Tree.get?_eq_some_iff ht.ordered]
  simp only [Fits, Limits.Admits, hempty, Tree.length_levels, ← ht.size_eq, hmem, hm.stack_eq,
    hm.limits_eq, Prod.forall]
  rfl

end Machine

end StackCalc
