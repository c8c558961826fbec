import StackCalc.Proofs.Machine.Upkeep
import StackCalc.Proofs.Tree.Growth

/-! # Replaying a saved table over another

A machine that already has operands and names can run the text of a saved table as well, as long as
there is room for one more operand. The saved bindings then count before those it had. The names it
had stay where they are in its tree, and the others come below them; so a machine that replays its
own table ends up as it was.
-/

namespace StackCalc

open Bytes (IsField unlines)

namespace Table

open Trail

variable {t : Table} {k : Name} {v : Int32} {es : List (Name × Int32)}

theorem put_eq_self {i : Nat} {n : Node} (h : t.slots[i]? = some (.occupied n)) : t.put i n = t := by
  obtain ⟨hi, hn⟩ := Array.getElem?_eq_some_iff.1 h
  have hset : t.slots.setIfInBounds i (.occupied n) = t.slots := by
    rw [← hn]
    simp [Array.setIfInBounds, hi]
  rw [put, hset]

namespace WellFormed

theorem insert_eq_self (h : t.WellFormed) (hk : t.get? k = some v) : (t.insert k v).2 = t := by
  rw [h.get?_eq] at hk
  obtain ⟨p, hp⟩ := h
  rw [hp.toTree] at hk
  obtain ⟨c, q, hloc, rfl, hc, rfl | ⟨l, i, w, r, rfl⟩⟩ := hp.locate k
  · rw [get?_plug hc] at hk
    cases hk
  · obtain rfl : w = v := by
      rw [get?_plug hc] at hk
      simpa [Placement.tree, Tree.get?] using hk
    have hi := hp.held.2.1
    have hins : t.tryInsert k w = .ok (some w, t.put i ⟨k, w, l.link, r.link⟩) := by
      simp [Table.tryInsert, hloc, node_of_getElem? hi]
    rw [Table.insert, hins]
    exact put_eq_self hi

theorem insertAll_eq_self (h : t.WellFormed) (hes : ∀ e ∈ es, t.get? e.1 = some e.2) :
    t.insertAll es = t := by
  induction es with
  | nil => rfl
  | cons e es ih =>
    obtain ⟨he, hes⟩ := List.forall_mem_cons.1 hes
    rw [Table.insertAll, List.foldl_cons, h.insert_eq_self he]
    exact ih hes

theorem get?_insertAll_levels {s : Table} (h : t.WellFormed) (hs : s.WellFormed) (k : Name) :
    (t.insertAll s.toTree.levels).get? k = (s.get? k).or (t.get? k) := by
  obtain ⟨hw, htree⟩ := h.insertAll s.toTree.levels
  rw [hw.get?_eq, htree, Tree.get?_insertAll_levels hs.ordered, hs.get?_eq, h.get?_eq]

end WellFormed

/-- The third table has the bindings of the second one overridden by those of the first. The names
of the second one have kept their places, and new ones have been added below. -/
structure Overlaid (t u u' : Table) : Prop where
  get?_eq : ∀ n, u'.get? n = (t.get? n).or (u.get? n)
  ancestors_eq : ∀ n v, u.get? n = some v →
    ∃ way, u.toTree.ancestors? n = some way ∧ u'.toTree.ancestors? n = some way
  extends_tree : u.toTree.Extends u'.toTree

theorem overlaid_insertAll {u : Table} (ht : t.WellFormed) (hu : u.WellFormed) :
    Overlaid t u (u.insertAll t.toTree.levels) := by
  obtain ⟨hw, htree⟩ := hu.insertAll t.toTree.levels
  have hext : u.toTree.Extends (u.insertAll t.toTree.levels).toTree := by
    rw [htree]
    exact .insertAll _ _
  refine ⟨hu.get?_insertAll_levels ht, fun n v hn => ?_, hext⟩
  rw [hu.get?_eq, Tree.get?_eq_some_iff hu.ordered] at hn
  obtain ⟨way, hway⟩ := Option.isSome_iff_exists.1 (Tree.isSome_ancestors? hn)
  exact ⟨way, hway, hext.ancestors?_eq hw.ordered hway⟩

end Table

def Limits.AdmitsText (L : Limits) (s : Bytes) : Prop :=
  s.lines.length ≤ L.maxInstructions.toNat ∧ ∀ l ∈ s.lines, l.length ≤ L.maxLineLength.toNat

namespace Machine

variable {L : Limits} {m m' : Machine} {t : Table} {es : List (Name × Int32)}

theorem Reachable.isField_names (h : Reachable L m) : m.table.Reachable IsField := by
  have hwithin : m.Within L IsField :=
    invariant_of_reachable (fun _ _ => Within.sameCore)
      (fun _ _ => Within.execute fun _ hn => hn.1) (.new L _) (fun _ => Within.reset) h
  exact hwithin.names

theorem run_of_first_line_fails {input : Source} {l : Bytes} {ls : List Bytes} {c : Cause}
    (hL : m.limits.reading ≠ 0) (hr : input.Whole) (hls : input.rest.lines = l :: ls)
    (hmost : 1 ≤ m.limits.maxInstructions.toNat)
    (hlen : l.length ≤ m.limits.maxLineLength.toNat) (hx : execute l m = .error c m') :
    run input m = ⟨.error (c.atLine 1), input.skip (input.rest.extent 1),
      m'.emit (.instructionFailed 1 c)⟩ := by
  obtain ⟨left, hleft⟩ : ∃ left, m.limits.maxInstructions.toNat = left + 1 :=
    Nat.exists_eq_add_one.2 hmost
  rw [run, hleft, runLines, step_line_of_le hL hr hls hlen, executeLine_of_le hlen, hx]

theorem execute_push_of_isFull (h : m.stack.isFull) (v : Int32) :
    execute (Instruction.push v).text m =
      .error .stackOverflow (m.emit (.executing (.push v) m.stack.size)) := by
  have hpush : m.stack.push v = .error .stackOverflow := if_pos h
  rw [execute_push, pushOperand, emit, hpush]

theorem admitsText_script_iff (hes : ∀ e ∈ es, IsField e.1) :
    L.AdmitsText (unlines (script es)) ↔
      2 * es.length ≤ L.maxInstructions.toNat ∧
        ∀ l ∈ script es, l.length ≤ L.maxLineLength.toNat := by
  have hlines : (unlines (script es)).lines = script es := lines_rest_script hes
  rw [Limits.AdmitsText, hlines, length_script]

theorem run_script_of_isFull (hL : m.limits.Bufferable) (hes : ∀ e ∈ es, IsField e.1)
    (hne : es ≠ []) (hadmits : m.limits.AdmitsText (unlines (script es))) (hfull : m.stack.isFull) :
    (run (.ofBytes (unlines (script es))) m).result = .error (Cause.stackOverflow.atLine 1) ∧
      (run (.ofBytes (unlines (script es))) m).machine.stack = m.stack ∧
      (run (.ofBytes (unlines (script es))) m).machine.table = m.table := by
  obtain ⟨hmost, hlen⟩ := (admitsText_script_iff hes).1 hadmits
  have hlines := lines_rest_script hes
  cases es with
  | nil => exact absurd rfl hne
  | cons e es =>
    rw [List.length_cons] at hmost
    rw [script_cons] at hlen hlines ⊢
    rw [run_of_first_line_fails hL.reading_ne_zero (Source.whole_ofBytes _) hlines (by omega)
      (hlen _ List.mem_cons_self) (execute_push_of_isFull hfull e.2)]
    exact ⟨rfl, rfl, rfl⟩

theorem run_levels_of_not_isFull (hL : m.limits.Bufferable) (ht : t.Reachable IsField)
    (hm : m.stack.Bounded) (hadmits : m.limits.AdmitsText (unlines (script t.toTree.levels)))
    (hroom : ¬ m.stack.isFull) :
    (run (.ofBytes (unlines (script t.toTree.levels))) m).result = .ok (2 * t.size) ∧
      (run (.ofBytes (unlines (script t.toTree.levels))) m).machine.stack = m.stack ∧
      (run (.ofBytes (unlines (script t.toTree.levels))) m).machine.table =
        m.table.insertAll t.toTree.levels := by
  obtain ⟨hmost, hlen⟩ := (admitsText_script_iff ht.levels).1 hadmits
  have hlt : m.stack.size < m.stack.capacity := by
    simpa [Stack.isFull] using hroom
  have hrun := run_script_of_fits hL.readsLines ht.levels hm
    (.inr ⟨hlt, hmost, lines_script_le_iff.1 hlen⟩)
  rwa [ht.wellFormed.length_levels] at hrun

end Machine

end StackCalc
