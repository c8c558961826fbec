import StackCalc.Proofs.Instruction.Canonical
import StackCalc.Proofs.Machine.Replay

/-! # What a machine keeps to

A machine that is given its lines by runs only ever binds names that it has read from a line within
its limits. Such a name is a field, and a line that stores it again is within the limits as well.
Together with the bound on the stack this holds of every machine in service, whatever inputs, output
and files do to it.
-/

namespace StackCalc

def Name.Storable (most : Nat) (n : Name) : Prop := Bytes.IsField n ∧ 6 + n.length ≤ most

theorem Name.Storable.mono {n : Name} {a b : Nat} (h : n.Storable a) (hab : a ≤ b) :
    n.Storable b :=
  ⟨h.1, h.2.trans hab⟩

theorem store_mem_script {es : List (Name × Int32)} {n : Name} :
    (Instruction.store n).text ∈ script es ↔ ∃ v, (n, v) ∈ es := by
  have hpush (v : Int32) : (Instruction.store n).text ≠ (Instruction.push v).text := by
    intro h
    have hhead : some (115 : UInt8) = some 112 := congrArg List.head? h
    exact absurd hhead (by decide)
  have hstore (k : Name) : (Instruction.store n).text = (Instruction.store k).text ↔ n = k := by
    rw [Instruction.text, Instruction.text, List.append_cancel_left_eq]
  simp only [script, List.mem_flatMap, List.mem_cons, List.not_mem_nil, or_false, hpush, false_or,
    hstore]
  constructor
  · rintro ⟨e, he, rfl⟩
    exact ⟨e.2, he⟩
  · rintro ⟨v, hv⟩
    exact ⟨(n, v), hv, rfl⟩

section Effect

variable {admits : Name → Prop} {s s' : Stack} {t t' : Table}

theorem Instruction.reachable_effect {i : Instruction} (ht : t.Reachable admits)
    (hstore : ∀ n, i = .store n → admits n) (h : i.effect s t = .ok (s', t')) :
    t'.Reachable admits := by
  cases i with
  | push v =>
    obtain ⟨_, -, ⟨⟩⟩ := map_eq_ok h
    exact ht
  | pop =>
    obtain ⟨_, -, ⟨⟩⟩ := map_eq_ok h
    exact ht
  | add | sub | mul | div =>
    obtain ⟨_, -, ⟨⟩⟩ := map_eq_ok h
    exact ht
  | load n =>
    rw [effect] at h
    split at h
    · obtain ⟨_, -, ⟨⟩⟩ := map_eq_ok h
      exact ht
    · obtain ⟨-, rfl⟩ := Prod.mk.inj (Except.ok.inj h)
      exact ht
  | store n =>
    obtain ⟨r, -, ⟨⟩⟩ := map_eq_ok h
    exact .insert r.1 ht (hstore n rfl)
  | remove n =>
    obtain ⟨-, rfl⟩ := Prod.mk.inj (Except.ok.inj h)
    exact .remove n ht
  | save n | list | print =>
    obtain ⟨-, rfl⟩ := Prod.mk.inj (Except.ok.inj h)
    exact ht

theorem Line.reachable_effect {line : Bytes} (ht : t.Reachable admits)
    (hline : ∀ n : Name, n.Storable line.length → admits n)
    (h : (ofBytes line).effect s t = .ok (s', t')) : t'.Reachable admits := by
  unfold effect at h
  split at h
  · cases h
  · obtain ⟨-, rfl⟩ := Prod.mk.inj (Except.ok.inj h)
    exact ht
  next i hi =>
    refine Instruction.reachable_effect ht (fun n hn => hline n ?_) h
    exact isField_of_store (hn ▸ hi)

end Effect

namespace Machine

variable {L : Limits} {m m' : Machine} {admits : Name → Prop}

theorem reachable_after_execute {line : Bytes} (hm : m.stack.Bounded)
    (ht : m.table.Reachable admits) (hline : ∀ n : Name, n.Storable line.length → admits n) :
    (m.after (execute line)).table.Reachable admits := by
  have hends := execute_ends line hm
  unfold after
  split
  next m' h =>
    rw [h] at hends
    exact Line.reachable_effect ht hline hends.of_ok.2
  next c m' h =>
    rw [h] at hends
    rw [hends.of_error.1.table_eq]
    exact ht

/-- The machines that a new one becomes by running inputs and being reset. The surroundings may
become anything between two runs, and between two lines of a run as well. -/
inductive InService (L : Limits) : Machine → Prop where
  | new : InService L (new L)
  | surroundings {m m' : Machine} : InService L m → SameCore m m' → InService L m'
  | step {m : Machine} (count : Nat) (input : Source) : InService L m →
      InService L (step count input m).machine
  | run {m : Machine} (input : Source) : InService L m → InService L (run input m).machine
  | reset {m : Machine} : InService L m → InService L m.reset.2

/-- The machine has the limits `L` and a stack within them, and admits the names in its table. -/
structure Within (L : Limits) (admits : Name → Prop) (m : Machine) : Prop where
  limits_eq : m.limits = L
  capacity_eq : m.stack.capacity = L.stackCapacity.toNat
  bounded : m.stack.Bounded
  names : m.table.Reachable admits

namespace Within

theorem new (L : Limits) (admits : Name → Prop) : (new L).Within L admits :=
  ⟨rfl, rfl, Nat.zero_le _, .empty⟩

theorem sameCore (hc : SameCore m m') (h : m.Within L admits) : m'.Within L admits where
  limits_eq := hc.limits_eq.trans h.limits_eq
  capacity_eq := by rw [hc.stack_eq, h.capacity_eq]
  bounded := by rw [hc.stack_eq]; exact h.bounded
  names := by rw [hc.table_eq]; exact h.names

theorem execute {line : Bytes} (hline : ∀ n : Name, n.Storable line.length → admits n)
    (h : m.Within L admits) : (m.after (execute line)).Within L admits where
  limits_eq := (capacity_after_execute line h.bounded).1.trans h.limits_eq
  capacity_eq := (capacity_after_execute line h.bounded).2.trans h.capacity_eq
  bounded := bounded_after_execute line h.bounded
  names := reachable_after_execute h.bounded h.names hline

theorem reset (h : m.Within L admits) : m.reset.2.Within L admits :=
  ⟨h.limits_eq, h.capacity_eq, Nat.zero_le _, h.names.clear⟩

/-- Nothing is left on the stack and in the table, not even free places. -/
theorem core_reset (h : m.Within L admits) : SameCore (Machine.new L) m.reset.2 where
  limits_eq := h.limits_eq
  stack_eq := congrArg (Stack.mk · []) h.capacity_eq
  table_eq := by
    change m.table.clear.2 = {}
    rw [h.names.wellFormed.clear_eq]

end Within

theorem Reachable.within (h : Reachable L m) : m.Within L fun _ => True :=
  invariant_of_reachable (fun _ _ => Within.sameCore) (fun _ _ => Within.execute fun _ _ => trivial)
    (.new L _) (fun _ => Within.reset) h

theorem InService.within (h : InService L m) :
    m.Within L (Name.Storable L.maxLineLength.toNat) := by
  have hkept : Kept (Within L (Name.Storable L.maxLineLength.toNat)) :=
    kept_of_sameCore fun _ _ => Within.sameCore
  have hexec (m : Machine) (line : Bytes) (hlen : line.length ≤ m.limits.maxLineLength.toNat)
      (h : m.Within L (Name.Storable L.maxLineLength.toNat)) :
      (m.after (execute line)).Within L (Name.Storable L.maxLineLength.toNat) :=
    h.execute fun n hn => hn.mono (h.limits_eq ▸ hlen)
  induction h with
  | new => exact .new L _
  | surroundings _ hc ih => exact ih.sameCore hc
  | step count input _ ih => exact step_preserves hkept hexec count input ih
  | run input _ ih => exact runLines_preserves hkept hexec _ 0 input ih
  | reset _ ih => exact ih.reset

theorem Within.admits_of_get? {n : Name} {v : Int32} (h : m.Within L admits)
    (hn : m.table.get? n = some v) : admits n := by
  have hw := h.names.wellFormed
  rw [hw.get?_eq, Tree.get?_eq_some_iff hw.ordered] at hn
  exact Tree.all_iff.1 h.names.all_names (n, v) hn

theorem Within.store_mem_lines {k : Sink} (h : m.Within L (Name.Storable L.maxLineLength.toNat))
    (hk : k.bytes = Bytes.unlines (script m.table.toTree.levels)) (n : Name) :
    (Instruction.store n).text ∈ k.bytes.lines ↔ ∃ v, m.table.get? n = some v := by
  have hw := h.names.wellFormed
  have hes : ∀ e ∈ m.table.toTree.levels, Bytes.IsField e.1 := fun e he => (h.names.levels e he).1
  have hlines : k.bytes.lines = script m.table.toTree.levels := hk ▸ lines_rest_script hes
  simp only [hlines, store_mem_script, Tree.mem_levels, hw.get?_eq,
    Tree.get?_eq_some_iff hw.ordered]

/-- A machine in service has the limits it was made with and a stack within its capacity. The names
it has bound are fields and fit into a line, and so does every line of its saved table that stores
one of them. -/
theorem inService_keeps_limits (h : InService L m) :
    m.stack.size ≤ L.stackCapacity.toNat ∧ m.limits = L ∧ m.stack.capacity = L.stackCapacity.toNat ∧
      (∀ n v, m.table.get? n = some v → Bytes.IsField n ∧ 6 + n.length ≤ L.maxLineLength.toNat) ∧
      ∃ k, m.table.encode {} = .ok m.table.size k ∧
        (∀ n v, m.table.get? n = some v → (Instruction.store n).text ∈ k.bytes.lines) ∧
        ∀ n, (Instruction.store n).text ∈ k.bytes.lines →
          (Instruction.store n).text.length ≤ L.maxLineLength.toNat := by
  have hm := h.within
  obtain ⟨k, hk, hbytes⟩ := hm.names.wellFormed.encode_script
  have hmem := hm.store_mem_lines hbytes
  refine ⟨?_, hm.limits_eq, hm.capacity_eq, fun n v hn => hm.admits_of_get? hn, k, hk, ?_, ?_⟩
  · rw [← hm.capacity_eq]
    exact hm.bounded
  · intro n v hn
    exact (hmem n).2 ⟨v, hn⟩
  · intro n hn
    obtain ⟨v, hv⟩ := (hmem n).1 hn
    rw [Instruction.length_text_store]
    exact (hm.admits_of_get? hv).2

open Bytes (ascii) in
/-- The first run stops in the middle of a line of blanks that is too long, and the second goes on
from there with what is left, which just fits. -/
theorem limits_kept_amid_long_line :
    let L : Limits := { stackCapacity := 1, maxLineLength := 7, maxInstructions := 2 }
    let o := run (.ofBytes (ascii "push 5\n        store b\n")) (new L)
    let m := (run o.input o.machine).machine
    o.result = .error ((Cause.lineTooLong 7).atLine 2) ∧ InService L m ∧
      m.table.get? (ascii "b") = some 5 ∧ Bytes.IsField (ascii "b") ∧ 6 + (ascii "b").length ≤ 7 := by
  intro L o m
  have hm : InService L m := .run _ (.run _ .new)
  have hget : m.table.get? (ascii "b") = some 5 := by decide
  obtain ⟨-, -, -, hnames, -⟩ := inService_keeps_limits hm
  exact ⟨by decide, hm, hget, hnames (ascii "b") 5 hget⟩

end Machine

end StackCalc
