import StackCalc.Proofs.Machine.Effect

/-! # Machines in use

A machine is used by executing lines, running inputs and resetting it, in any order; between two
uses its surroundings may become anything. What holds of a new machine and is preserved by a line
and by a reset holds throughout, since a run is made of lines.

A failed line changes neither stack nor table, and touches nothing outside the machine unless it is
the output or a file that failed.
-/

namespace StackCalc

def Line.effect (l : Line) (s : Stack) (t : Table) : Except Cause (Stack × Table) :=
  match l.instruction? with
  | .error c => .error c
  | .ok none => .ok (s, t)
  | .ok (some i) => i.effect s t

theorem Line.bounded_effect {l : Line} {s s' : Stack} {t t' : Table} (hs : s.Bounded)
    (h : l.effect s t = .ok (s', t')) : s'.Bounded ∧ s'.capacity = s.capacity := by
  unfold effect at h
  split at h
  · cases h
  · obtain ⟨rfl, -⟩ := Prod.mk.inj (Except.ok.inj h)
    exact ⟨hs, rfl⟩
  · exact Instruction.bounded_effect hs h

theorem Opcode.instruction_eq_error {op : Opcode} {arguments : List Bytes} {c : Cause}
    (h : op.instruction arguments = .error c) : c.code.kind = .syntactic := by
  unfold instruction at h
  split at h
  case h_1 field =>
    split at h
    · cases h
    · obtain rfl := Except.error.inj h
      rfl
  case h_13 =>
    obtain rfl := Except.error.inj h
    rfl
  all_goals cases h

theorem Line.instruction?_eq_error {l : Line} {c : Cause} (h : l.instruction? = .error c) :
    c.code.kind = .syntactic := by
  rw [instruction?] at h
  split at h
  · cases h
  next word arguments _ =>
    split at h
    · obtain rfl := Except.error.inj h
      rfl
    next op _ =>
      cases ho : op.instruction arguments with
      | error c' =>
        obtain rfl : c' = c := by simpa [ho, Except.map] using h
        exact Opcode.instruction_eq_error ho
      | ok i => simp [ho, Except.map] at h

namespace Machine

variable {L : Limits} {m m' : Machine} {c : Cause} {line : Bytes}

theorem execute_ends (line : Bytes) (hm : m.stack.Bounded) :
    Ends m ((Line.ofBytes line).effect m.stack m.table) (execute line m) := by
  unfold execute Line.effect
  rcases h : (Line.ofBytes line).instruction? with c | _ | i
  · refine .unchanged rfl ?_
    rw [Line.instruction?_eq_error h]
    decide
  · exact (SameCore.refl m).ends
  · exact (perform_ends i (m := m.emit _) hm).after_emit

theorem bounded_of_execute_ok {u : Unit} (hm : m.stack.Bounded) (h : execute line m = .ok u m') :
    m'.limits = m.limits ∧ m'.stack.Bounded := by
  have he := execute_ends line hm
  rw [h] at he
  obtain ⟨hl, hr⟩ := he.of_ok
  exact ⟨hl, (Line.bounded_effect hm hr).1⟩

theorem sameCore_of_execute_error (hm : m.stack.Bounded) (h : execute line m = .error c m') :
    SameCore m m' ∧ (c.code.kind ≠ .io → Silent m m') := by
  have he := execute_ends line hm
  rw [h] at he
  exact he.of_error

def after (m : Machine) (a : Action Unit) : Machine :=
  match a m with
  | .ok _ m' => m'
  | .error _ m' => m'

theorem bounded_after_execute (line : Bytes) (hm : m.stack.Bounded) :
    (m.after (execute line)).stack.Bounded := by
  unfold after
  split
  next m' h => exact (bounded_of_execute_ok hm h).2
  next c m' h =>
    rw [(sameCore_of_execute_error hm h).1.stack_eq]
    exact hm

theorem capacity_after_execute (line : Bytes) (hm : m.stack.Bounded) :
    (m.after (execute line)).limits = m.limits ∧
      (m.after (execute line)).stack.capacity = m.stack.capacity := by
  have hends := execute_ends line hm
  unfold after
  split
  next m' h =>
    rw [h] at hends
    exact ⟨hends.of_ok.1, (Line.bounded_effect hm hends.of_ok.2).2⟩
  next c m' h =>
    rw [h] at hends
    obtain ⟨hc, -⟩ := hends.of_error
    exact ⟨hc.limits_eq, congrArg Stack.capacity hc.stack_eq⟩

/-- The machines that a new one can become. -/
inductive Reachable (L : Limits) : Machine → Prop where
  | new : Reachable L (new L)
  | surroundings {m m' : Machine} : Reachable L m → SameCore m m' → Reachable L m'
  | execute {m : Machine} (line : Bytes) : Reachable L m → Reachable L (m.after (execute line))
  | run {m : Machine} (input : Source) : Reachable L m → Reachable L (run input m).machine
  | reset {m : Machine} : Reachable L m → Reachable L m.reset.2

def Step.machine : Step → Machine
  | next _ m => m
  | halt o => o.machine

/-- What a run does between its lines leaves `P` true: it fetches input and tells about its work. -/
structure Kept (P : Machine → Prop) : Prop where
  emit : ∀ {m : Machine} (e : Event), P m → P (m.emit e)
  supply : ∀ {m : Machine} (limit : Nat) (input : Source), P m → P (supply limit input m).2

section Invariant

variable {P : Machine → Prop}

theorem kept_of_sameCore (hcore : ∀ m m', SameCore m m' → P m → P m') : Kept P where
  emit e := hcore _ _ (sameCore_emit _ e)
  supply _ _ := hcore _ _ ⟨rfl, rfl, rfl⟩

theorem Kept.expectEnd (hkept : Kept P) (count : Nat) (input : Source) (hm : P m) :
    P (expectEnd count input m).machine := by
  have hs := hkept.supply 1 input hm
  unfold Machine.expectEnd
  dsimp only
  split
  · exact hs
  · exact hkept.emit _ hs
  · exact hkept.emit _ hs

variable (hkept : Kept P)
  (hexec : ∀ m line, line.length ≤ m.limits.maxLineLength.toNat → P m → P (m.after (execute line)))
include hkept hexec

theorem executeLine_preserves (count : Nat) (content : Bytes) (input : Source) (hm : P m) :
    P (executeLine count content input m).machine := by
  unfold executeLine
  dsimp only
  split
  · exact hkept.emit _ hm
  next hlen =>
    have h := hexec m content (Nat.le_of_not_lt hlen) hm
    unfold after at h
    generalize execute content m = r at h
    cases r with
    | ok _ m' => exact h
    | error c m' => exact hkept.emit _ h

theorem step_preserves (count : Nat) (input : Source) (hm : P m) :
    P (step count input m).machine := by
  have hs := hkept.supply m.limits.reading input hm
  unfold step
  dsimp only
  split
  · exact hs
  · exact hkept.emit _ hs
  · exact executeLine_preserves hkept hexec count _ _ hs

theorem runLines_preserves (left count : Nat) (input : Source) (hm : P m) :
    P (runLines left count input m).machine := by
  induction left generalizing count input m with
  | zero => exact hkept.expectEnd count input hm
  | succ left ih =>
    have hs := step_preserves hkept hexec count input hm
    rw [runLines]
    cases h : step count input m with
    | next input' m' =>
      rw [h] at hs
      exact ih _ _ hs
    | halt o =>
      rw [h] at hs
      exact hs

omit hkept hexec in
/-- What holds of a new machine and is kept by lines, resets and surroundings always holds. -/
theorem invariant_of_reachable (hcore : ∀ m m', SameCore m m' → P m → P m')
    (hexec : ∀ m line, P m → P (m.after (execute line))) (hnew : P (new L))
    (hreset : ∀ m, P m → P m.reset.2) (h : Reachable L m) : P m := by
  induction h with
  | new => exact hnew
  | surroundings _ hc ih => exact hcore _ _ hc ih
  | execute line _ ih => exact hexec _ line ih
  | run input _ ih =>
    exact runLines_preserves (kept_of_sameCore hcore) (fun m line _ => hexec m line) _ 0 input ih
  | reset _ ih => exact hreset _ ih

end Invariant

theorem kept_bounded : Kept fun m => m.stack.Bounded :=
  kept_of_sameCore fun _ _ hc hm => by rwa [hc.stack_eq]

theorem bounded_step (count : Nat) (input : Source) (hm : m.stack.Bounded) :
    (step count input m).machine.stack.Bounded :=
  step_preserves kept_bounded (fun _ line _ => bounded_after_execute line) count input hm

theorem bounded_run (input : Source) (hm : m.stack.Bounded) :
    (run input m).machine.stack.Bounded :=
  runLines_preserves kept_bounded (fun _ line _ => bounded_after_execute line) _ 0 input hm

theorem Reachable.bounded (h : Reachable L m) : m.stack.Bounded := by
  refine invariant_of_reachable (P := fun m => m.stack.Bounded) ?_ ?_ ?_ ?_ h
  · intro m m' hc hm
    rwa [hc.stack_eq]
  · intro m line hm
    exact bounded_after_execute line hm
  · exact Nat.zero_le _
  · intro m _
    exact Nat.zero_le _

/-- A line that fails leaves stack and table as they were, and unless the output or a file is to
blame, nothing has been written and no file touched. -/
theorem execute_failure_atomic (hm : Reachable L m) (h : execute line m = .error c m') :
    m'.stack = m.stack ∧ m'.table = m.table ∧
      (c.code ∈ [.syntaxError, .illegalArgumentCount, .invalidNumber, .stackOverflow,
        .stackUnderflow, .divisionByZero] → m'.out = m.out ∧ m'.files = m.files) := by
  obtain ⟨hc, hs⟩ := sameCore_of_execute_error hm.bounded h
  refine ⟨hc.stack_eq, hc.table_eq, fun hcode => ?_⟩
  have hk : c.code.kind ≠ .io := by
    intro hk
    generalize c.code = code at hcode hk
    cases code <;> simp_all [Code.kind]
  exact ⟨(hs hk).out_eq, (hs hk).files_eq⟩

open Bytes (ascii) in
/-- Both operands are still there after a division by zero. -/
theorem quotient_failure_atomic :
    let m := ((new {}).after (execute (ascii "push 0"))).after (execute (ascii "push 7"))
    let m' := m.emit (.executing .div 2)
    Reachable {} m ∧ m.stack.items = [7, 0] ∧ execute (ascii "/") m = .error .divisionByZero m' ∧
      m'.stack = m.stack ∧ m'.table = m.table ∧ m'.out = m.out ∧ m'.files = m.files := by
  intro m m'
  have hm : Reachable {} m := .execute _ (.execute _ .new)
  have hx : execute (ascii "/") m = .error .divisionByZero m' := rfl
  obtain ⟨hs, ht, ho⟩ := execute_failure_atomic hm hx
  exact ⟨hm, rfl, hx, hs, ht, ho (by decide)⟩

end Machine

end StackCalc
