import StackCalc.Proofs.Machine.Interrupted
import StackCalc.Proofs.Machine.Resume

/-! # Inputs in succession

A machine that runs one input and then another goes the same way as if they were one: the lines of
the second are executed on what the first has left, and only their numbers are others. What shows
that there were two inputs is that the end of the first is told, and that makes no difference to the
machine's work.
-/

namespace StackCalc

open Bytes (newline)

theorem Bytes.lines_append_of_ended {a : Bytes} (ha : a = [] ∨ a.getLast? = some newline)
    (b : Bytes) : lines (a ++ b) = lines a ++ lines b := by
  induction a using line_induction with
  | last a hn =>
    obtain rfl : a = [] := by
      rcases ha with rfl | ha
      · rfl
      · exact absurd (List.mem_of_getLast? ha) hn
    rfl
  | line l a hl ih =>
    have ha' : a = [] ∨ a.getLast? = some newline := by
      rcases ha with ha | ha
      · simp at ha
      · cases a with
        | nil => exact .inl rfl
        | cons c a => exact .inr (by simpa using ha)
    rw [List.append_assoc, List.cons_append, lines_append hl, lines_append hl, ih ha',
      List.cons_append]

namespace Machine

variable {L : Limits} {m m' : Machine} {a b : Bytes} {ls : List Bytes}

theorem Akin.forM (h : Akin m m') (hm : m.stack.Bounded) (ls : List Bytes) :
    Alike Akin (ls.forM Machine.execute m) (ls.forM Machine.execute m') := by
  induction ls generalizing m m' with
  | nil => exact .ok h
  | cons l ls ih =>
    have hx := h.execute hm l
    rw [forM_execute_cons, forM_execute_cons]
    generalize hr : Machine.execute l m = r at hx
    generalize Machine.execute l m' = r' at hx
    cases hx with
    | ok h => exact ih h (bounded_of_execute_ok hm hr).2
    | error h => exact .error h

theorem Akin.completes {left : Nat} {m₁ : Machine} (h : Akin m m') (hm : m.stack.Bounded)
    (hc : Completes left ls m' m₁) : ∃ m₂, Completes left ls m m₂ ∧ Akin m₂ m₁ := by
  have hx := h.forM hm ls
  rw [hc.executes] at hx
  generalize hr : ls.forM Machine.execute m = r at hx
  cases hx with
  | ok h₂ => exact ⟨_, ⟨hc.length_le, h.sameCore.limits_eq ▸ hc.lines_le, hr⟩, h₂⟩

/-- The second outcome is the first with the lines counted on from `j`. -/
structure Outcome.CountedOn (j : Nat) (o o' : Outcome) : Prop where
  stack_eq : o'.machine.stack = o.machine.stack
  table_eq : o'.machine.table = o.machine.table
  files_eq : o'.machine.files = o.machine.files
  out_eq : o'.machine.out = o.machine.out
  ok : ∀ k, o.result = .ok k → o'.result = .ok (j + k)
  error : ∀ e, o.result = .error e →
    ∃ line, e.line = some line ∧ o'.result = .error { e with line := some (j + line) }

theorem countedOn_ok {j k : Nat} {input input' : Source} (h : Akin m' m) :
    Outcome.CountedOn j ⟨.ok k, input, m⟩ ⟨.ok (j + k), input', m'⟩ where
  stack_eq := h.sameCore.stack_eq.symm
  table_eq := h.sameCore.table_eq.symm
  files_eq := h.files_eq.symm
  out_eq := h.out
  ok := by
    rintro _ ⟨⟩
    rfl
  error := nofun

theorem countedOn_error {j line : Nat} {input input' : Source} (h : Akin m' m) (c : Cause) :
    Outcome.CountedOn j ⟨.error (c.atLine line), input, m⟩
      ⟨.error (c.atLine (j + line)), input', m'⟩ where
  stack_eq := h.sameCore.stack_eq.symm
  table_eq := h.sameCore.table_eq.symm
  files_eq := h.files_eq.symm
  out_eq := h.out
  ok := nofun
  error := by
    rintro _ ⟨⟩
    exact ⟨line, rfl, rfl⟩

theorem run_append_of_error {e : Error} (hL : m.limits.ReadsLines) (hm : m.stack.Bounded)
    (ha : a = [] ∨ a.getLast? = some newline) (h : (run (.ofBytes a) m).result = .error e) :
    (run (.ofBytes (a ++ b)) m).result = .error e ∧
      (run (.ofBytes (a ++ b)) m).machine = (run (.ofBytes a) m).machine := by
  have hlines := Bytes.lines_append_of_ended ha b
  obtain ⟨m₁, -, hrun⟩ | ⟨j, l, m₁, hj, hc, hs⟩ :=
    run_completes_or_stops hL (Source.whole_ofBytes a) hm
  · rw [hrun] at h
    cases h
  · have hlt : j < a.lines.length := (List.getElem?_eq_some_iff.1 hj).1
    rw [← h]
    refine run_of_stops (j := j) (l := l) hL (Source.whole_ofBytes _) hm ?_ ?_ hs
    · change (a ++ b).lines[j]? = some l
      rw [hlines, List.getElem?_append_left hlt]
      exact hj
    · change Completes _ ((a ++ b).lines.take j) m m₁
      rw [hlines, List.take_append_of_le_length hlt.le]
      exact hc

theorem Outcome.CountedOn.congr {j : Nat} {o o' o'' : Outcome} (h : CountedOn j o o')
    (ho : o''.result = o'.result ∧ o''.machine = o'.machine) : CountedOn j o o'' := by
  obtain ⟨hresult, hmachine⟩ := ho
  constructor
  · rw [hmachine, h.stack_eq]
  · rw [hmachine, h.table_eq]
  · rw [hmachine, h.files_eq]
  · rw [hmachine, h.out_eq]
  · rw [hresult]
    exact h.ok
  · rw [hresult]
    exact h.error

/-- Behind lines that complete, the others are run as on a machine of their own. -/
theorem Completes.countedOn_run {m₁ : Machine} (hL : m.limits.ReadsLines) (hm : m.stack.Bounded)
    (ha : a = [] ∨ a.getLast? = some newline)
    (hlen : a.lines.length + b.lines.length ≤ m.limits.maxInstructions.toNat)
    (hc : Completes m.limits.maxInstructions.toNat a.lines m m₁) (hp : Akin m₁ m') :
    Outcome.CountedOn a.lines.length (run (.ofBytes b) m') (run (.ofBytes (a ++ b)) m) := by
  have hlines : (Source.ofBytes (a ++ b)).rest.lines = a.lines ++ b.lines :=
    Bytes.lines_append_of_ended ha b
  obtain ⟨hlim, hm₁⟩ := hc.bounded hm
  have hlim' : m'.limits = m.limits := hp.sameCore.limits_eq.trans hlim
  have hm' : m'.stack.Bounded := hp.sameCore.stack_eq ▸ hm₁
  have hwhole := Source.whole_ofBytes (a ++ b)
  -- The lines that the second run gets done complete behind those of the first.
  have hcount {i : Nat} {m₂ : Machine}
      (hc₂ : Completes m.limits.maxInstructions.toNat (b.lines.take i) m₁ m₂) :
      Completes m.limits.maxInstructions.toNat (a.lines ++ b.lines.take i) m m₂ := by
    refine (completes_append hm).2 ⟨?_, m₁, hc, hc₂⟩
    rw [List.length_take]
    omega
  have hrun := run_completes_or_stops (hlim'.symm ▸ hL) (Source.whole_ofBytes b) hm'
  rw [hlim'] at hrun
  obtain ⟨m₂', hc₂', hrun⟩ | ⟨i, l, m₂', hi, hc₂', hs⟩ := hrun
  · obtain ⟨m₂, hc₂, hp₂⟩ := hp.completes hm₁ hc₂'
    have hall := hcount (i := b.lines.length) (by rwa [List.take_length])
    rw [List.take_length, ← hlines] at hall
    rw [hrun, run_of_completes hL hwhole hm hall, hlines, List.length_append]
    exact countedOn_ok (hp₂.emit _ _)
  · obtain ⟨m₂, hc₂, hp₂⟩ := hp.completes hm₁ hc₂'
    have hlt : i < b.lines.length := (List.getElem?_eq_some_iff.1 hi).1
    have hne : a.lines.length + i ≠ m.limits.maxInstructions.toNat := by omega
    have hi' : (Source.ofBytes (a ++ b)).rest.lines[a.lines.length + i]? = some l := by
      rw [hlines, List.getElem?_append_right (Nat.le_add_right _ _), Nat.add_sub_cancel_left]
      exact hi
    have htake : (Source.ofBytes (a ++ b)).rest.lines.take (a.lines.length + i) =
        a.lines ++ b.lines.take i := by
      rw [hlines, List.take_length_add_append]
    have hstop {o : Outcome} (h : Stops m.limits m.limits.maxInstructions.toNat
        (a.lines.length + i) l (a.lines.length + i + 1) (.ofBytes (a ++ b)) m₂ o) :=
      run_of_stops hL hwhole hm hi' (htake ▸ hcount hc₂) h
    generalize run (.ofBytes b) m' = second at hs
    cases hs with
    | excess hexcess => omega
    | tooLong _ hlong =>
      exact (countedOn_error (hp₂.emit _ _) _).congr (hstop (.tooLong hne hlong))
    | @failed c m₃' _ hle hx _ =>
      have hx₂ := hp₂.execute ((hcount hc₂).bounded hm).2 l
      rw [hx] at hx₂
      generalize hr : execute l m₂ = r at hx₂
      cases hx₂ with
      | error hp₃ =>
        exact (countedOn_error (hp₃.emit _ _) c).congr (hstop (.failed hne hle hr rfl))

theorem run_append_of_ok {j : Nat} (hL : m.limits.ReadsLines) (hm : m.stack.Bounded)
    (ha : a = [] ∨ a.getLast? = some newline)
    (hlen : a.lines.length + b.lines.length ≤ m.limits.maxInstructions.toNat)
    (h : (run (.ofBytes a) m).result = .ok j) :
    Outcome.CountedOn j (run (.ofBytes b) (run (.ofBytes a) m).machine)
      (run (.ofBytes (a ++ b)) m) := by
  obtain ⟨m₁, hc, hrun⟩ | ⟨j, l, m₁, -, -, hs⟩ :=
    run_completes_or_stops hL (Source.whole_ofBytes a) hm
  · rw [hrun] at h ⊢
    obtain rfl : a.lines.length = j := Except.ok.inj h
    exact hc.countedOn_run hL hm ha hlen ((Akin.refl m₁).emit_right _)
  · exact absurd h hs.result_ne_ok

/-- Two inputs of which the first ends with its last line come to the same in succession as in one
piece, as long as there are not too many lines. If the first fails, so does the whole, in the same
way; otherwise the second decides, with its lines counted on from those of the first. -/
theorem runs_in_succession (hm : Reachable L m) (ha : a = [] ∨ a.getLast? = some newline)
    (hlen : a.lines.length + b.lines.length ≤ L.maxInstructions.toNat) :
    let first := run (.ofBytes a) m
    let second := run (.ofBytes b) first.machine
    let both := run (.ofBytes (a ++ b)) m
    (∀ j, first.result = .ok j → second.CountedOn j both) ∧
      ∀ e, first.result = .error e → both.result = .error e ∧ both.machine = first.machine := by
  intro first second both
  have hlim := hm.within.limits_eq
  by_cases hL : m.limits.ReadsLines
  · constructor
    · intro j h
      exact run_append_of_ok hL hm.bounded ha (hlim.symm ▸ hlen) h
    · intro e h
      exact run_append_of_error hL hm.bounded ha h
  · -- No line is read, of either input or of both.
    have hfirst : first = finish 0 (.ofBytes a) m := run_of_not_readsLines hL _
    have hsecond : second = finish 0 (.ofBytes b) (finish 0 (.ofBytes a) m).machine := by
      rw [← hfirst]
      exact run_of_not_readsLines (by rwa [hfirst]) _
    have hboth : both = finish 0 (.ofBytes (a ++ b)) m := run_of_not_readsLines hL _
    constructor
    · intro j h
      rw [hfirst] at h
      obtain rfl : 0 = j := Except.ok.inj h
      rw [hsecond, hboth]
      exact countedOn_ok (((Akin.refl m).emit_right _).emit _ _)
    · intro e h
      rw [hfirst] at h
      cases h

open Bytes (ascii) in
/-- The second line of the second input is the fourth of both. It divides by zero, and what has been
printed before stays. -/
theorem runs_in_succession_to_division :
    let m := new {}
    let a := ascii "push 0\npush 7\n"
    let b := ascii "print\n/"
    let second := run (.ofBytes b) (run (.ofBytes a) m).machine
    let both := run (.ofBytes (a ++ b)) m
    Reachable {} m ∧ (run (.ofBytes a) m).result = .ok 2 ∧
      second.result = .error (Cause.divisionByZero.atLine 2) ∧
      both.result = .error (Cause.divisionByZero.atLine 4) ∧
      both.machine.out.bytes = ascii "7\n0\n" ∧ both.machine.stack.items = [7, 0] := by
  intro m a b second both
  have hm : Reachable {} m := .new
  have hfirst : (run (.ofBytes a) m).result = .ok 2 := by decide +kernel
  have hsecond : second.result = .error (Cause.divisionByZero.atLine 2) := by decide +kernel
  have h := (runs_in_succession (b := b) hm (.inr (by decide)) (by decide)).1 2 hfirst
  obtain ⟨line, hline, hboth⟩ := h.error _ hsecond
  cases hline
  refine ⟨hm, hfirst, hsecond, hboth, ?_, ?_⟩
  · rw [h.out_eq]
    decide +kernel
  · rw [h.stack_eq]
    decide +kernel

end Machine

end StackCalc
