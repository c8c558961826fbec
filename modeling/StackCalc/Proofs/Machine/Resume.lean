import StackCalc.Proofs.Machine.Stopping
import StackCalc.Proofs.Machine.Twins
import StackCalc.Proofs.Machine.Upkeep

/-! # Going on where a run has stopped

A run that stops at a line that fails has read that line to its end, and one that stops at a line
too many has read nothing of it. So the next run on the same input begins with the line that is due,
and if no line is too long, going on again and again gets every line executed once, in order, as if
failures did not matter.
-/

namespace StackCalc

namespace Bytes

theorem lines_drop_extent_eq (s : Bytes) (j : Nat) :
    lines (s.drop (extent s j)) = s.lines.drop j := by
  induction j generalizing s with
  | zero => rw [extent_zero, List.drop_zero, List.drop_zero]
  | succ j ih =>
    cases hs : s.lines with
    | nil =>
      rw [lines_eq_nil_iff.1 hs, List.drop_nil]
      rfl
    | cons l ls =>
      rw [extent_succ hs, ← List.drop_drop, ih, lines_drop_extent hs, List.drop_succ_cons]

end Bytes

namespace Machine

variable {L : Limits} {m m' m'' : Machine} {input : Source} {ls : List Bytes} {o : Outcome}

/-- Runs on one input, each from where the one before has stopped, until one of them succeeds. It is
the last of `calls`, and ends with `o`. -/
inductive Resumed : Source → Machine → (calls : Nat) → Outcome → Prop where
  | done {input : Source} {m : Machine} {k : Nat} : (run input m).result = .ok k →
      Resumed input m 1 (run input m)
  | again {input : Source} {m : Machine} {e : Error} {calls : Nat} {o : Outcome} :
      (run input m).result = .error e →
      Resumed (run input m).input (run input m).machine calls o → Resumed input m (calls + 1) o

/-- Executes the lines in turn, whether or not they fail. -/
def afterAll (m : Machine) (ls : List Bytes) : Machine :=
  ls.foldl (fun m l => m.after (execute l)) m

/-- The machines differ at most in what they have told. -/
abbrev Akin : Machine → Machine → Prop := Twin Eq Eq

theorem Akin.refl (m : Machine) : Akin m m := ⟨.refl m, rfl, rfl, rfl⟩

theorem Akin.trans (h : Akin m m') (h' : Akin m' m'') : Akin m m'' :=
  ⟨h.sameCore.trans h'.sameCore, h'.files_eq.trans h.files_eq, h.out.trans h'.out,
    h.err.trans h'.err⟩

theorem Akin.execute (h : Akin m m') (hm : m.stack.Bounded) (line : Bytes) :
    Alike Akin (execute line m) (execute line m') :=
  Twin.execute Sink.matching_eq Sink.matching_eq h hm line

theorem Akin.afterAll (h : Akin m m') (hm : m.stack.Bounded) (ls : List Bytes) :
    Akin (m.afterAll ls) (m'.afterAll ls) := by
  induction ls generalizing m m' with
  | nil => exact h
  | cons l ls ih => exact ih (twin_after (h.execute hm l)) (bounded_after_execute l hm)

theorem bounded_afterAll (hm : m.stack.Bounded) (ls : List Bytes) :
    (m.afterAll ls).stack.Bounded := by
  induction ls generalizing m with
  | nil => exact hm
  | cons l ls ih => exact ih (bounded_after_execute l hm)

theorem afterAll_append (m : Machine) (as bs : List Bytes) :
    m.afterAll (as ++ bs) = (m.afterAll as).afterAll bs :=
  List.foldl_append

theorem afterAll_of_forM_ok (h : ls.forM execute m = .ok () m') : m.afterAll ls = m' := by
  induction ls generalizing m with
  | nil => exact (EStateM.Result.ok.inj h).2
  | cons l ls ih =>
    obtain ⟨m₁, hx, h⟩ := forM_execute_cons_eq_ok.1 h
    have hl : m.after (execute l) = m₁ := by rw [after, hx]
    rw [afterAll, List.foldl_cons, hl]
    exact ih h

structure Reaches (input : Source) (m : Machine) (j : Nat) (o : Outcome) : Prop where
  input_eq : o.input = input.skip (input.rest.extent j)
  machine : Akin (m.afterAll (input.rest.lines.take j)) o.machine

/-- A run without long lines gets to the end, or it stops behind some lines, at least one. -/
theorem run_reaches (hL : m.limits.ReadsLines) (hr : input.Whole) (hm : m.stack.Bounded)
    (hmost : 1 ≤ m.limits.maxInstructions.toNat)
    (hlen : ∀ l ∈ input.rest.lines, l.length ≤ m.limits.maxLineLength.toNat) :
    (∃ k, (run input m).result = .ok k ∧
      Akin (m.afterAll input.rest.lines) (run input m).machine) ∨
    ∃ e j, (run input m).result = .error e ∧ 0 < j ∧ j ≤ input.rest.lines.length ∧
      Reaches input m j (run input m) := by
  obtain ⟨m', hc, hrun⟩ | ⟨j, l, m', hj, hc, hs⟩ := run_completes_or_stops hL hr hm
  · left
    rw [hrun, afterAll_of_forM_ok hc.executes]
    exact ⟨_, rfl, (Akin.refl m').emit_right _⟩
  · right
    obtain ⟨hlt, rfl⟩ := List.getElem?_eq_some_iff.1 hj
    have hbefore := afterAll_of_forM_ok hc.executes
    generalize run input m = o at hs
    cases hs with
    | excess hexcess =>
      refine ⟨_, j, rfl, by omega, hlt.le, rfl, ?_⟩
      rw [hbefore]
      exact (Akin.refl m').emit_right _
    | tooLong _ hlong =>
      have := hlen _ (List.getElem_mem hlt)
      omega
    | @failed c m₁ _ _ hx _ =>
      have hl : m'.after (execute input.rest.lines[j]) = m₁ := by rw [after, hx]
      refine ⟨_, j + 1, rfl, Nat.succ_pos j, hlt, rfl, ?_⟩
      rw [← List.take_append_getElem hlt, afterAll_append, hbefore]
      change Akin (m'.after (execute input.rest.lines[j])) _
      rw [hl]
      exact (Akin.refl m₁).emit_right _

theorem Reaches.lines_rest {j : Nat} (h : Reaches input m j o) :
    o.input.rest.lines = input.rest.lines.drop j := by
  rw [h.input_eq]
  exact Bytes.lines_drop_extent_eq _ _

theorem exists_resumed (hL : L.Bufferable) (hm : Reachable L m) (hr : input.Whole)
    (hmost : 1 ≤ L.maxInstructions.toNat)
    (hlen : ∀ l ∈ input.rest.lines, l.length ≤ L.maxLineLength.toNat) :
    ∃ calls o, calls ≤ input.rest.lines.length + 1 ∧ Resumed input m calls o ∧
      Akin (m.afterAll input.rest.lines) o.machine := by
  induction hn : input.rest.lines.length using Nat.strongRecOn generalizing input m with
  | ind n ih =>
    have hlim := hm.within.limits_eq
    obtain ⟨k, hres, hakin⟩ | ⟨e, j, hres, hpos, hle, hreach⟩ :=
      run_reaches (hlim.symm ▸ hL.readsLines) hr hm.bounded (hlim.symm ▸ hmost) (hlim.symm ▸ hlen)
    · exact ⟨1, run input m, Nat.le_add_left 1 n, .done hres, hakin⟩
    · -- At least one line is done, so fewer are left for the runs that follow.
      have hleft := hreach.lines_rest
      have hlength : (run input m).input.rest.lines.length = n - j := by
        rw [hleft, List.length_drop, hn]
      have hwhole : (run input m).input.Whole := hreach.input_eq ▸ hr.skip _
      obtain ⟨calls, o, hcalls, hresumed, hakin⟩ := ih (n - j) (by omega) (.run input hm) hwhole
        (fun l hl => hlen l (List.mem_of_mem_drop (hleft ▸ hl))) hlength
      refine ⟨calls + 1, o, by omega, .again hres hresumed, ?_⟩
      have hsplit : m.afterAll input.rest.lines =
          (m.afterAll (input.rest.lines.take j)).afterAll (input.rest.lines.drop j) := by
        rw [← afterAll_append, List.take_append_drop]
      rw [hsplit, ← hleft]
      exact (hreach.machine.afterAll (bounded_afterAll hm.bounded _) _).trans hakin

end Machine

end StackCalc
