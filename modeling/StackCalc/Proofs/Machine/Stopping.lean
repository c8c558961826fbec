import Mathlib.Order.Bounds.Basic
import StackCalc.Proofs.Machine.Lines

/-! # Where a run stops

A run takes the lines of its input in turn. It stops at the first one that is one too many, or too
long, or fails, in this order if several are true of the line, and otherwise at the end of the
input. Everything about the outcome is known then: the error and the line it names, the machine,
and how much of the input has been read.

There are limits with which a run reads nothing at all, since what it would have to read of a line
cannot be counted. It then succeeds, whatever its input.
-/

namespace StackCalc

/-- A run reads its lines, if it may have any. -/
def Limits.ReadsLines (L : Limits) : Prop := L.maxInstructions.toNat = 0 ∨ L.reading ≠ 0

instance (L : Limits) : Decidable L.ReadsLines := inferInstanceAs (Decidable (_ ∨ _))

theorem Limits.Bufferable.readsLines {L : Limits} (h : L.Bufferable) : L.ReadsLines :=
  .inr h.reading_ne_zero

namespace Machine

variable {L : Limits} {m m' m₁ : Machine} {l : Bytes} {ls as : List Bytes}
  {left count line j : Nat} {input : Source} {o : Outcome}

structure Completes (left : Nat) (ls : List Bytes) (m m' : Machine) : Prop where
  length_le : ls.length ≤ left
  lines_le : ∀ l ∈ ls, l.length ≤ m.limits.maxLineLength.toNat
  executes : ls.forM execute m = .ok () m'

theorem completes_nil (left : Nat) (m : Machine) : Completes left [] m m :=
  ⟨Nat.zero_le _, nofun, rfl⟩

theorem forM_execute_cons (l : Bytes) (ls : List Bytes) (m : Machine) :
    (l :: ls).forM execute m =
      match execute l m with
      | .ok _ m₁ => ls.forM execute m₁
      | .error c m₁ => .error c m₁ := by
  change EStateM.bind (execute l) (fun _ => ls.forM execute) m = _
  unfold EStateM.bind
  cases execute l m <;> rfl

theorem forM_execute_cons_of_ok (h : execute l m = .ok () m₁) :
    (l :: ls).forM execute m = ls.forM execute m₁ := by
  rw [forM_execute_cons, h]

theorem forM_execute_cons_eq_ok : (l :: ls).forM execute m = .ok () m' ↔
    ∃ m₁, execute l m = .ok () m₁ ∧ ls.forM execute m₁ = .ok () m' := by
  rw [forM_execute_cons]
  cases execute l m with
  | ok u m₁ => simp
  | error c m₁ => simp

theorem completes_cons (hm : m.stack.Bounded) :
    Completes (left + 1) (l :: ls) m m' ↔
      l.length ≤ m.limits.maxLineLength.toNat ∧
        ∃ m₁, execute l m = .ok () m₁ ∧ Completes left ls m₁ m' := by
  constructor
  · rintro ⟨hlen, hle, hex⟩
    obtain ⟨hl, hls⟩ := List.forall_mem_cons.1 hle
    obtain ⟨m₁, h, hex⟩ := forM_execute_cons_eq_ok.1 hex
    have hlim := (bounded_of_execute_ok hm h).1
    exact ⟨hl, m₁, h, Nat.le_of_succ_le_succ hlen, hlim ▸ hls, hex⟩
  · rintro ⟨hl, m₁, h, hlen, hle, hex⟩
    have hlim := (bounded_of_execute_ok hm h).1
    refine ⟨Nat.succ_le_succ hlen, List.forall_mem_cons.2 ⟨hl, hlim ▸ hle⟩, ?_⟩
    exact forM_execute_cons_eq_ok.2 ⟨m₁, h, hex⟩

/-- What becomes of a run at the line `l`, the one after `j` others and the `line`th to be counted,
when it does not get past it. The lines before it have made `m` of the machine. -/
inductive Stops (L : Limits) (left j : Nat) (l : Bytes) (line : Nat) (input : Source)
    (m : Machine) : Outcome → Prop where
  /-- The line is one too many, and nothing of it has been read. -/
  | excess : j = left →
      Stops L left j l line input m
        ⟨.error ((Cause.tooManyInstructions L.maxInstructions.toNat).atLine line),
          input.skip (input.rest.extent j), m.emit (.tooManyInstructions L.maxInstructions.toNat)⟩
  /-- The line is too long, and no more of it has been read than it takes to see that. -/
  | tooLong : j ≠ left → L.maxLineLength.toNat < l.length →
      Stops L left j l line input m
        ⟨.error ((Cause.lineTooLong L.maxLineLength.toNat).atLine line),
          input.skip (input.rest.extent j + (L.maxLineLength.toNat + 1)),
          m.emit (.lineTooLong line)⟩
  /-- The line fails, and it has been read to its end. -/
  | failed {c : Cause} {m' : Machine} : j ≠ left → l.length ≤ L.maxLineLength.toNat →
      execute l m = .error c m' → c.toError.line = none →
      Stops L left j l line input m
        ⟨.error { c.toError with line := some line }, input.skip (input.rest.extent (j + 1)),
          m'.emit (.instructionFailed line c)⟩

theorem skip_extent_succ {l₀ : Bytes} (hls : input.rest.lines = l₀ :: ls) (k n : Nat) :
    (input.skip (input.rest.extent 1)).skip
        ((input.skip (input.rest.extent 1)).rest.extent k + n) =
      input.skip (input.rest.extent (k + 1) + n) := by
  rw [Source.skip_skip, Bytes.extent_succ hls k, Nat.add_assoc]
  rfl

theorem Stops.succ {l₀ : Bytes} (hls : input.rest.lines = l₀ :: ls)
    (h : Stops L left j l line (input.skip (input.rest.extent 1)) m o) :
    Stops L (left + 1) (j + 1) l line input m o := by
  have hskip := skip_extent_succ hls
  cases h with
  | excess hj =>
    rw [← Nat.add_zero (Bytes.extent _ j), hskip]
    exact .excess (by omega)
  | tooLong hj hlen =>
    rw [hskip]
    exact .tooLong (by omega) hlen
  | failed hj hlen hx hc =>
    rw [← Nat.add_zero (Bytes.extent _ (j + 1)), hskip]
    exact .failed (by omega) hlen hx hc

theorem Stops.excess_first (L : Limits) (l : Bytes) (line : Nat) (input : Source) (m : Machine) :
    Stops L 0 0 l line input m
      ⟨.error ((Cause.tooManyInstructions L.maxInstructions.toNat).atLine line), input,
        m.emit (.tooManyInstructions L.maxInstructions.toNat)⟩ := by
  have h : Stops L 0 0 l line input m _ := .excess rfl
  rwa [Bytes.extent_zero] at h

theorem Stops.tooLong_first (left line : Nat) (input : Source) (m : Machine)
    (hlen : L.maxLineLength.toNat < l.length) :
    Stops L (left + 1) 0 l line input m
      ⟨.error ((Cause.lineTooLong L.maxLineLength.toNat).atLine line),
        input.skip (L.maxLineLength.toNat + 1), m.emit (.lineTooLong line)⟩ := by
  have h : Stops L (left + 1) 0 l line input m _ := .tooLong (Nat.zero_ne_add_one left) hlen
  rwa [Bytes.extent_zero, Nat.zero_add] at h

/-- Either every line gets its turn, or the run stops at one of them. -/
theorem runLines_completes_or_stops {left : Nat} (count : Nat)
    (hL : left = 0 ∨ m.limits.reading ≠ 0) (hr : input.Whole) (hm : m.stack.Bounded) :
    (∃ m', Completes left input.rest.lines m m' ∧ runLines left count input m =
      finish (count + input.rest.lines.length) (input.skip input.rest.length) m') ∨
    ∃ j l m', input.rest.lines[j]? = some l ∧ Completes left (input.rest.lines.take j) m m' ∧
      Stops m.limits left j l (count + j + 1) input m' (runLines left count input m) := by
  induction left generalizing count input m with
  | zero =>
    -- No line may be executed, so the first one there is gets in the way.
    rw [runLines, expectEnd_eq hr]
    cases hls : input.rest.lines with
    | nil =>
      have hrest := Bytes.lines_eq_nil_iff.1 hls
      rw [if_pos hrest, hrest]
      exact .inl ⟨m, completes_nil 0 m, rfl⟩
    | cons l ls =>
      have hrest : input.rest ≠ [] := by
        rw [Ne, ← Bytes.lines_eq_nil_iff, hls]
        exact List.cons_ne_nil l ls
      rw [if_neg hrest]
      exact .inr ⟨0, l, m, rfl, completes_nil 0 m, .excess_first ..⟩
  | succ left ih =>
    replace hL : m.limits.reading ≠ 0 := hL.resolve_left (Nat.succ_ne_zero left)
    rw [runLines]
    cases hls : input.rest.lines with
    | nil =>
      have hrest := Bytes.lines_eq_nil_iff.1 hls
      rw [step_of_rest_eq_nil hr hrest, hrest]
      exact .inl ⟨m, completes_nil _ m, rfl⟩
    | cons l ls =>
      rcases Nat.lt_or_ge m.limits.maxLineLength.toNat l.length with hlen | hlen
      · rw [step_line_of_lt hL hr hls hlen]
        exact .inr ⟨0, l, m, rfl, completes_nil _ m, .tooLong_first _ _ _ _ hlen⟩
      rw [step_line_of_le hL hr hls hlen, executeLine_of_le hlen]
      cases hx : execute l m with
      | error c m₁ =>
        exact .inr ⟨0, l, m, rfl, completes_nil _ m, .failed (Nat.zero_ne_add_one left) hlen hx rfl⟩
      | ok u m₁ =>
        -- The lines behind are run with one less to go, and counted on from this one.
        have hrest : (input.skip (input.rest.extent 1)).rest.lines = ls :=
          Bytes.lines_drop_extent hls
        obtain ⟨hlim, hm₁⟩ := bounded_of_execute_ok hm hx
        have hih := ih (count + 1) (.inr (hlim ▸ hL)) (hr.skip (input.rest.extent 1)) hm₁
        rw [hrest, hlim] at hih
        obtain ⟨m', hc, hrun⟩ | ⟨j, l', m', hj, hc, hs⟩ := hih
        · refine .inl ⟨m', (completes_cons hm).2 ⟨hlen, m₁, hx, hc⟩, ?_⟩
          have hle : input.rest.extent 1 ≤ input.rest.length := Nat.min_le_left _ _
          have hread : input.rest.extent 1 + (input.skip (input.rest.extent 1)).rest.length =
              input.rest.length := by
            rw [Source.skip, List.length_drop]
            omega
          rw [List.length_cons, ← Nat.add_assoc, Nat.add_right_comm, ← hread, ← Source.skip_skip]
          exact hrun
        · refine .inr ⟨j + 1, l', m', hj, (completes_cons hm).2 ⟨hlen, m₁, hx, hc⟩, ?_⟩
          rw [← Nat.add_assoc, Nat.add_right_comm count]
          exact hs.succ hls

/-- The line after `j` others is one too many, or too long, or it fails when its turn comes. -/
def Obstructs (m : Machine) (ls : List Bytes) (j : Nat) : Prop :=
  ∃ l, ls[j]? = some l ∧
    (j = m.limits.maxInstructions.toNat ∨ m.limits.maxLineLength.toNat < l.length ∨
      ∃ m₁ c m₂, (ls.take j).forM execute m = .ok () m₁ ∧ execute l m₁ = .error c m₂)

theorem forM_execute_append (as ls : List Bytes) (m : Machine) :
    (as ++ ls).forM execute m =
      match as.forM execute m with
      | .ok _ m₁ => ls.forM execute m₁
      | .error c m₁ => .error c m₁ := by
  induction as generalizing m with
  | nil => rfl
  | cons a as ih =>
    rw [List.cons_append, forM_execute_cons, forM_execute_cons]
    cases execute a m with
    | ok u m₁ => exact ih m₁
    | error c m₁ => rfl

theorem forM_execute_append_of_ok (h : as.forM execute m = .ok () m₁) (ls : List Bytes) :
    (as ++ ls).forM execute m = ls.forM execute m₁ := by
  rw [forM_execute_append, h]

theorem bounded_of_forM_ok (hm : m.stack.Bounded) (h : ls.forM execute m = .ok () m') :
    m'.limits = m.limits ∧ m'.stack.Bounded := by
  induction ls generalizing m with
  | nil =>
    obtain rfl : m = m' := (EStateM.Result.ok.inj h).2
    exact ⟨rfl, hm⟩
  | cons l ls ih =>
    obtain ⟨m₁, hx, h⟩ := forM_execute_cons_eq_ok.1 h
    obtain ⟨hlim, hm₁⟩ := bounded_of_execute_ok hm hx
    obtain ⟨hlim', hm'⟩ := ih hm₁ h
    exact ⟨hlim'.trans hlim, hm'⟩

theorem Completes.bounded (hm : m.stack.Bounded) (h : Completes left ls m m') :
    m'.limits = m.limits ∧ m'.stack.Bounded :=
  bounded_of_forM_ok hm h.executes

theorem completes_append (hm : m.stack.Bounded) :
    Completes left (as ++ ls) m m' ↔
      as.length + ls.length ≤ left ∧ ∃ m₁, Completes left as m m₁ ∧ Completes left ls m₁ m' := by
  constructor
  · rintro ⟨hlen, hle, hex⟩
    rw [List.length_append] at hlen
    obtain ⟨has, hls⟩ := List.forall_mem_append.1 hle
    rw [forM_execute_append] at hex
    cases hx : as.forM execute m with
    | error c m₁ =>
      rw [hx] at hex
      cases hex
    | ok u m₁ =>
      rw [hx] at hex
      have hc : Completes left as m m₁ := ⟨by omega, has, hx⟩
      exact ⟨hlen, m₁, hc, by omega, (hc.bounded hm).1.symm ▸ hls, hex⟩
  · rintro ⟨hlen, m₁, hc, hc'⟩
    have hls := (hc.bounded hm).1 ▸ hc'.lines_le
    refine ⟨?_, List.forall_mem_append.2 ⟨hc.lines_le, hls⟩, ?_⟩
    · rwa [List.length_append]
    · rw [forM_execute_append_of_ok hc.executes]
      exact hc'.executes

theorem Completes.not_obstructs (h : Completes m.limits.maxInstructions.toNat ls m m') (j : Nat) :
    ¬ m.Obstructs ls j := by
  rintro ⟨l, hj, hexcess | hlong | ⟨m₁, c, m₂, hok, hx⟩⟩
  · have hlt := (List.getElem?_eq_some_iff.1 hj).1
    have hle := h.length_le
    omega
  · have hle := h.lines_le l (List.mem_of_getElem? hj)
    omega
  · obtain ⟨hlt, rfl⟩ := List.getElem?_eq_some_iff.1 hj
    have hex := h.executes
    rw [← List.take_append_drop j ls, List.drop_eq_getElem_cons hlt,
      forM_execute_append_of_ok hok, forM_execute_cons, hx] at hex
    cases hex

theorem Obstructs.take {i : Nat} (hij : i < j) (h : m.Obstructs ls i) :
    m.Obstructs (ls.take j) i := by
  rw [Obstructs, List.getElem?_take_of_lt hij, List.take_take, Nat.min_eq_left hij.le]
  exact h

theorem Stops.obstructs (hj : ls[j]? = some l)
    (hc : Completes m.limits.maxInstructions.toNat (ls.take j) m m')
    (h : Stops m.limits m.limits.maxInstructions.toNat j l line input m' o) : m.Obstructs ls j := by
  refine ⟨l, hj, ?_⟩
  cases h with
  | excess he => exact .inl he
  | tooLong _ hlen => exact .inr (.inl hlen)
  | failed _ _ hx _ => exact .inr (.inr ⟨m', _, _, hc.executes, hx⟩)

theorem Stops.isLeast (hj : ls[j]? = some l)
    (hc : Completes m.limits.maxInstructions.toNat (ls.take j) m m')
    (h : Stops m.limits m.limits.maxInstructions.toNat j l line input m' o) :
    IsLeast {i | m.Obstructs ls i} j := by
  refine ⟨h.obstructs hj hc, fun i hi => ?_⟩
  by_contra hij
  exact hc.not_obstructs i (Obstructs.take (Nat.lt_of_not_le hij) hi)

theorem run_completes_or_stops (hL : m.limits.ReadsLines) (hr : input.Whole)
    (hm : m.stack.Bounded) :
    (∃ m', Completes m.limits.maxInstructions.toNat input.rest.lines m m' ∧
      run input m = finish input.rest.lines.length (input.skip input.rest.length) m') ∨
    ∃ j l m', input.rest.lines[j]? = some l ∧
      Completes m.limits.maxInstructions.toNat (input.rest.lines.take j) m m' ∧
      Stops m.limits m.limits.maxInstructions.toNat j l (j + 1) input m' (run input m) := by
  have h := runLines_completes_or_stops 0 hL hr hm
  simp only [Nat.zero_add] at h
  exact h

theorem run_of_completes (hL : m.limits.ReadsLines) (hr : input.Whole) (hm : m.stack.Bounded)
    (h : Completes m.limits.maxInstructions.toNat input.rest.lines m m') :
    run input m = finish input.rest.lines.length (input.skip input.rest.length) m' := by
  obtain ⟨m₁, hc, hrun⟩ | ⟨j, l, m₁, hj, hc, hs⟩ := run_completes_or_stops hL hr hm
  · have hx := h.executes
    rw [hc.executes] at hx
    cases hx
    exact hrun
  · exact absurd (hs.obstructs hj hc) (h.not_obstructs j)

theorem Stops.same {input' : Source} {o' : Outcome} (h : Stops L left j l line input m o)
    (h' : Stops L left j l line input' m o') :
    o'.result = o.result ∧ o'.machine = o.machine := by
  cases h with
  | excess hj =>
    cases h' with
    | excess => exact ⟨rfl, rfl⟩
    | tooLong hj' | failed hj' => exact absurd hj hj'
  | tooLong hj hlen =>
    cases h' with
    | excess hj' => exact absurd hj' hj
    | tooLong => exact ⟨rfl, rfl⟩
    | failed _ hlen' => omega
  | failed hj hlen hx =>
    cases h' with
    | excess hj' => exact absurd hj' hj
    | tooLong _ hlen' => omega
    | failed _ _ hx' =>
      rw [hx] at hx'
      cases hx'
      exact ⟨rfl, rfl⟩

/-- A run that comes to a line where it has to stop ends as that line makes it end. -/
theorem run_of_stops {input' : Source} (hL : m.limits.ReadsLines) (hr : input.Whole)
    (hm : m.stack.Bounded) (hj : input.rest.lines[j]? = some l)
    (hc : Completes m.limits.maxInstructions.toNat (input.rest.lines.take j) m m')
    (h : Stops m.limits m.limits.maxInstructions.toNat j l (j + 1) input' m' o) :
    (run input m).result = o.result ∧ (run input m).machine = o.machine := by
  obtain ⟨m₁, hc₁, -⟩ | ⟨j₁, l₁, m₁, hj₁, hc₁, hs⟩ := run_completes_or_stops hL hr hm
  · exact absurd (h.obstructs hj hc) (hc₁.not_obstructs j)
  · obtain rfl := (hs.isLeast hj₁ hc₁).unique (h.isLeast hj hc)
    obtain rfl := Option.some.inj (hj.symm.trans hj₁)
    obtain rfl : m' = m₁ :=
      (EStateM.Result.ok.inj (hc.executes.symm.trans hc₁.executes)).2
    exact h.same hs

theorem Stops.result_ne_ok {k : Nat} (h : Stops L left j l line input m o) :
    o.result ≠ .ok k := by
  cases h <;> exact nofun

theorem completes_of_run_ok {k : Nat} (hL : m.limits.ReadsLines) (hr : input.Whole)
    (hm : m.stack.Bounded) (h : (run input m).result = .ok k) :
    ∃ m', Completes m.limits.maxInstructions.toNat input.rest.lines m m' := by
  obtain ⟨m', hc, -⟩ | ⟨j, l, m', -, -, hs⟩ := run_completes_or_stops hL hr hm
  · exact ⟨m', hc⟩
  · exact absurd h hs.result_ne_ok

/-- Without reading its lines a run comes to an end at once. -/
theorem run_of_not_readsLines (h : ¬ m.limits.ReadsLines) (input : Source) :
    run input m = finish 0 input m := by
  obtain ⟨hmost, hreading⟩ := not_or.1 h
  obtain ⟨left, hleft⟩ := Nat.exists_eq_add_one_of_ne_zero hmost
  rw [run, hleft, runLines, step_of_reading_eq_zero (not_not.1 hreading)]

end Machine

end StackCalc
