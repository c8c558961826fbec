import StackCalc.Proofs.Machine.Stopping

/-! # Inputs that fail

An input may fail after it has handed out some bytes. The lines among them that a newline ends are
executed as if there were no others; the bytes behind the last newline are not, since there is no
telling whether they are a line. The run fails in any case, at the latest where the input does.
-/

namespace StackCalc

open Bytes (newline unlines)

namespace Bytes

def ended (s : Bytes) : List Bytes := (s.splitOn newline).dropLast

def remainder (s : Bytes) : Bytes := (s.splitOn newline).getLastD []

theorem ended_of_newline_notMem {s : Bytes} (hs : newline ∉ s) : s.ended = [] := by
  rw [ended, List.splitOn_eq_singleton hs]
  rfl

theorem remainder_of_newline_notMem {s : Bytes} (hs : newline ∉ s) : s.remainder = s := by
  rw [remainder, List.splitOn_eq_singleton hs]
  rfl

theorem ended_append {l : Bytes} (hl : newline ∉ l) (s : Bytes) :
    (l ++ newline :: s).ended = l :: s.ended := by
  rw [ended, List.splitOn_append_cons_self_of_not_mem hl,
    List.dropLast_cons_of_ne_nil (List.splitOn_ne_nil newline s), ended]

theorem remainder_append {l : Bytes} (hl : newline ∉ l) (s : Bytes) :
    (l ++ newline :: s).remainder = s.remainder := by
  obtain ⟨p, ps, hp⟩ := List.exists_cons_of_ne_nil (List.splitOn_ne_nil newline s)
  rw [remainder, List.splitOn_append_cons_self_of_not_mem hl, remainder, hp]
  rfl

theorem line_induction {motive : Bytes → Prop} (last : ∀ s, newline ∉ s → motive s)
    (line : ∀ l s, newline ∉ l → motive s → motive (l ++ newline :: s)) (s : Bytes) : motive s := by
  induction hn : s.length using Nat.strong_induction_on generalizing s with
  | h n ih =>
    by_cases hs : newline ∈ s
    · obtain ⟨l, t, rfl, hl⟩ := List.eq_append_cons_of_mem hs
      refine line l t hl (ih t.length ?_ t rfl)
      rw [← hn, List.length_append, List.length_cons]
      omega
    · exact last s hs

theorem unlines_ended_append_remainder (s : Bytes) : unlines s.ended ++ s.remainder = s := by
  induction s using line_induction with
  | last s hs => rw [ended_of_newline_notMem hs, remainder_of_newline_notMem hs]; rfl
  | line l s hl ih =>
    rw [ended_append hl, remainder_append hl, unlines_cons, List.append_assoc, List.cons_append, ih]

theorem newline_notMem_remainder (s : Bytes) : newline ∉ s.remainder := by
  induction s using line_induction with
  | last s hs => rwa [remainder_of_newline_notMem hs]
  | line l s hl ih => rwa [remainder_append hl]

theorem newline_notMem_of_mem_ended (s : Bytes) : ∀ l ∈ s.ended, newline ∉ l := by
  induction s using line_induction with
  | last s hs =>
    rw [ended_of_newline_notMem hs]
    exact nofun
  | line l s hl ih =>
    rw [ended_append hl]
    exact List.forall_mem_cons.2 ⟨hl, ih⟩

end Bytes

namespace Source

variable {r : Source} {l s : Bytes} {fault : Fault} {limit : Nat}

/-- The source hands out `s` and fails when it is asked for more. -/
structure Fails (r : Source) (s : Bytes) (fault : Fault) : Prop where
  supply_eq : r.supply = .nothing
  cut_eq : r.cut = some ⟨r.consumed + s.length, fault⟩
  isPrefix : s <+: r.rest

theorem fails_of_cut {text : Bytes} {offset : Nat} (h : offset ≤ text.length) (fault : Fault) :
    Fails { rest := text, cut := some ⟨offset, fault⟩ } (text.take offset) fault where
  supply_eq := rfl
  cut_eq := by rw [List.length_take_of_le h, Nat.zero_add]
  isPrefix := ⟨text.drop offset, List.take_append_drop offset text⟩

theorem Fails.skip (h : r.Fails (l ++ s) fault) : (r.skip l.length).Fails s fault where
  supply_eq := h.supply_eq
  cut_eq := by rw [Source.skip, h.cut_eq, List.length_append, Nat.add_assoc]
  isPrefix := by
    obtain ⟨u, hu⟩ := h.isPrefix
    refine ⟨u, ?_⟩
    rw [Source.skip, ← hu, List.append_assoc, List.drop_left]

theorem Fails.skip_line (h : r.Fails (l ++ newline :: s) fault) :
    (r.skip (l.length + 1)).Fails s fault := by
  rw [← List.singleton_append, ← List.append_assoc] at h
  have hskip := h.skip
  rwa [List.length_append, List.length_singleton] at hskip

theorem Fails.cutOff? (h : r.Fails s fault) : r.cutOff? = if s = [] then some fault else none := by
  rw [Source.cutOff?, h.cut_eq, Option.bind_some]
  congr 1
  rw [eq_iff_iff, ← List.length_eq_zero_iff]
  dsimp only
  omega

theorem Fails.hasMore (h : r.Fails s fault) :
    r.hasMore = if s = [] then .error fault else .ok true := by
  obtain ⟨u, hu⟩ := h.isPrefix
  rw [Source.hasMore, h.cutOff?]
  by_cases hs : s = []
  · simp only [if_pos hs]
  · simp [← hu, hs]

theorem Fails.hands (h : r.Fails s fault) : r.Hands s where
  supply_eq := h.supply_eq
  take_reach limit := by
    obtain ⟨u, hu⟩ := h.isPrefix
    have hreach : r.reach (lineReach limit r.rest) = min (lineReach limit r.rest) s.length := by
      rw [reach, h.cut_eq]
      dsimp only
      rw [Nat.add_sub_cancel_left]
    have hmin : min (lineReach limit (s ++ u)) s.length = min (lineReach limit s) s.length := by
      by_cases hs : newline ∈ s
      · obtain ⟨l, t, rfl, hl⟩ := List.eq_append_cons_of_mem hs
        rw [List.append_assoc, List.cons_append, lineReach_append hl, lineReach_append hl]
      · rw [lineReach_of_newline_notMem hs, lineReach, takeWhile_newline_append hs,
          List.length_append]
        omega
    rw [hreach, ← hu, hmin, List.take_append_of_le_length (Nat.min_le_right _ _),
      ← List.take_eq_take_min]

/-- The bytes before the failure are gone if no newline ends them. -/
theorem Fails.readLine (h : r.Fails s fault) (hs : newline ∉ s) (hlen : s.length < limit) :
    r.readLine limit = (.error fault, r.skip s.length) := by
  have htake : s.take (min limit (s.length + 1)) = s := List.take_of_length_le (by omega)
  have hend : (r.skip s.length).Fails [] fault := Fails.skip (by rwa [List.append_nil])
  have hlast : s.getLast? ≠ some newline := fun hn => hs (List.mem_of_getLast? hn)
  rw [Source.readLine, h.hands.take_reach, lineReach_of_newline_notMem hs, htake]
  simp [hlen.ne, hlast, hend.cutOff?]

end Source

namespace Machine

variable {L : Limits} {m : Machine} {ls : List Bytes} {rest s : Bytes} {fault : Fault}
  {count left : Nat} {input whole : Source}

theorem step_of_fails (hL : m.limits.reading ≠ 0) (h : input.Fails s fault) (hs : newline ∉ s)
    (hlen : s.length ≤ m.limits.maxLineLength.toNat) :
    step count input m =
      .halt ⟨.error ((Cause.inputFailed fault).atLine (count + 1)), input.skip s.length, m⟩ := by
  simp only [step, supply_of_supply_eq_nothing _ m h.supply_eq,
    h.readLine hs (Limits.lt_reading hL hlen)]

theorem expectEnd_of_fails (h : input.Fails s fault) :
    expectEnd count input m =
      if s = [] then ⟨.error ((Cause.inputFailed fault).atLine (count + 1)), input, m⟩
      else ⟨.error ((Cause.tooManyInstructions m.limits.maxInstructions.toNat).atLine (count + 1)),
        input, m.emit (.tooManyInstructions m.limits.maxInstructions.toNat)⟩ := by
  simp only [expectEnd, supply_of_supply_eq_nothing _ m h.supply_eq, h.hasMore]
  by_cases hs : s = []
  · simp only [if_pos hs]
  · simp only [if_neg hs]

/-- Why a run stops behind `count` lines if its input fails there, within a line of which it has
handed out `rest`. -/
def interruption (L : Limits) (count : Nat) (rest : Bytes) (fault : Fault) : Cause :=
  if count = L.maxInstructions.toNat ∧ rest ≠ [] then .tooManyInstructions L.maxInstructions.toNat
  else if count < L.maxInstructions.toNat ∧ L.maxLineLength.toNat < rest.length then
    .lineTooLong L.maxLineLength.toNat
  else .inputFailed fault

/-- The second run does what the first does and fails as it does; where the first succeeds after
`count` lines, the second is interrupted by `c`. -/
inductive Follows (count : Nat) (c : Cause) (p o : Outcome) : Prop where
  | failed {e : Error} : p.result = .error e → o.result = .error e → o.machine = p.machine →
      Follows count c p o
  | interrupted : p.result = .ok count → o.result = .error (c.atLine (count + 1)) →
      SameCore p.machine o.machine → Silent p.machine o.machine → Follows count c p o

theorem runLines_rest_follows (hL : m.limits.reading ≠ 0)
    (hleft : count + left = m.limits.maxInstructions.toNat)
    (hrest : newline ∉ rest) (hf : input.Fails rest fault) (hw : whole.Whole)
    (hnil : whole.rest = []) :
    Follows count (interruption m.limits count rest fault) (runLines left count whole m)
      (runLines left count input m) := by
  cases left with
  | zero =>
    rw [runLines, runLines, expectEnd_eq hw, if_pos hnil, expectEnd_of_fails hf]
    by_cases hr : rest = []
    · rw [if_pos hr]
      refine .interrupted rfl ?_ ⟨rfl, rfl, rfl⟩ ⟨rfl, rfl⟩
      rw [interruption, if_neg fun h => h.2 hr, if_neg (by omega)]
    · rw [if_neg hr]
      refine .interrupted rfl ?_ ⟨rfl, rfl, rfl⟩ ⟨rfl, rfl⟩
      rw [interruption, if_pos ⟨hleft, hr⟩]
  | succ left =>
    rw [runLines, runLines, step_of_rest_eq_nil hw hnil]
    have hne : ¬ (count = m.limits.maxInstructions.toNat ∧ rest ≠ []) := by omega
    rcases Nat.lt_or_ge m.limits.maxLineLength.toNat rest.length with hlen | hlen
    · rw [step_of_lt_length hL (by rw [List.append_nil]; exact hf.hands) hrest hlen]
      refine .interrupted rfl ?_ ⟨rfl, rfl, rfl⟩ ⟨rfl, rfl⟩
      rw [interruption, if_neg hne, if_pos ⟨by omega, hlen⟩]
    · rw [step_of_fails hL hf hrest hlen]
      refine .interrupted rfl ?_ ⟨rfl, rfl, rfl⟩ ⟨rfl, rfl⟩
      rw [interruption, if_neg hne, if_neg fun h => Nat.not_lt.2 hlen h.2]

/-- Both runs read the same lines, so they go side by side until one fails or the lines end. -/
theorem runLines_follows (hL : m.limits.reading ≠ 0)
    (hleft : count + left = m.limits.maxInstructions.toNat)
    (hls : ∀ l ∈ ls, newline ∉ l) (hrest : newline ∉ rest)
    (hf : input.Fails (unlines ls ++ rest) fault) (hw : whole.Whole)
    (heq : whole.rest = unlines ls) (hm : m.stack.Bounded) :
    Follows (count + ls.length) (interruption m.limits (count + ls.length) rest fault)
      (runLines left count whole m) (runLines left count input m) := by
  induction ls generalizing left count input whole m with
  | nil => exact runLines_rest_follows hL hleft hrest hf hw heq
  | cons l ls ih =>
    obtain ⟨hl, hls⟩ := List.forall_mem_cons.1 hls
    rw [Bytes.unlines_cons, List.append_assoc, List.cons_append] at hf
    have hhands := hw.hands
    rw [heq, Bytes.unlines_cons] at hhands
    cases left with
    | zero =>
      rw [runLines, runLines, expectEnd_eq hw, expectEnd_of_fails hf, heq, Bytes.unlines_cons,
        if_neg (by simp), if_neg (by simp)]
      exact .failed rfl rfl rfl
    | succ left =>
      rw [runLines, runLines]
      rcases Nat.lt_or_ge m.limits.maxLineLength.toNat l.length with hlen | hlen
      · rw [step_of_lt_length hL hhands hl hlen, step_of_lt_length hL hf.hands hl hlen]
        exact .failed rfl rfl rfl
      rw [step_of_length_le hL hhands hl hlen, step_of_length_le hL hf.hands hl hlen,
        executeLine_of_le hlen, executeLine_of_le hlen]
      cases hx : execute l m with
      | error c m₁ => exact .failed rfl rfl rfl
      | ok u m₁ =>
        obtain ⟨hlim, hm₁⟩ := bounded_of_execute_ok hm hx
        have hskip : (whole.skip (l.length + 1)).rest = unlines ls := by
          simp [Source.skip, heq, Bytes.unlines_cons]
        have hleft' : count + 1 + left = m₁.limits.maxInstructions.toNat := by
          rw [hlim]
          omega
        have hih := ih (hlim ▸ hL) hleft' hls hf.skip_line (hw.skip _) hskip hm₁
        rw [hlim] at hih
        rw [List.length_cons, ← Nat.add_assoc, Nat.add_right_comm]
        exact hih

end Machine

end StackCalc
