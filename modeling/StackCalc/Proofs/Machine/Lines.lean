import StackCalc.Proofs.Machine.Reachable

/-! # Reading line by line

Text falls into lines, of which the last need not end in a newline. What one step of a run makes of
the first line depends on its length only: it is executed, or found to be too long.
-/

namespace StackCalc

open Bytes (newline)

namespace Bytes

variable {s l : Bytes} {ls : List Bytes}

def unlines (ls : List Bytes) : Bytes := ls.flatMap (· ++ [newline])

/-- The pieces between newlines. Behind the last newline there is a line only if there is a byte. -/
def lines (s : Bytes) : List Bytes :=
  let pieces := s.splitOn newline
  if pieces.getLast? = some [] then pieces.dropLast else pieces

/-- How many bytes the first `k` lines take with their newlines; the last may be without one. -/
def extent (s : Bytes) (k : Nat) : Nat := min s.length (unlines (s.lines.take k)).length

theorem unlines_cons (l : Bytes) (ls : List Bytes) :
    unlines (l :: ls) = l ++ newline :: unlines ls := by
  simp [unlines]

theorem lines_nil : lines [] = [] := rfl

theorem lines_of_newline_notMem (hs : newline ∉ s) (hne : s ≠ []) : lines s = [s] := by
  rw [lines, List.splitOn_eq_singleton hs]
  simp [hne]

theorem lines_append (hl : newline ∉ l) (s : Bytes) : lines (l ++ newline :: s) = l :: lines s := by
  have hne := List.splitOn_ne_nil newline s
  have hlast : (l :: s.splitOn newline).getLast? = (s.splitOn newline).getLast? := by
    obtain ⟨p, ps, hp⟩ := List.exists_cons_of_ne_nil hne
    rw [hp, List.getLast?_cons_cons]
  simp only [lines, List.splitOn_append_cons_self_of_not_mem hl, hlast,
    List.dropLast_cons_of_ne_nil hne]
  split <;> rfl

theorem eq_nil_or_exists_line (s : Bytes) :
    s = [] ∨ (s ≠ [] ∧ newline ∉ s) ∨ ∃ l t, newline ∉ l ∧ s = l ++ newline :: t := by
  by_cases hs : newline ∈ s
  · obtain ⟨l, t, rfl, hl⟩ := List.eq_append_cons_of_mem hs
    exact .inr (.inr ⟨l, t, hl, rfl⟩)
  · by_cases hne : s = []
    · exact .inl hne
    · exact .inr (.inl ⟨hne, hs⟩)

theorem lines_eq_nil_iff : lines s = [] ↔ s = [] := by
  obtain rfl | ⟨hne, hs⟩ | ⟨l, t, hl, rfl⟩ := eq_nil_or_exists_line s
  · simp [lines_nil]
  · simp [lines_of_newline_notMem hs hne, hne]
  · simp [lines_append hl]

theorem lines_unlines (hls : ∀ l ∈ ls, newline ∉ l) : lines (unlines ls) = ls := by
  induction ls with
  | nil => rfl
  | cons l ls ih =>
    obtain ⟨hl, hls⟩ := List.forall_mem_cons.1 hls
    rw [unlines_cons, lines_append hl, ih hls]

theorem of_lines_eq_cons (h : lines s = l :: ls) :
    newline ∉ l ∧ ((∃ t, s = l ++ newline :: t ∧ lines t = ls) ∨ s = l ∧ l ≠ [] ∧ ls = []) := by
  obtain rfl | ⟨hne, hs⟩ | ⟨a, t, ha, rfl⟩ := eq_nil_or_exists_line s
  · cases h
  · rw [lines_of_newline_notMem hs hne] at h
    obtain ⟨rfl, rfl⟩ := List.cons.inj h
    exact ⟨hs, .inr ⟨rfl, hne, rfl⟩⟩
  · rw [lines_append ha] at h
    obtain ⟨rfl, rfl⟩ := List.cons.inj h
    exact ⟨ha, .inl ⟨t, rfl, rfl⟩⟩

theorem extent_zero (s : Bytes) : extent s 0 = 0 := Nat.min_zero _

theorem extent_append (hl : newline ∉ l) (s : Bytes) (k : Nat) :
    extent (l ++ newline :: s) (k + 1) = l.length + 1 + extent s k := by
  rw [extent, lines_append hl, List.take_succ_cons, unlines_cons, List.length_append,
    List.length_append, List.length_cons, List.length_cons, extent]
  omega

theorem extent_of_newline_notMem (hs : newline ∉ s) (hne : s ≠ []) (k : Nat) :
    extent s (k + 1) = s.length := by
  rw [extent, lines_of_newline_notMem hs hne, List.take_succ_cons, List.take_nil, unlines_cons,
    List.length_append]
  omega

theorem lines_drop_extent (h : lines s = l :: ls) : lines (s.drop (extent s 1)) = ls := by
  obtain ⟨hl, ⟨t, rfl, ht⟩ | ⟨rfl, hne, rfl⟩⟩ := of_lines_eq_cons h
  · rw [extent_append hl, extent_zero, Nat.add_zero, ← ht]
    simp
  · rw [extent_of_newline_notMem hl hne, List.drop_length]
    rfl

theorem extent_succ (h : lines s = l :: ls) (k : Nat) :
    extent s (k + 1) = extent s 1 + extent (s.drop (extent s 1)) k := by
  obtain ⟨hl, ⟨t, rfl, -⟩ | ⟨rfl, hne, rfl⟩⟩ := of_lines_eq_cons h
  · rw [extent_append hl, extent_append hl, extent_zero]
    simp
  · rw [extent_of_newline_notMem hl hne, extent_of_newline_notMem hl hne, List.drop_length]
    rfl

end Bytes

namespace Source

variable {r : Source} {l s : Bytes} {limit : Nat}

structure Whole (r : Source) : Prop where
  cut_eq : r.cut = none
  supply_eq : r.supply = .nothing

theorem whole_ofBytes (s : Bytes) : (ofBytes s).Whole := ⟨rfl, rfl⟩

theorem Whole.skip (h : r.Whole) (n : Nat) : (r.skip n).Whole := ⟨h.cut_eq, h.supply_eq⟩

theorem Whole.cutOff? (h : r.Whole) : r.cutOff? = none := by
  rw [Source.cutOff?, h.cut_eq]
  rfl

theorem Whole.hasMore (h : r.Whole) : r.hasMore = .ok !r.rest.isEmpty := by
  rw [Source.hasMore, h.cutOff?]

/-- For as long as they last, `s` are the bytes that lines are read from. -/
structure Hands (r : Source) (s : Bytes) : Prop where
  supply_eq : r.supply = .nothing
  take_reach : ∀ limit,
    r.rest.take (r.reach (lineReach limit r.rest)) = s.take (lineReach limit s)

theorem Whole.hands (h : r.Whole) : r.Hands r.rest where
  supply_eq := h.supply_eq
  take_reach limit := by rw [Source.reach, h.cut_eq]

theorem takeWhile_newline_append (hl : newline ∉ l) (s : Bytes) :
    (l ++ s).takeWhile (· != newline) = l ++ s.takeWhile (· != newline) := by
  refine List.takeWhile_append_of_pos fun x hx => ?_
  rw [bne_iff_ne]
  rintro rfl
  exact hl hx

theorem lineReach_append (hl : newline ∉ l) :
    lineReach limit (l ++ newline :: s) = min limit (l.length + 1) := by
  rw [lineReach, takeWhile_newline_append hl, List.takeWhile_cons_of_neg (by simp),
    List.append_nil]

theorem readLine_of_length_lt (h : r.Hands (l ++ newline :: s)) (hl : newline ∉ l)
    (hlen : l.length < limit) :
    r.readLine limit = (.ok (l ++ [newline]), r.skip (l.length + 1)) := by
  have htake : (l ++ newline :: s).take (l.length + 1) = l ++ [newline] := by
    simp [List.take_append, List.take_of_length_le]
  rw [readLine, h.take_reach, lineReach_append hl, Nat.min_eq_right hlen, htake]
  simp

theorem readLine_of_le_length (h : r.Hands (l ++ s)) (hl : newline ∉ l) (hlen : limit ≤ l.length) :
    r.readLine limit = (.ok (l.take limit), r.skip limit) := by
  have hreach : lineReach limit (l ++ s) = limit := by
    rw [lineReach, takeWhile_newline_append hl, List.length_append]
    omega
  rw [readLine, h.take_reach, hreach, List.take_append_of_le_length hlen]
  simp [Nat.min_eq_left hlen]

theorem readLine_of_rest_eq_nil (hr : r.Whole) (h : r.rest = []) :
    r.readLine limit = (.ok [], r.skip 0) := by
  rw [readLine, h, List.take_nil, List.length_nil, (hr.skip 0).cutOff?]
  split <;> rfl

theorem readLine_zero (r : Source) : r.readLine 0 = (.ok [], r) := by
  have hreach : r.reach 0 = 0 := by
    cases hc : r.cut <;> simp [reach, hc]
  simp [readLine, lineReach, hreach, skip]

theorem skip_skip (r : Source) (a b : Nat) : (r.skip a).skip b = r.skip (a + b) := by
  simp only [skip, List.drop_drop, Nat.add_assoc]

theorem lineReach_of_newline_notMem (hl : newline ∉ l) :
    lineReach limit l = min limit (l.length + 1) := by
  have htake := takeWhile_newline_append hl []
  rw [List.takeWhile_nil, List.append_nil] at htake
  rw [lineReach, htake]

theorem readLine_last_of_length_lt (hr : r.Whole) (hl : newline ∉ r.rest)
    (hlen : r.rest.length < limit) : r.readLine limit = (.ok r.rest, r.skip r.rest.length) := by
  have htake : r.rest.take (min limit (r.rest.length + 1)) = r.rest :=
    List.take_of_length_le (by omega)
  rw [readLine, hr.hands.take_reach, lineReach_of_newline_notMem hl, htake]
  simp only [(hr.skip _).cutOff?]
  split <;> rfl

end Source

namespace Machine

variable {m : Machine} {l : Bytes} {ls : List Bytes} {count : Nat} {input : Source} {s : Bytes}

theorem lineContent_append_newline (l : Bytes) : lineContent (l ++ [newline]) = l := by
  simp [lineContent]

theorem lineContent_of_newline_notMem (hl : newline ∉ l) : lineContent l = l := by
  rw [lineContent, if_neg]
  intro h
  exact hl (List.mem_of_getLast? h)

theorem executeLine_of_le (hlen : l.length ≤ m.limits.maxLineLength.toNat) :
    executeLine count l input m =
      match execute l m with
      | .ok _ m' => .next input m'
      | .error c m' =>
        .halt ⟨.error (c.atLine (count + 1)), input, m'.emit (.instructionFailed (count + 1) c)⟩ :=
  if_neg (Nat.not_lt.2 hlen)

theorem executeLine_of_lt (hlen : m.limits.maxLineLength.toNat < l.length) :
    executeLine count l input m =
      .halt ⟨.error ((Cause.lineTooLong m.limits.maxLineLength.toNat).atLine (count + 1)), input,
        m.emit (.lineTooLong (count + 1))⟩ :=
  if_pos hlen

theorem step_of_readLine {input' : Source} (hs : input.supply = .nothing)
    (h : input.readLine m.limits.reading = (.ok l, input')) :
    step count input m =
      if l = [] then .halt (finish count input' m)
      else executeLine count (lineContent l) input' m := by
  simp only [step, supply_of_supply_eq_nothing _ m hs, h]
  cases l <;> rfl

theorem step_of_rest_eq_nil (hr : input.Whole) (h : input.rest = []) :
    step count input m = .halt (finish count (input.skip 0) m) :=
  step_of_readLine hr.supply_eq (Source.readLine_of_rest_eq_nil hr h)

/-- Where the greatest word is the longest that a line may be, none is read. -/
theorem step_of_reading_eq_zero (h : m.limits.reading = 0) (input : Source) :
    step count input m = .halt (finish count input m) := by
  have hsupply : supply 0 input m = (input, m) := by
    simp [supply, Disk.fetch, Source.holdsLine]
  simp only [step, h, hsupply, Source.readLine_zero]

section Read

variable (hL : m.limits.reading ≠ 0)
include hL

theorem step_of_length_le (h : input.Hands (l ++ newline :: s)) (hl : newline ∉ l)
    (hlen : l.length ≤ m.limits.maxLineLength.toNat) :
    step count input m = executeLine count l (input.skip (l.length + 1)) m := by
  rw [step_of_readLine h.supply_eq (Source.readLine_of_length_lt h hl (Limits.lt_reading hL hlen)),
    if_neg (by simp), lineContent_append_newline]

theorem step_of_lt_length (h : input.Hands (l ++ s)) (hl : newline ∉ l)
    (hlen : m.limits.maxLineLength.toNat < l.length) :
    step count input m =
      .halt ⟨.error ((Cause.lineTooLong m.limits.maxLineLength.toNat).atLine (count + 1)),
        input.skip (m.limits.maxLineLength.toNat + 1), m.emit (.lineTooLong (count + 1))⟩ := by
  have hreading := Limits.reading_of_ne_zero hL
  have htake : (l.take m.limits.reading).length = m.limits.maxLineLength.toNat + 1 := by
    rw [hreading]
    exact List.length_take_of_le hlen
  have hle : m.limits.reading ≤ l.length := by omega
  rw [step_of_readLine h.supply_eq (Source.readLine_of_le_length h hl hle), if_neg,
    lineContent_of_newline_notMem fun hn => hl (List.mem_of_mem_take hn),
    executeLine_of_lt (by omega), hreading]
  intro hnil
  rw [hnil] at htake
  cases htake

theorem step_line_of_le (hr : input.Whole) (h : input.rest.lines = l :: ls)
    (hlen : l.length ≤ m.limits.maxLineLength.toNat) :
    step count input m = executeLine count l (input.skip (input.rest.extent 1)) m := by
  obtain ⟨hl, ⟨t, ht, -⟩ | ⟨rfl, hne, -⟩⟩ := Bytes.of_lines_eq_cons h
  · rw [step_of_length_le hL (ht ▸ hr.hands) hl hlen, ht, Bytes.extent_append hl,
      Bytes.extent_zero]
  · have hread := Source.readLine_last_of_length_lt hr hl (Limits.lt_reading hL hlen)
    rw [step_of_readLine hr.supply_eq hread, if_neg hne, lineContent_of_newline_notMem hl,
      Bytes.extent_of_newline_notMem hl hne]

theorem step_line_of_lt (hr : input.Whole) (h : input.rest.lines = l :: ls)
    (hlen : m.limits.maxLineLength.toNat < l.length) :
    step count input m =
      .halt ⟨.error ((Cause.lineTooLong m.limits.maxLineLength.toNat).atLine (count + 1)),
        input.skip (m.limits.maxLineLength.toNat + 1), m.emit (.lineTooLong (count + 1))⟩ := by
  have hhands := hr.hands
  obtain ⟨hl, ⟨t, ht, -⟩ | ⟨hlast, -⟩⟩ := Bytes.of_lines_eq_cons h
  · rw [ht] at hhands
    exact step_of_lt_length hL hhands hl hlen
  · rw [hlast, ← List.append_nil l] at hhands
    exact step_of_lt_length hL hhands hl hlen

end Read

theorem expectEnd_eq (hr : input.Whole) :
    expectEnd count input m =
      if input.rest = [] then finish count input m
      else ⟨.error ((Cause.tooManyInstructions m.limits.maxInstructions.toNat).atLine (count + 1)),
        input, m.emit (.tooManyInstructions m.limits.maxInstructions.toNat)⟩ := by
  simp only [expectEnd, supply_of_supply_eq_nothing _ m hr.supply_eq, hr.hasMore]
  cases input.rest <;> rfl

end Machine

end StackCalc
