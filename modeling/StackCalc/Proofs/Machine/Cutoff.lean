import StackCalc.Proofs.Machine.Deed
import StackCalc.Proofs.Machine.Stopping
import StackCalc.Proofs.Machine.Surroundings
import StackCalc.Proofs.Machine.Upkeep

/-! # Output that is cut off

A sink with room for some bytes only goes along with one that never fails until it is full. As long
as everything fits, a machine does the same with either. The first line whose output does not fit
fails, having written what does; it leaves stack, table and files alone, and the run ends there.
-/

namespace StackCalc

namespace Sink

variable {k k' : Sink} {n : Nat} {full : Fault} {s : Bytes}

/-- The sink as it would be with room for `n` bytes in all. -/
def capped (n : Nat) (full : Fault) (k : Sink) : Sink where
  written := (k.bytes.take n).toArray
  room := some (n - k.bytes.length)
  full := full

theorem bytes_capped (n : Nat) (full : Fault) (k : Sink) :
    (k.capped n full).bytes = k.bytes.take n := rfl

theorem capped_empty (n : Nat) (full : Fault) :
    ({} : Sink).capped n full = { room := some n, full } := by
  simp [capped, bytes]

theorem capped_of_grown (hn : k.bytes.length ≤ n) (h : Grown k s k') :
    k'.capped n full = { k.capped n full with
      written := (k.capped n full).written ++ s.take (n - k.bytes.length)
      room := some (n - k.bytes.length - s.length) } := by
  simp [capped, h.bytes_eq, List.take_append, List.take_of_length_le hn, Nat.sub_sub]

theorem write_capped (full : Fault) (hk : k.NeverFails) (hn : k.bytes.length ≤ n) (s : Bytes) :
    ∃ k', write s k = .ok () k' ∧ Grown k s k' ∧
      (k'.bytes.length ≤ n ∧ write s (k.capped n full) = .ok () (k'.capped n full) ∨
        n < k'.bytes.length ∧ write s (k.capped n full) = .error full (k'.capped n full)) := by
  obtain ⟨k', hw, hk'⟩ := write_grown hk.room_eq s
  refine ⟨k', hw, hk', ?_⟩
  rw [capped_of_grown hn hk', hk'.bytes_eq, List.length_append]
  rcases Nat.lt_or_ge (n - k.bytes.length) s.length with hlt | hle
  · exact .inr ⟨by omega, if_neg (Nat.not_le.2 hlt)⟩
  · exact .inl ⟨by omega, if_pos hle⟩

theorem encode_capped (full : Fault) (hk : k.NeverFails) (hn : k.bytes.length ≤ n) (t : Table) :
    ∃ k', t.encode k = .ok t.byLevel.length k' ∧ Grown k t.text k' ∧
      (k'.bytes.length ≤ n ∧
          t.encode (k.capped n full) = .ok t.byLevel.length (k'.capped n full) ∨
        n < k'.bytes.length ∧ t.encode (k.capped n full) = .error full (k'.capped n full)) := by
  obtain ⟨k', hw, hk', hcapped⟩ := write_capped full hk hn t.text
  refine ⟨k', ?_, hk', ?_⟩
  · rw [Table.encode_of_write_ok hw, (hk.of_grown hk').flushFault_eq]
  · rcases hcapped with ⟨hle, hw'⟩ | ⟨hlt, hw'⟩
    · exact .inl ⟨hle, Table.encode_of_write_ok hw'⟩
    · exact .inr ⟨hlt, Table.encode_of_write_error hw'⟩

end Sink

namespace Machine

variable {L : Limits} {m m' m₁ : Machine} {n left : Nat} {full : Fault} {ls : List Bytes}

/-- The machine as it would be with room for `n` bytes of output in all. -/
def capped (n : Nat) (full : Fault) (m : Machine) : Machine := { m with out := m.out.capped n full }

/-- What becomes of a line on a machine without a bound on its output, and on one with it. -/
inductive Trimmed (n : Nat) (full : Fault) (m : Machine) :
    EStateM.Result Cause Machine Unit → EStateM.Result Cause Machine Unit → Prop where
  /-- All of the output fits. -/
  | ok {s : Bytes} {m' : Machine} : m.out.Grown s m'.out → m'.out.bytes.length ≤ n →
      Trimmed n full m (.ok () m') (.ok () (m'.capped n full))
  /-- The line fails for a reason of its own, and writes nothing. -/
  | error {c : Cause} {m' : Machine} : m'.out = m.out →
      Trimmed n full m (.error c m') (.error c (m'.capped n full))
  /-- The output is cut off, and nothing else happens. -/
  | cut {s : Bytes} {c : Cause} {m' m'' : Machine} : m.out.Grown s m'.out →
      n < m'.out.bytes.length → c.code = .diskError → SameCore m m'' → m''.files = m.files →
      m''.out = m'.out.capped n full → Trimmed n full m (.ok () m') (.error c m'')

theorem capped_tellAll (n : Nat) (full : Fault) (m : Machine) (told : List Event) :
    (m.capped n full).tellAll told = (m.tellAll told).capped n full := by
  induction told generalizing m with
  | nil => rfl
  | cons e told ih => exact ih (m.emit e)

theorem Trimmed.of_tellAll {told : List Event} {x x' : EStateM.Result Cause Machine Unit}
    (h : Trimmed n full (m.tellAll told) x x') : Trimmed n full m x x' := by
  have hcore := sameCore_tellAll m told
  obtain ⟨hout, hfiles⟩ := silent_tellAll m told
  cases h with
  | ok hk hn => exact .ok (hout ▸ hk) hn
  | error hk => exact .error (hk.trans hout)
  | cut hk hn hc hs hf ho => exact .cut (hout ▸ hk) hn hc (hcore.trans hs) (hf.trans hfiles) ho

theorem move_trimmed (full : Fault) (hk : m.out.NeverFails) (hn : m.out.bytes.length ≤ n)
    (a : Move) : Trimmed n full m (a.act m) (a.act (m.capped n full)) := by
  cases a with
  | settle failure? s t f =>
    cases failure? with
    | none => exact .ok ⟨hk.room_eq, rfl, (List.append_nil _).symm⟩ hn
    | some c => exact .error rfl
  | print text =>
    obtain ⟨k', hw, hk', ⟨hle, hw'⟩ | ⟨hlt, hw'⟩⟩ := Sink.write_capped full hk hn text
    · dsimp only [Move.act, Machine.print, capped]
      rw [hw, hw']
      exact .ok hk' hle
    · dsimp only [Move.act, Machine.print, capped]
      rw [hw, hw']
      exact .cut hk' hlt rfl ⟨rfl, rfl, rfl⟩ rfl rfl
  | save stream name =>
    dsimp only [Move.act, saveTo, capped]
    cases stream with
    | output =>
      dsimp only [sink, withSink]
      obtain ⟨k', hw, hk', ⟨hle, hw'⟩ | ⟨hlt, hw'⟩⟩ := Sink.encode_capped full hk hn m.table
      · rw [hw, hw']
        exact .ok hk' hle
      · rw [hw, hw']
        exact .cut hk' hlt rfl ⟨rfl, rfl, rfl⟩ rfl rfl
    | errors =>
      dsimp only [sink, withSink]
      cases m.table.encode m.err with
      | ok count k => exact .ok ⟨hk.room_eq, rfl, (List.append_nil _).symm⟩ hn
      | error f k => exact .error rfl

theorem execute_trimmed (full : Fault) (hm : m.stack.Bounded) (hk : m.out.NeverFails)
    (hn : m.out.bytes.length ≤ n) (line : Bytes) :
    Trimmed n full m (execute line m) (execute line (m.capped n full)) := by
  rw [execute_eq_act line hm, execute_eq_act (m := m.capped n full) line hm]
  dsimp only [Deed.act]
  rw [capped_tellAll]
  apply Trimmed.of_tellAll
  have hout := (silent_tellAll m ((Line.ofBytes line).deed m.stack m.table m.files).told).out_eq
  apply move_trimmed
  · rwa [hout]
  · rwa [hout]

theorem execute_grown (hm : m.stack.Bounded) (hk : m.out.NeverFails) (line : Bytes) :
    (∀ m', execute line m = .ok () m' → ∃ s, m.out.Grown s m'.out) ∧
      ∀ c m', execute line m = .error c m' → m'.out = m.out := by
  have h := execute_trimmed m.out.full hm hk le_rfl line
  generalize execute line m = x at h
  generalize execute line (m.capped _ _) = x' at h
  constructor
  · rintro m' rfl
    cases h with
    | ok hk' => exact ⟨_, hk'⟩
    | cut hk' => exact ⟨_, hk'⟩
  · rintro c m' rfl
    cases h with
    | error ho => exact ho

theorem Completes.grown (hm : m.stack.Bounded) (hk : m.out.NeverFails)
    (h : Completes left ls m m') : ∃ s, m.out.Grown s m'.out := by
  induction ls generalizing m left with
  | nil =>
    obtain rfl : m = m' := (EStateM.Result.ok.inj h.executes).2
    exact ⟨[], hk.room_eq, rfl, (List.append_nil _).symm⟩
  | cons l ls ih =>
    cases left with
    | zero => exact absurd h.length_le (by simp)
    | succ left =>
      obtain ⟨-, m₁, hx, hc⟩ := (completes_cons hm).1 h
      obtain ⟨s, hs⟩ := (execute_grown hm hk l).1 m₁ hx
      obtain ⟨s', hs'⟩ := ih (bounded_of_execute_ok hm hx).2 (hk.of_grown hs) hc
      refine ⟨s ++ s', hs'.room_eq, hs'.flushFault_eq.trans hs.flushFault_eq, ?_⟩
      rw [hs'.bytes_eq, hs.bytes_eq, List.append_assoc]

theorem Completes.length_out_le (hm : m.stack.Bounded) (hk : m.out.NeverFails)
    (h : Completes left ls m m') : m.out.bytes.length ≤ m'.out.bytes.length := by
  obtain ⟨s, hs⟩ := h.grown hm hk
  rw [hs.bytes_eq, List.length_append]
  exact Nat.le_add_right _ _

theorem Completes.capped (full : Fault) (hm : m.stack.Bounded) (hk : m.out.NeverFails)
    (h : Completes left ls m m') (hn : m'.out.bytes.length ≤ n) :
    Completes left ls (m.capped n full) (m'.capped n full) := by
  induction ls generalizing m left with
  | nil =>
    obtain rfl : m = m' := (EStateM.Result.ok.inj h.executes).2
    exact completes_nil _ _
  | cons l ls ih =>
    cases left with
    | zero => exact absurd h.length_le (by simp)
    | succ left =>
      have hle := h.length_out_le hm hk
      obtain ⟨hlen, m₁, hx, hc⟩ := (completes_cons hm).1 h
      obtain ⟨s, hs⟩ := (execute_grown hm hk l).1 m₁ hx
      have hm₁ := (bounded_of_execute_ok hm hx).2
      have hk₁ := hk.of_grown hs
      have hle₁ := hc.length_out_le hm₁ hk₁
      have htrimmed := execute_trimmed full hm hk (hle.trans hn) l
      rw [hx] at htrimmed
      apply (completes_cons (m := m.capped n full) hm).2
      refine ⟨hlen, m₁.capped n full, ?_, ih hm₁ hk₁ hc⟩
      generalize execute l (m.capped n full) = x at htrimmed
      cases htrimmed with
      | ok => rfl
      | cut _ hlt => omega

theorem Stops.capped {j line : Nat} {l : Bytes} {input : Source} {o : Outcome} (full : Fault)
    (hm : m.stack.Bounded) (hk : m.out.NeverFails) (hn : m.out.bytes.length ≤ n)
    (h : Stops L left j l line input m o) :
    Stops L left j l line input (m.capped n full)
      { o with machine := o.machine.capped n full } := by
  cases h with
  | excess hj => exact .excess hj
  | tooLong hj hlen => exact .tooLong hj hlen
  | failed hj hlen hx hc =>
    have htrimmed := execute_trimmed full hm hk hn l
    rw [hx] at htrimmed
    generalize hx' : execute l (m.capped n full) = x at htrimmed
    cases htrimmed with
    | error => exact .failed hj hlen hx' hc

theorem Stops.out_eq {j line : Nat} {l : Bytes} {input : Source} {o : Outcome}
    (hm : m.stack.Bounded) (hk : m.out.NeverFails) (h : Stops L left j l line input m o) :
    o.machine.out = m.out := by
  cases h with
  | excess => rfl
  | tooLong => rfl
  | failed _ _ hx =>
    have hout := (execute_grown hm hk l).2 _ _ hx
    exact hout

/-- All that a run writes is written by lines that complete. -/
theorem exists_completes (text : Bytes) (hm : m.stack.Bounded) (hk : m.out.NeverFails) :
    ∃ j m', Completes m.limits.maxInstructions.toNat (text.lines.take j) m m' ∧
      (run (.ofBytes text) m).machine.out = m'.out := by
  by_cases hL : m.limits.ReadsLines
  case neg =>
    rw [run_of_not_readsLines hL]
    exact ⟨0, m, completes_nil _ m, rfl⟩
  obtain ⟨m', hc, hrun⟩ | ⟨j, l, m', -, hc, hs⟩ :=
    run_completes_or_stops hL (Source.whole_ofBytes text) hm
  · refine ⟨text.lines.length, m', ?_, ?_⟩
    · rw [List.take_length]
      exact hc
    · rw [hrun]
      rfl
  · obtain ⟨s, hs'⟩ := hc.grown hm hk
    exact ⟨j, m', hc, hs.out_eq (hc.bounded hm).2 (hk.of_grown hs')⟩

theorem run_capped (full : Fault) (text : Bytes) (hm : m.stack.Bounded) (hk : m.out.NeverFails)
    (hn : (run (.ofBytes text) m).machine.out.bytes.length ≤ n) :
    (run (.ofBytes text) (m.capped n full)).result = (run (.ofBytes text) m).result ∧
      (run (.ofBytes text) (m.capped n full)).machine =
        (run (.ofBytes text) m).machine.capped n full := by
  by_cases hL : m.limits.ReadsLines
  case neg =>
    rw [run_of_not_readsLines hL, run_of_not_readsLines (m := m.capped n full) hL]
    exact ⟨rfl, rfl⟩
  have hwhole := Source.whole_ofBytes text
  have hmc : (m.capped n full).stack.Bounded := hm
  obtain ⟨m', hc, hrun⟩ | ⟨j, l, m', hj, hc, hs⟩ := run_completes_or_stops hL hwhole hm
  · rw [hrun] at hn ⊢
    rw [run_of_completes (m := m.capped n full) hL hwhole hmc (hc.capped full hm hk hn)]
    exact ⟨rfl, rfl⟩
  · obtain ⟨s, hs'⟩ := hc.grown hm hk
    have hm' := (hc.bounded hm).2
    have hk' := hk.of_grown hs'
    rw [hs.out_eq hm' hk'] at hn
    exact run_of_stops (m := m.capped n full) hL hwhole hmc hj (hc.capped full hm hk hn)
      (hs.capped full hm' hk' hn)

def Exceeds (m : Machine) (ls : List Bytes) (n k : Nat) : Prop :=
  ∃ m', Completes m.limits.maxInstructions.toNat (ls.take k) m m' ∧ n < m'.out.bytes.length

/-- The line that makes the output exceed the bound, and the machine before and after it. -/
structure Oversteps (m : Machine) (ls : List Bytes) (n i : Nat) (l : Bytes)
    (before after : Machine) : Prop where
  getElem?_eq : ls[i]? = some l
  completes : Completes m.limits.maxInstructions.toNat (ls.take i) m before
  fits : before.out.bytes.length ≤ n
  lt_most : i < m.limits.maxInstructions.toNat
  length_le : l.length ≤ m.limits.maxLineLength.toNat
  executes : execute l before = .ok () after
  completes_after : Completes m.limits.maxInstructions.toNat (ls.take (i + 1)) m after
  exceeds : n < after.out.bytes.length

theorem exists_oversteps {i : Nat} (hm : m.stack.Bounded)
    (h : IsLeast {k | m.Exceeds ls n k} (i + 1)) :
    ∃ l before after, m.Oversteps ls n i l before after := by
  obtain ⟨⟨after, hc, hlt⟩, hleast⟩ := h
  have hnot : ¬ m.Exceeds ls n i := fun hi => absurd (hleast hi) (Nat.not_succ_le_self i)
  have hi : i < ls.length := by
    by_contra hi
    rw [List.take_of_length_le (by omega), ← List.take_of_length_le (Nat.le_of_not_lt hi)] at hc
    exact hnot ⟨after, hc, hlt⟩
  have hsplit := hc
  rw [← List.take_append_getElem hi] at hsplit
  obtain ⟨hlen, before, hbefore, hlast⟩ := (completes_append hm).1 hsplit
  obtain ⟨m₁, hx, hnil⟩ := forM_execute_cons_eq_ok.1 hlast.executes
  obtain rfl : m₁ = after := (EStateM.Result.ok.inj hnil).2
  refine ⟨ls[i], before, m₁, List.getElem?_eq_getElem hi, hbefore, ?_, ?_, ?_, hx, hc, hlt⟩
  · by_contra hn
    exact hnot ⟨before, hbefore, Nat.lt_of_not_le hn⟩
  · rw [List.length_take_of_le hi.le, List.length_singleton] at hlen
    exact hlen
  · have hle := hlast.lines_le ls[i] List.mem_cons_self
    rwa [(hbefore.bounded hm).1] at hle

theorem Oversteps.run_capped {text l : Bytes} {i : Nat} {before after : Machine} (full : Fault)
    (hL : m.limits.ReadsLines) (hm : m.stack.Bounded) (hk : m.out.NeverFails)
    (h : m.Oversteps text.lines n i l before after) :
    ∃ e, (run (.ofBytes text) (m.capped n full)).result = .error e ∧ e.code = .diskError ∧
      e.line = some (i + 1) ∧ SameCore before (run (.ofBytes text) (m.capped n full)).machine ∧
      (run (.ofBytes text) (m.capped n full)).machine.files = before.files ∧
      (run (.ofBytes text) (m.capped n full)).machine.out = after.out.capped n full := by
  obtain ⟨s, hs⟩ := h.completes.grown hm hk
  have hc := h.completes.capped full hm hk h.fits
  have htrimmed := execute_trimmed full (h.completes.bounded hm).2 (hk.of_grown hs) h.fits l
  rw [h.executes] at htrimmed
  generalize hx : execute l (before.capped n full) = x at htrimmed
  cases htrimmed with
  | ok _ hle => exact absurd h.exceeds (Nat.not_lt.2 hle)
  | @cut _ c _ m'' _ _ hcode hcore hfiles hout =>
    have hstop : Stops m.limits m.limits.maxInstructions.toNat i l (i + 1) (.ofBytes text)
        (before.capped n full) _ := .failed h.lt_most.ne h.length_le hx rfl
    obtain ⟨hresult, hmachine⟩ := run_of_stops (m := m.capped n full) hL
      (Source.whole_ofBytes text) hm h.getElem?_eq hc hstop
    rw [hresult, hmachine]
    exact ⟨_, rfl, hcode, rfl, hcore.trans (sameCore_emit _ _), hfiles, hout⟩

theorem Oversteps.take_out {l : Bytes} {i j : Nat} {before after : Machine} (hm : m.stack.Bounded)
    (hk : m.out.NeverFails) (h : m.Oversteps ls n i l before after) (hij : i + 1 ≤ j)
    (hc : Completes m.limits.maxInstructions.toNat (ls.take j) m m') :
    m'.out.bytes.take n = after.out.bytes.take n := by
  have hsplit : ls.take j = ls.take (i + 1) ++ (ls.take j).drop (i + 1) := by
    have htake : (ls.take j).take (i + 1) = ls.take (i + 1) := by
      rw [List.take_take, Nat.min_eq_left hij]
    rw [← htake, List.take_append_drop]
  rw [hsplit] at hc
  obtain ⟨-, m₁, hc₁, hrest⟩ := (completes_append hm).1 hc
  obtain rfl : after = m₁ :=
    (EStateM.Result.ok.inj (h.completes_after.executes.symm.trans hc₁.executes)).2
  obtain ⟨s, hs⟩ := hc₁.grown hm hk
  obtain ⟨s', hs'⟩ := hrest.grown (hc₁.bounded hm).2 (hk.of_grown hs)
  rw [hs'.bytes_eq, List.take_append_of_le_length h.exceeds.le]

theorem exists_isLeast_exceeds (text : Bytes) (hm : m.stack.Bounded) (hk : m.out.NeverFails)
    (h₀ : m.out.bytes.length ≤ n) (hn : n < (run (.ofBytes text) m).machine.out.bytes.length) :
    ∃ i, IsLeast {k | m.Exceeds text.lines n k} (i + 1) ∧
      ∃ j m', i + 1 ≤ j ∧ Completes m.limits.maxInstructions.toNat (text.lines.take j) m m' ∧
        (run (.ofBytes text) m).machine.out = m'.out := by
  classical
  obtain ⟨j, m', hc, hout⟩ := exists_completes text hm hk
  rw [hout] at hn
  have hex : ∃ k, m.Exceeds text.lines n k := ⟨j, m', hc, hn⟩
  have hleast : IsLeast {k | m.Exceeds text.lines n k} (Nat.find hex) :=
    ⟨Nat.find_spec hex, fun k hk => Nat.find_min' hex hk⟩
  cases hfind : Nat.find hex with
  | zero =>
    rw [hfind] at hleast
    obtain ⟨m₀, hc₀, hlt⟩ := hleast.1
    obtain rfl : m = m₀ := (EStateM.Result.ok.inj hc₀.executes).2
    exact absurd hlt (Nat.not_lt.2 h₀)
  | succ i =>
    rw [hfind] at hleast
    exact ⟨i, hleast, j, m', hleast.2 ⟨m', hc, hn⟩, hc, hout⟩

/-- A run with room for `n` bytes of output does what it would do without a bound, as long as that
writes no more. Otherwise it fails at the line that would be the first to exceed the bound, with the
first `n` bytes written and everything else as the lines before it leave it. -/
theorem run_cut_off (hm : Reachable L m) (text : Bytes) (n : Nat) (full : Fault) :
    let free := { m with out := {} }
    let o := run (.ofBytes text) free
    let o' := run (.ofBytes text) { m with out := { room := some n, full } }
    let output := o.machine.out.bytes
    (output.length ≤ n → o'.result = o.result ∧ o'.machine.out.bytes = output ∧
      o'.machine.stack = o.machine.stack ∧ o'.machine.table = o.machine.table ∧
      o'.machine.files = o.machine.files) ∧
    (n < output.length → o'.machine.out.bytes = output.take n ∧
      ∃ i before e, IsLeast {k | free.Exceeds text.lines n k} (i + 1) ∧
        Completes L.maxInstructions.toNat (text.lines.take i) free before ∧
        o'.result = .error e ∧ e.code = .diskError ∧ e.line = some (i + 1) ∧
        o'.machine.stack = before.stack ∧ o'.machine.table = before.table ∧
        o'.machine.files = before.files) := by
  intro free o o' output
  have hbounded : free.stack.Bounded := hm.bounded
  have hfree : free.out.NeverFails := ⟨rfl, rfl⟩
  have hcapped : { m with out := { room := some n, full } } = free.capped n full := by
    rw [capped, Sink.capped_empty]
  have ho' : o' = run (.ofBytes text) (free.capped n full) := by rw [← hcapped]
  constructor
  · intro hn
    obtain ⟨hresult, hmachine⟩ := run_capped full text hbounded hfree hn
    rw [ho', hresult, hmachine]
    exact ⟨rfl, List.take_of_length_le hn, rfl, rfl, rfl⟩
  · intro hn
    obtain ⟨i, hleast, j, m', hij, hc, hout⟩ :=
      exists_isLeast_exceeds text hbounded hfree (Nat.zero_le n) hn
    obtain ⟨l, before, after, hover⟩ := exists_oversteps hbounded hleast
    -- Something is written, so lines are read.
    have hL : free.limits.ReadsLines := by
      by_contra hL
      rw [show output = [] from congrArg (·.machine.out.bytes) (run_of_not_readsLines hL _)] at hn
      exact absurd hn (Nat.not_lt_zero n)
    obtain ⟨e, hresult, hcode, hline, hcore, hfiles, hcut⟩ :=
      hover.run_capped full hL hbounded hfree
    rw [ho']
    refine ⟨?_, i, before, e, hleast, ?_, hresult, hcode, hline, hcore.stack_eq, hcore.table_eq,
      hfiles⟩
    · rw [hcut, Sink.bytes_capped, ← hover.take_out hbounded hfree hij hc, ← hout]
    · rw [← hm.within.limits_eq]
      exact hover.completes

open Bytes (ascii) in
/-- The listing is cut off within its first word, and the line behind it is not executed. -/
theorem run_cut_off_in_listing :
    let m := new {}
    let text := ascii "push 12\nstore a\nlist\npush 3"
    let o' := run (.ofBytes text) { m with out := { room := some 5 } }
    Reachable {} m ∧ 5 < (run (.ofBytes text) m).machine.out.bytes.length ∧
      IsLeast {k | m.Exceeds text.lines 5 k} 3 ∧
      o'.result = .error ((Cause.outputFailed (.system .noSpaceLeft)).atLine 3) ∧
      o'.machine.out.bytes = ascii "VARIA" ∧ o'.machine.stack.items = [] := by
  intro m text
  dsimp only
  have hm : Reachable {} m := .new
  have hn : 5 < (run (.ofBytes text) m).machine.out.bytes.length := by decide +kernel
  have hfree : { m with out := {} } = m := rfl
  have hcut := (run_cut_off hm text 5 (.system .noSpaceLeft)).2
  rw [hfree] at hcut
  obtain ⟨hout, i, before, e, hleast, -, he, -, hline, -⟩ := hcut hn
  have hresult : (run (.ofBytes text) { m with out := { room := some 5 } }).result =
      .error ((Cause.outputFailed (.system .noSpaceLeft)).atLine 3) := by
    decide +kernel
  obtain rfl := Except.error.inj (hresult.symm.trans he)
  obtain rfl : 2 = i := Nat.succ.inj (Option.some.inj hline)
  refine ⟨hm, hn, hleast, hresult, hout.trans ?_, ?_⟩
  · decide +kernel
  · decide +kernel

end Machine

end StackCalc
