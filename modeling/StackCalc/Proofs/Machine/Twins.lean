import StackCalc.Proofs.Machine.Deed

/-! # Machines that go the same way

Two machines are twins if they have the same limits, stack, table and files, and outputs that take
what is written to them in the same way. Whatever line they are given, they stay twins, and a run
ends in the same way for both: what a machine has told about its work makes no difference to the
rest, and neither does what has been written before.
-/

namespace StackCalc

inductive Alike {ε σ α : Type} (R : σ → σ → Prop) :
    EStateM.Result ε σ α → EStateM.Result ε σ α → Prop where
  | ok {a : α} {s s' : σ} : R s s' → Alike R (.ok a s) (.ok a s')
  | error {e : ε} {s s' : σ} : R s s' → Alike R (.error e s) (.error e s')

theorem Alike.bind {ε σ α β : Type} {R : σ → σ → Prop} {s s' : σ} {x : EStateM ε σ α}
    {f : α → EStateM ε σ β} (hx : Alike R (x s) (x s'))
    (hf : ∀ a s s', R s s' → Alike R (f a s) (f a s')) :
    Alike R ((x >>= f) s) ((x >>= f) s') := by
  change Alike R (EStateM.bind x f s) (EStateM.bind x f s')
  unfold EStateM.bind
  generalize x s = r at hx
  generalize x s' = r' at hx
  cases hx with
  | ok h => exact hf _ _ _ h
  | error h => exact .error h

namespace Sink

/-- Sinks that `R` relates meet the same faults, and `R` relates them ever after. -/
structure Matching (R : Sink → Sink → Prop) : Prop where
  write : ∀ s {k k' : Sink}, R k k' → Alike R (write s k) (write s k')
  flush : ∀ {k k' : Sink}, R k k' → Alike R (flush k) (flush k')

theorem matching_eq : Matching Eq where
  write s k k' h := by
    subst h
    cases write s k with
    | ok => exact .ok rfl
    | error => exact .error rfl
  flush := by
    rintro k _ rfl
    cases flush k with
    | ok => exact .ok rfl
    | error => exact .error rfl

theorem Matching.encode {R : Sink → Sink → Prop} {k k' : Sink} (hR : Matching R) (h : R k k')
    (t : Table) : Alike R (t.encode k) (t.encode k') := by
  rw [Table.encode_eq_write]
  refine .bind (hR.write t.text h) fun _ _ _ h => ?_
  exact .bind (hR.flush h) fun _ _ _ h => .ok h

end Sink

namespace Machine

variable {R S : Sink → Sink → Prop} {m m' : Machine}

/-- The machines differ in their outputs at most, which `R` and `S` relate, and in what they have
told. -/
structure Twin (R S : Sink → Sink → Prop) (m m' : Machine) : Prop where
  sameCore : SameCore m m'
  files_eq : m'.files = m.files
  out : R m.out m'.out
  err : S m.err m'.err

structure Outcome.Like (P : Machine → Machine → Prop) (o o' : Outcome) : Prop where
  result_eq : o'.result = o.result
  input_eq : o'.input = o.input
  machine : P o.machine o'.machine

inductive Step.Like (P : Machine → Machine → Prop) : Step → Step → Prop where
  | next {input : Source} {m m' : Machine} : P m m' → Like P (.next input m) (.next input m')
  | halt {o o' : Outcome} : o.Like P o' → Like P (.halt o) (.halt o')

theorem twin_after {a : Action Unit} (h : Alike (Twin R S) (a m) (a m')) :
    Twin R S (m.after a) (m'.after a) := by
  unfold Machine.after
  generalize a m = x at h
  generalize a m' = x' at h
  cases h with
  | ok h => exact h
  | error h => exact h

namespace Twin

theorem emit_right (h : Twin R S m m') (e : Event) : Twin R S m (m'.emit e) :=
  ⟨h.sameCore.trans (sameCore_emit m' e), h.files_eq, h.out, h.err⟩

theorem emit (h : Twin R S m m') (e e' : Event) : Twin R S (m.emit e) (m'.emit e') :=
  ⟨⟨h.sameCore.limits_eq, h.sameCore.stack_eq, h.sameCore.table_eq⟩, h.files_eq, h.out, h.err⟩

theorem tellAll (h : Twin R S m m') (told : List Event) :
    Twin R S (m.tellAll told) (m'.tellAll told) := by
  induction told generalizing m m' with
  | nil => exact h
  | cons e told ih => exact ih (h.emit e e)

theorem withFiles (h : Twin R S m m') (f : Files) :
    Twin R S { m with files := f } { m' with files := f } :=
  ⟨⟨h.sameCore.limits_eq, h.sameCore.stack_eq, h.sameCore.table_eq⟩, rfl, h.out, h.err⟩

theorem withOut (h : Twin R S m m') {k k' : Sink} (hk : R k k') :
    Twin R S { m with out := k } { m' with out := k' } :=
  ⟨⟨h.sameCore.limits_eq, h.sameCore.stack_eq, h.sameCore.table_eq⟩, h.files_eq, hk, h.err⟩

theorem withErr (h : Twin R S m m') {k k' : Sink} (hk : S k k') :
    Twin R S { m with err := k } { m' with err := k' } :=
  ⟨⟨h.sameCore.limits_eq, h.sameCore.stack_eq, h.sameCore.table_eq⟩, h.files_eq, h.out, hk⟩

section Matching

variable (hR : Sink.Matching R) (hS : Sink.Matching S)
include hR hS

theorem move (h : Twin R S m m') (a : Move) : Alike (Twin R S) (a.act m) (a.act m') := by
  cases a with
  | settle failure? s t f =>
    have h' : Twin R S { m with stack := s, table := t, files := f }
        { m' with stack := s, table := t, files := f } :=
      ⟨⟨h.sameCore.limits_eq, rfl, rfl⟩, rfl, h.out, h.err⟩
    cases failure? with
    | none => exact .ok h'
    | some c => exact .error h'
  | print text =>
    have hw := hR.write text h.out
    dsimp only [Move.act, Machine.print]
    generalize Sink.write text m.out = x at hw
    generalize Sink.write text m'.out = x' at hw
    cases hw with
    | ok hk => exact .ok (h.withOut hk)
    | error hk => exact .error (h.withOut hk)
  | save stream n =>
    dsimp only [Move.act, saveTo]
    rw [h.sameCore.table_eq]
    cases stream with
    | output =>
      have hw := hR.encode h.out m.table
      dsimp only [sink, withSink]
      generalize m.table.encode m.out = x at hw
      generalize m.table.encode m'.out = x' at hw
      cases hw with
      | ok hk => exact .ok ((h.withOut hk).emit _ _)
      | error hk => exact .error (h.withOut hk)
    | errors =>
      have hw := hS.encode h.err m.table
      dsimp only [sink, withSink]
      generalize m.table.encode m.err = x at hw
      generalize m.table.encode m'.err = x' at hw
      cases hw with
      | ok hk => exact .ok ((h.withErr hk).emit _ _)
      | error hk => exact .error (h.withErr hk)

/-- A line comes to the same for both, and ends in the same way. -/
theorem execute (h : Twin R S m m') (hm : m.stack.Bounded) (line : Bytes) :
    Alike (Twin R S) (execute line m) (execute line m') := by
  have hm' : m'.stack.Bounded := h.sameCore.stack_eq ▸ hm
  rw [execute_eq_act line hm, execute_eq_act line hm', h.sameCore.stack_eq, h.sameCore.table_eq,
    h.files_eq]
  exact (h.tellAll _).move hR hS _

omit hR hS in
theorem supply (h : Twin R S m m') (limit : Nat) (input : Source) :
    (supply limit input m').1 = (supply limit input m).1 ∧
      Twin R S (supply limit input m).2 (supply limit input m').2 := by
  unfold Machine.supply
  rw [h.files_eq]
  exact ⟨rfl, h.withFiles _⟩

theorem executeLine (h : Twin R S m m') (hm : m.stack.Bounded) (count : Nat) (content : Bytes)
    (input : Source) :
    Step.Like (Twin R S) (executeLine count content input m)
      (executeLine count content input m') := by
  have hx := h.execute hR hS hm content
  unfold Machine.executeLine
  rw [h.sameCore.limits_eq]
  dsimp only
  split
  · exact .halt ⟨rfl, rfl, h.emit _ _⟩
  · generalize Machine.execute content m = x at hx
    generalize Machine.execute content m' = x' at hx
    cases hx with
    | ok h' => exact .next h'
    | error h' => exact .halt ⟨rfl, rfl, h'.emit _ _⟩

theorem step (h : Twin R S m m') (hm : m.stack.Bounded) (count : Nat) (input : Source) :
    Step.Like (Twin R S) (step count input m) (step count input m') := by
  unfold Machine.step
  rw [h.sameCore.limits_eq]
  obtain ⟨hinput, h'⟩ := h.supply m.limits.reading input
  dsimp only
  rw [hinput]
  split
  · exact .halt ⟨rfl, rfl, h'⟩
  · exact .halt ⟨rfl, rfl, h'.emit _ _⟩
  · exact h'.executeLine hR hS hm count _ _

omit hR hS in
theorem expectEnd (h : Twin R S m m') (count : Nat) (input : Source) :
    (expectEnd count input m).Like (Twin R S) (expectEnd count input m') := by
  unfold Machine.expectEnd
  obtain ⟨hinput, h'⟩ := h.supply 1 input
  dsimp only
  rw [hinput, h'.sameCore.limits_eq]
  split
  · exact ⟨rfl, rfl, h'⟩
  · exact ⟨rfl, rfl, h'.emit _ _⟩
  · exact ⟨rfl, rfl, h'.emit _ _⟩

theorem runLines (h : Twin R S m m') (hm : m.stack.Bounded) (left count : Nat) (input : Source) :
    (runLines left count input m).Like (Twin R S) (runLines left count input m') := by
  induction left generalizing count input m m' with
  | zero => exact h.expectEnd count input
  | succ left ih =>
    have hs := h.step hR hS hm count input
    have hbounded := bounded_step count input hm
    rw [Machine.runLines, Machine.runLines]
    generalize Machine.step count input m = x at hs hbounded
    generalize Machine.step count input m' = x' at hs
    cases hs with
    | next h' => exact ih h' hbounded _ _
    | halt ho => exact ho

theorem run (h : Twin R S m m') (hm : m.stack.Bounded) (input : Source) :
    (run input m).Like (Twin R S) (run input m') := by
  unfold Machine.run
  rw [h.sameCore.limits_eq]
  exact h.runLines hR hS hm _ 0 input

end Matching

end Twin

end Machine

end StackCalc
