import StackCalc.Machine.Run

/-! # The effect of an instruction

What an instruction makes of stack and table depends on these two alone. If it cannot make anything
of them it fails at once, and nothing else has happened then; any other failure comes of output or
files, and leaves stack and table alone.
-/

namespace StackCalc

namespace Stack

def combine (s : Stack) (f : Int32 → Int32 → Except Cause Int32) : Except Cause Stack :=
  match s.items with
  | a :: b :: rest => (f a b).map fun v => { s with items := v :: rest }
  | _ => .error .stackUnderflow

def Bounded (s : Stack) : Prop := s.size ≤ s.capacity

variable {s s' : Stack} {v : Int32} {f : Int32 → Int32 → Except Cause Int32}

theorem push_eq_error {c : Cause} (h : s.push v = .error c) : c = .stackOverflow := by
  rw [push] at h
  split at h
  · exact (Except.error.inj h).symm
  · cases h

theorem pop_eq_error {c : Cause} (h : s.pop = .error c) : c = .stackUnderflow := by
  rw [pop] at h
  split at h
  · cases h
  · exact (Except.error.inj h).symm

theorem combine_eq_error {c : Cause} (hf : ∀ a b c, f a b = .error c → c.code.kind ≠ .io)
    (h : s.combine f = .error c) : c.code.kind ≠ .io := by
  rw [combine] at h
  split at h
  next a b rest _ =>
    cases hv : f a b with
    | error c' =>
      obtain rfl : c' = c := by simpa [hv, Except.map] using h
      exact hf a b c' hv
    | ok v => simp [hv, Except.map] at h
  next =>
    obtain rfl := Except.error.inj h
    decide

theorem Bounded.push (h : s.push v = .ok s') : s'.Bounded ∧ s'.capacity = s.capacity := by
  obtain ⟨hlt, rfl⟩ := push_eq_ok.1 h
  exact ⟨hlt, rfl⟩

theorem Bounded.pop (hs : s.Bounded) (h : s.pop = .ok (v, s')) :
    s'.Bounded ∧ s'.capacity = s.capacity := by
  rw [Stack.pop] at h
  split at h
  next a rest he =>
    obtain ⟨-, rfl⟩ := Prod.mk.inj (Except.ok.inj h)
    simp only [Bounded, size, he, List.length_cons] at hs ⊢
    exact ⟨by omega, trivial⟩
  next => cases h

theorem Bounded.combine (hs : s.Bounded) (h : s.combine f = .ok s') :
    s'.Bounded ∧ s'.capacity = s.capacity := by
  rw [Stack.combine] at h
  split at h
  next a b rest he =>
    cases hv : f a b with
    | error c => simp [hv, Except.map] at h
    | ok v =>
      obtain rfl : { s with items := v :: rest } = s' := by simpa [hv, Except.map] using h
      simp only [Bounded, size, he, List.length_cons] at hs ⊢
      exact ⟨by omega, trivial⟩
  next => cases h

end Stack

def Instruction.effect (s : Stack) (t : Table) : Instruction → Except Cause (Stack × Table)
  | push v => (s.push v).map (·, t)
  | pop => s.pop.map fun r => (r.2, t)
  | add => (s.combine fun a b => .ok (a + b)).map (·, t)
  | sub => (s.combine fun a b => .ok (a - b)).map (·, t)
  | mul => (s.combine fun a b => .ok (a * b)).map (·, t)
  | div => (s.combine Machine.quotient).map (·, t)
  | load n =>
    match t.get? n with
    | some v => (s.push v).map (·, t)
    | none => .ok (s, t)
  | store n => s.pop.map fun r => (r.2, (t.insert n r.1).2)
  | remove n => .ok (s, (t.remove n).2)
  | save _ | list | print => .ok (s, t)

theorem map_eq_ok {α β : Type} {x : Except Cause α} {f : α → β} {b : β} (h : x.map f = .ok b) :
    ∃ a, x = .ok a ∧ f a = b := by
  cases x with
  | error c => cases h
  | ok a => exact ⟨a, rfl, Except.ok.inj h⟩

theorem Instruction.bounded_effect {i : Instruction} {s s' : Stack} {t t' : Table}
    (hs : s.Bounded) (h : i.effect s t = .ok (s', t')) :
    s'.Bounded ∧ s'.capacity = s.capacity := by
  cases i with
  | push v =>
    obtain ⟨_, hp, ⟨⟩⟩ := map_eq_ok h
    exact Stack.Bounded.push hp
  | pop =>
    obtain ⟨_, hp, ⟨⟩⟩ := map_eq_ok h
    exact hs.pop hp
  | add | sub | mul | div =>
    obtain ⟨_, hp, ⟨⟩⟩ := map_eq_ok h
    exact hs.combine hp
  | load n =>
    rw [effect] at h
    split at h
    · obtain ⟨_, hp, ⟨⟩⟩ := map_eq_ok h
      exact Stack.Bounded.push hp
    · obtain ⟨rfl, -⟩ := Prod.mk.inj (Except.ok.inj h)
      exact ⟨hs, rfl⟩
  | store n =>
    obtain ⟨_, hp, ⟨⟩⟩ := map_eq_ok h
    exact hs.pop hp
  | remove n | save n | list | print =>
    obtain ⟨rfl, -⟩ := Prod.mk.inj (Except.ok.inj h)
    exact ⟨hs, rfl⟩

namespace Machine

variable {m m' : Machine} {c : Cause} {i : Instruction} {e : Event}

/-- Stack, table and limits are the same, whatever the surroundings. -/
structure SameCore (m m' : Machine) : Prop where
  limits_eq : m'.limits = m.limits
  stack_eq : m'.stack = m.stack
  table_eq : m'.table = m.table

/-- Nothing has been written for the user and no file has been touched. -/
structure Silent (m m' : Machine) : Prop where
  out_eq : m'.out = m.out
  files_eq : m'.files = m.files

theorem SameCore.refl (m : Machine) : SameCore m m := ⟨rfl, rfl, rfl⟩

theorem SameCore.trans {m'' : Machine} (h : SameCore m m') (h' : SameCore m' m'') :
    SameCore m m'' :=
  ⟨h'.limits_eq.trans h.limits_eq, h'.stack_eq.trans h.stack_eq, h'.table_eq.trans h.table_eq⟩

theorem Silent.refl (m : Machine) : Silent m m := ⟨rfl, rfl⟩

theorem Silent.trans {m'' : Machine} (h : Silent m m') (h' : Silent m' m'') : Silent m m'' :=
  ⟨h'.out_eq.trans h.out_eq, h'.files_eq.trans h.files_eq⟩

theorem sameCore_emit (m : Machine) (e : Event) : SameCore m (m.emit e) := ⟨rfl, rfl, rfl⟩

theorem silent_emit (m : Machine) (e : Event) : Silent m (m.emit e) := ⟨rfl, rfl⟩

/-- How an instruction can end that would make `r` of stack and table. -/
inductive Ends (m : Machine) (r : Except Cause (Stack × Table)) :
    EStateM.Result Cause Machine Unit → Prop where
  /-- It completes. -/
  | done {s : Stack} {t : Table} {m' : Machine} : r = .ok (s, t) → m'.limits = m.limits →
      m'.stack = s → m'.table = t → Ends m r (.ok () m')
  /-- It can make nothing of them. -/
  | refused {c : Cause} {m' : Machine} : r = .error c → c.code.kind ≠ .io → SameCore m m' →
      Silent m m' → Ends m r (.error c m')
  /-- The output or a file fails. -/
  | failed {c : Cause} {m' : Machine} : c.code.kind = .io → SameCore m m' → Ends m r (.error c m')

namespace Ends

variable {r : Except Cause (Stack × Table)} {x : EStateM.Result Cause Machine Unit}

theorem unchanged (hr : r = .error c) (hk : c.code.kind ≠ .io) : Ends m r (.error c m) :=
  .refused hr hk (.refl m) (.refl m)

theorem after_emit (h : Ends (m.emit e) r x) : Ends m r x := by
  cases h with
  | done hr hl hs ht => exact .done hr hl hs ht
  | refused hr hk hc hs =>
    exact .refused hr hk ((sameCore_emit m e).trans hc) ((silent_emit m e).trans hs)
  | failed hk hc => exact .failed hk ((sameCore_emit m e).trans hc)

theorem of_ok {u : Unit} (h : Ends m r (.ok u m')) :
    m'.limits = m.limits ∧ r = .ok (m'.stack, m'.table) := by
  cases h with
  | done hr hl hs ht =>
    subst hs ht
    exact ⟨hl, hr⟩

theorem of_error (h : Ends m r (.error c m')) :
    SameCore m m' ∧ (c.code.kind ≠ .io → Silent m m') := by
  cases h with
  | refused _ _ hc hs => exact ⟨hc, fun _ => hs⟩
  | failed hk hc => exact ⟨hc, fun h => absurd hk h⟩

end Ends

theorem pushOperand_ends (m : Machine) (v : Int32) :
    Ends m ((m.stack.push v).map (·, m.table)) (pushOperand v m) := by
  rw [pushOperand]
  cases h : m.stack.push v with
  | ok s => exact .done rfl rfl rfl rfl
  | error c =>
    obtain rfl := Stack.push_eq_error h
    exact .unchanged rfl (by decide)

theorem print_ends (m : Machine) (w : Writing Unit) :
    Ends m (.ok (m.stack, m.table)) (print w m) := by
  rw [print]
  cases w m.out with
  | ok _ out => exact .done rfl rfl rfl rfl
  | error f out => exact .failed rfl ⟨rfl, rfl, rfl⟩

/-- On a stack within its bounds the result always finds room. -/
theorem arithmetic_eq {f : Int32 → Int32 → Except Cause Int32} (hm : m.stack.Bounded) :
    arithmetic f m =
      match m.stack.combine f with
      | .ok s => .ok () { m with stack := s }
      | .error c => .error c m := by
  rw [Stack.Bounded, Stack.size] at hm
  rcases hi : m.stack.items with _ | ⟨a, _ | ⟨b, rest⟩⟩
  · simp [arithmetic, Stack.peekTwo, Stack.combine, hi]
  · simp [arithmetic, Stack.peekTwo, Stack.combine, hi]
  · rw [hi, List.length_cons, List.length_cons] at hm
    have hroom : ¬ m.stack.capacity ≤ rest.length := by omega
    cases hv : f a b with
    | error c => simp [arithmetic, Stack.peekTwo, Stack.combine, hi, hv, Except.map]
    | ok v =>
      simp [arithmetic, Stack.peekTwo, Stack.popTwo, Stack.combine, hi, hv, Except.map,
        pushOperand, Stack.push, Stack.isFull, Stack.size, hroom]

theorem arithmetic_ends {f : Int32 → Int32 → Except Cause Int32} (hm : m.stack.Bounded)
    (hf : ∀ a b c, f a b = .error c → c.code.kind ≠ .io) :
    Ends m ((m.stack.combine f).map (·, m.table)) (arithmetic f m) := by
  rw [arithmetic_eq hm]
  cases h : m.stack.combine f with
  | ok s => exact .done rfl rfl rfl rfl
  | error c => exact .unchanged rfl (Stack.combine_eq_error hf h)

theorem quotient_eq_error {a b : Int32} (h : quotient a b = .error c) : c = .divisionByZero := by
  rw [quotient] at h
  split at h
  · exact (Except.error.inj h).symm
  · cases h

theorem get_bind {α : Type} (f : Machine → Action α) (m : Machine) :
    (get >>= f : Action α) m = f m m := rfl

theorem popOperand_bind {α : Type} (f : Int32 → Action α) (m : Machine) :
    (popOperand >>= f) m =
      match m.stack.pop with
      | .error c => .error c m
      | .ok (v, s) => f v { m with stack := s } := by
  change EStateM.bind popOperand f m = _
  unfold EStateM.bind popOperand
  cases m.stack.pop <;> rfl

theorem load_eq (m : Machine) (n : Name) : load n m =
    match m.table.get? n with
    | some v => pushOperand v m
    | none => print (Sink.write (Bytes.ascii "Not found.\n")) (m.emit (.nothingToLoad n)) := by
  rw [load, get_bind]
  cases m.table.get? n <;> rfl

theorem store_eq (m : Machine) (n : Name) : store n m =
    match m.stack.pop with
    | .error c => .error c m
    | .ok (v, s) =>
      let m' := { m with stack := s, table := (m.table.insert n v).2 }
      .ok () (match (m.table.insert n v).1 with
        | some previous => m'.emit (.rebound n previous v)
        | none => m') := by
  rw [store, popOperand_bind]
  rcases m.stack.pop with c | ⟨v, s⟩
  · rfl
  · dsimp only
    rw [get_bind]
    dsimp only
    rcases m.table.insert n v with ⟨_ | previous, t⟩ <;> rfl

theorem remove_eq (m : Machine) (n : Name) : remove n m =
    let m' := { m with table := (m.table.remove n).2 }
    .ok () (if (m.table.remove n).1.isNone then m'.emit (.nothingToRemove n) else m') := by
  rw [remove, get_bind]
  rcases m.table.remove n with ⟨_ | v, t⟩ <;> rfl

theorem files_save_eq_error {f f' : Files} {t : Table} {n : Name}
    (h : f.save t n = (.error c, f')) : c.code.kind = .io := by
  rw [Files.save] at h
  split at h
  · cases h
    rfl
  · split at h
    · cases h
      rfl
    · split at h <;> cases h
      rfl

theorem sameCore_withSink (m : Machine) (stream : Stream) (k : Sink) :
    SameCore m (m.withSink stream k) := by
  cases stream <;> exact ⟨rfl, rfl, rfl⟩

theorem SameCore.ends (h : SameCore m m') : Ends m (.ok (m.stack, m.table)) (.ok () m') :=
  .done rfl h.limits_eq h.stack_eq h.table_eq

theorem saveTo_ends (m : Machine) (stream : Stream) (n : Name) :
    Ends m (.ok (m.stack, m.table)) (saveTo stream n m) := by
  rw [saveTo]
  cases m.table.encode (m.sink stream) with
  | ok count k => exact ((sameCore_withSink m stream k).trans (sameCore_emit _ _)).ends
  | error fault k => exact .failed rfl (sameCore_withSink m stream k)

theorem saveFile_ends (m : Machine) (n : Name) :
    Ends m (.ok (m.stack, m.table)) (saveFile n m) := by
  rw [saveFile]
  split
  · exact .done rfl rfl rfl rfl
  next c files h => exact .failed (files_save_eq_error h) ⟨rfl, rfl, rfl⟩

theorem save_ends (m : Machine) (n : Name) : Ends m (.ok (m.stack, m.table)) (save n m) := by
  rw [save]
  split
  · split
    · exact saveTo_ends m _ n
    · exact saveFile_ends m n
  · exact saveFile_ends m n

/-- Every instruction ends as its effect on stack and table demands, output and files permitting. -/
theorem perform_ends (i : Instruction) (hm : m.stack.Bounded) :
    Ends m (i.effect m.stack m.table) (perform i m) := by
  cases i with
  | push v => exact pushOperand_ends m v
  | pop =>
    change Ends m (m.stack.pop.map _) ((popOperand >>= fun _ => pure ()) m)
    rw [popOperand_bind]
    cases h : m.stack.pop with
    | ok r => exact .done rfl rfl rfl rfl
    | error c =>
      obtain rfl := Stack.pop_eq_error h
      exact .unchanged rfl (by decide)
  | add => exact arithmetic_ends hm nofun
  | sub => exact arithmetic_ends hm nofun
  | mul => exact arithmetic_ends hm nofun
  | div =>
    refine arithmetic_ends hm fun a b c h => ?_
    rw [quotient_eq_error h]
    decide
  | load n =>
    rw [Instruction.effect, perform, load_eq]
    cases m.table.get? n with
    | some v => exact pushOperand_ends m v
    | none => exact (print_ends _ _).after_emit
  | store n =>
    change Ends m (m.stack.pop.map _) (store n m)
    rw [store_eq]
    cases h : m.stack.pop with
    | ok r =>
      dsimp only
      split <;> exact .done rfl rfl rfl rfl
    | error c =>
      obtain rfl := Stack.pop_eq_error h
      exact .unchanged rfl (by decide)
  | remove n =>
    change Ends m (.ok _) (remove n m)
    rw [remove_eq]
    dsimp only
    split <;> exact .done rfl rfl rfl rfl
  | save n => exact (save_ends (m.emit (.saving n)) n).after_emit
  | list => exact print_ends m _
  | print => exact print_ends m _

end Machine

end StackCalc
