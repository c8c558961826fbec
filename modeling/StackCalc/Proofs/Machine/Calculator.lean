import Mathlib.Data.Finset.Sort
import StackCalc.Proofs.Instruction.Grammar
import StackCalc.Proofs.Machine.Effect
import StackCalc.Proofs.Machine.Surroundings
import StackCalc.Proofs.Table.Dictionary

/-! # A machine is a calculator

A calculator has a list of operands, a finite map from names to values, and what it has written so
far. Its arithmetic is that of the integers, reduced modulo 2 ^ 32. Where neither output nor saves
fail, a machine answers every call as the calculator does, and afterwards has the same operands,
the same bindings and the same output.
-/

namespace StackCalc

open Bytes (ascii)

def Bindings.listing (b : Bindings) : Bytes :=
  (b.keys.sort (· ≤ ·)).flatMap fun n =>
    (b.lookup n).elim [] fun v =>
      ascii "VARIABLE: " ++ n ++ ascii ", VALUE: " ++ Decimal.ofInt v.toInt ++ ascii "\n"

structure Calculator where
  /-- The operands, top first. -/
  stack : List Int32 := []
  bindings : Bindings := ∅
  output : Bytes := []

inductive Call where
  | execute (line : Bytes)
  | reset
  deriving DecidableEq, Repr

def Call.history {σ : Type} (call : σ → Call → Except Code Unit × σ) :
    σ → List Call → List (Except Code Unit × σ)
  | _, [] => []
  | s, c :: cs => call s c :: history call (call s c).2 cs

namespace Calculator

def write (a : Calculator) (s : Bytes) : Calculator := { a with output := a.output ++ s }

def push (capacity : Nat) (a : Calculator) (v : Int32) : Except Code Calculator :=
  if a.stack.length = capacity then .error .stackOverflow
  else .ok { a with stack := v :: a.stack }

def pop (a : Calculator) : Except Code (Int32 × Calculator) :=
  match a.stack with
  | [] => .error .stackUnderflow
  | v :: rest => .ok (v, { a with stack := rest })

/-- Replaces the top `x` and the operand `y` under it by the integer `f x y`, modulo 2 ^ 32. -/
def combine (a : Calculator) (f : Int → Int → Except Code Int) : Except Code Calculator :=
  match a.stack with
  | x :: y :: rest => (f x.toInt y.toInt).map fun z => { a with stack := Int32.ofInt z :: rest }
  | _ => .error .stackUnderflow

def divide (x y : Int) : Except Code Int :=
  if y = 0 then .error .divisionByZero else .ok (x.tdiv y)

def perform (capacity : Nat) (a : Calculator) : Instruction → Except Code Calculator
  | .push v => a.push capacity v
  | .pop => a.pop.map fun r => r.2
  | .add => a.combine fun x y => .ok (x + y)
  | .sub => a.combine fun x y => .ok (x - y)
  | .mul => a.combine fun x y => .ok (x * y)
  | .div => a.combine divide
  | .load n =>
    match a.bindings.lookup n with
    | some v => a.push capacity v
    | none => .ok (a.write (ascii "Not found.\n"))
  | .store n => a.pop.map fun r => { r.2 with bindings := r.2.bindings.insert n r.1 }
  | .remove n => .ok { a with bindings := a.bindings.erase n }
  | .save n => if Utf8.isWellFormed n then .ok a else .error .badFileName
  | .list => .ok (a.write a.bindings.listing)
  | .print => .ok (a.write (a.stack.flatMap fun v => Decimal.ofInt v.toInt ++ ascii "\n"))

/-- A call that fails changes nothing. -/
def call (capacity : Nat) (a : Calculator) : Call → Except Code Unit × Calculator
  | .execute line =>
    match (Line.ofBytes line).verdict with
    | .error c => (.error c, a)
    | .ok none => (.ok (), a)
    | .ok (some i) =>
      match a.perform capacity i with
      | .error c => (.error c, a)
      | .ok a' => (.ok (), a')
  | .reset => (.ok (), { a with stack := [], bindings := ∅ })

end Calculator

theorem Table.Represents.listing_eq {t : Table} {b : Bindings} (h : t.Represents b) :
    t.ascending.flatMap (fun n => n.listing.flatten) = b.listing := by
  have hs := h.shows
  have hkeys : b.keys = (t.ascending.map Node.name).toFinset := by
    ext n
    rw [Finmap.mem_keys, Finmap.mem_def, ← hs.entries_eq]
    simp [Multiset.keys]
  have hsort : b.keys.sort (· ≤ ·) = t.ascending.map Node.name := by
    rw [hkeys]
    refine (List.toFinset_sort _ ?_).2 ?_
    · exact hs.ascending.imp fun h => Name.ne_of_compare_lt (Name.compare_lt_iff.2 h)
    · exact hs.ascending.imp List.le_of_lt
  rw [Bindings.listing, hsort, List.flatMap_map]
  refine List.flatMap_congr fun n hn => ?_
  have hlookup : b.lookup n.name = some n.value := by
    rw [Finmap.lookup_eq_some_iff, ← hs.entries_eq]
    exact Multiset.mem_coe.2 (List.mem_map_of_mem hn)
  rw [hlookup]
  simp [Node.listing]

namespace Machine

variable {L : Limits} {m : Machine} {a : Calculator} {capacity : Nat}

def call (m : Machine) : Call → Except Code Unit × Machine
  | .execute line =>
    match execute line m with
    | .ok _ m' => (.ok (), m')
    | .error c m' => (.error c.code, m')
  | .reset => (.ok (), m.reset.2)

/-- The machine has what the calculator has, and nothing around it can fail. -/
structure Implements (m : Machine) (capacity : Nat) (a : Calculator) : Prop where
  capacity_eq : m.stack.capacity = capacity
  length_le : a.stack.length ≤ capacity
  stack_eq : m.stack.items = a.stack
  table : m.table.Represents a.bindings
  room_eq : m.out.room = none
  output_eq : m.out.bytes = a.output
  accepts : m.files.AcceptsSaves

inductive Agrees (capacity : Nat) (a : Calculator) :
    Except Code Calculator → EStateM.Result Cause Machine Unit → Prop where
  | done {a' : Calculator} {m' : Machine} : m'.Implements capacity a' →
      Agrees capacity a (.ok a') (.ok () m')
  | failed {c : Cause} {m' : Machine} : m'.Implements capacity a →
      Agrees capacity a (.error c.code) (.error c m')

theorem quotient_eq_divide (x y : Int32) :
    (quotient x y).mapError Cause.code =
      (Calculator.divide x.toInt y.toInt).map Int32.ofInt := by
  have hzero : y.toInt = 0 ↔ y = 0 := by
    rw [← Int32.toInt_inj]
    rfl
  rw [quotient, Calculator.divide]
  by_cases hy : y = 0
  · rw [if_pos hy, if_pos (hzero.2 hy)]
    rfl
  · rw [if_neg hy, if_neg (hzero.not.2 hy)]
    have hdiv : Int32.ofInt (x.toInt.tdiv y.toInt) = x / y := by
      rw [Int32.ofInt_tdiv (Int32.minValue_le_toInt x) (Int32.toInt_le x)
        (Int32.minValue_le_toInt y) (Int32.toInt_le y), Int32.ofInt_toInt, Int32.ofInt_toInt]
    exact congrArg Except.ok hdiv.symm

namespace Implements

theorem emit (h : m.Implements capacity a) (e : Event) : (m.emit e).Implements capacity a :=
  ⟨h.capacity_eq, h.length_le, h.stack_eq, h.table, h.room_eq, h.output_eq, h.accepts⟩

theorem bounded (h : m.Implements capacity a) : m.stack.Bounded := by
  rw [Stack.Bounded, Stack.size, h.stack_eq, h.capacity_eq]
  exact h.length_le

theorem withItems (h : m.Implements capacity a) (items : List Int32)
    (hlen : items.length ≤ capacity) :
    Implements { m with stack := { m.stack with items } } capacity { a with stack := items } :=
  ⟨h.capacity_eq, hlen, rfl, h.table, h.room_eq, h.output_eq, h.accepts⟩

theorem withTable (h : m.Implements capacity a) {t : Table} {b : Bindings} (ht : t.Represents b) :
    Implements { m with table := t } capacity { a with bindings := b } :=
  ⟨h.capacity_eq, h.length_le, h.stack_eq, ht, h.room_eq, h.output_eq, h.accepts⟩

theorem pushOperand (h : m.Implements capacity a) (v : Int32) :
    Agrees capacity a (a.push capacity v) (pushOperand v m) := by
  have hlen := h.length_le
  have hsize : m.stack.size = a.stack.length := congrArg List.length h.stack_eq
  rw [Machine.pushOperand, Calculator.push]
  by_cases hfull : a.stack.length = capacity
  · have hpush : m.stack.push v = .error .stackOverflow :=
      if_pos (by simp [Stack.isFull, hsize, h.capacity_eq, hfull])
    rw [if_pos hfull, hpush]
    exact .failed (c := .stackOverflow) h
  · have hlt : a.stack.length < capacity := by omega
    have hpush : m.stack.push v = .ok { m.stack with items := v :: a.stack } := by
      refine Stack.push_eq_ok.2 ⟨?_, by rw [h.stack_eq]⟩
      rwa [hsize, h.capacity_eq]
    rw [if_neg hfull, hpush]
    exact .done (h.withItems (v :: a.stack) hlt)

theorem print (h : m.Implements capacity a) {w : Writing Unit} {s : Bytes}
    (hw : ∀ k, k.room = none → ∃ k', w k = .ok () k' ∧ Sink.Grown k s k') :
    Agrees capacity a (.ok (a.write s)) (print w m) := by
  obtain ⟨k', hk', hg⟩ := hw m.out h.room_eq
  rw [Machine.print, hk']
  refine .done ⟨h.capacity_eq, h.length_le, h.stack_eq, h.table, hg.room_eq, ?_, h.accepts⟩
  rw [hg.bytes_eq, h.output_eq]
  rfl

theorem pop (h : m.Implements capacity a) :
    (m.stack.pop = .error .stackUnderflow ∧ a.pop = .error .stackUnderflow) ∨
      ∃ v rest, m.stack.pop = .ok (v, { m.stack with items := rest }) ∧
        a.pop = .ok (v, { a with stack := rest }) ∧
        Implements { m with stack := { m.stack with items := rest } } capacity
          { a with stack := rest } := by
  have hlen := h.length_le
  rw [Stack.pop, h.stack_eq, Calculator.pop]
  cases hs : a.stack with
  | nil => exact .inl ⟨rfl, rfl⟩
  | cons v rest =>
    rw [hs, List.length_cons] at hlen
    exact .inr ⟨v, rest, rfl, rfl, h.withItems rest (Nat.le_of_succ_le hlen)⟩

theorem arithmetic (h : m.Implements capacity a) {f : Int32 → Int32 → Except Cause Int32}
    {g : Int → Int → Except Code Int}
    (hfg : ∀ x y, (f x y).mapError Cause.code = (g x.toInt y.toInt).map Int32.ofInt) :
    Agrees capacity a (a.combine g) (arithmetic f m) := by
  have hlen := h.length_le
  rw [arithmetic_eq h.bounded, Stack.combine, h.stack_eq, Calculator.combine]
  rcases hs : a.stack with _ | ⟨x, _ | ⟨y, rest⟩⟩
  · exact .failed (c := .stackUnderflow) h
  · exact .failed (c := .stackUnderflow) h
  · rw [hs, List.length_cons] at hlen
    have hxy := hfg x y
    dsimp only
    cases hf : f x y with
    | error c =>
      cases hg : g x.toInt y.toInt with
      | error c' =>
        rw [hf, hg] at hxy
        obtain rfl : c.code = c' := Except.error.inj hxy
        exact .failed h
      | ok z =>
        rw [hf, hg] at hxy
        cases hxy
    | ok v =>
      cases hg : g x.toInt y.toInt with
      | error c' =>
        rw [hf, hg] at hxy
        cases hxy
      | ok z =>
        rw [hf, hg] at hxy
        obtain rfl : v = Int32.ofInt z := Except.ok.inj hxy
        exact .done (h.withItems (Int32.ofInt z :: rest) (Nat.le_of_succ_le hlen))

theorem load (h : m.Implements capacity a) (n : Name) :
    Agrees capacity a (a.perform capacity (.load n)) (load n m) := by
  have hget : m.table.get? n = a.bindings.lookup n :=
    (h.table.wellFormed.get?_eq n).trans (h.table.get?_eq n)
  rw [load_eq, hget, Calculator.perform]
  cases a.bindings.lookup n with
  | some v => exact h.pushOperand v
  | none => exact (h.emit _).print fun k hk => Sink.write_grown hk _

theorem store (h : m.Implements capacity a) (n : Name) :
    Agrees capacity a (a.perform capacity (.store n)) (store n m) := by
  rw [store_eq, Calculator.perform]
  obtain ⟨hm, ha⟩ | ⟨v, rest, hm, ha, h'⟩ := h.pop
  · rw [hm, ha]
    exact .failed (c := .stackUnderflow) h
  · rw [hm, ha]
    have ht := h'.withTable (h.table.apply (.insert n v)).2
    dsimp only
    split
    · exact .done (ht.emit _)
    · exact .done ht

theorem remove (h : m.Implements capacity a) (n : Name) :
    Agrees capacity a (a.perform capacity (.remove n)) (remove n m) := by
  have ht := h.withTable (h.table.apply (.remove n)).2
  rw [remove_eq, Calculator.perform]
  dsimp only
  split
  · exact .done (ht.emit _)
  · exact .done ht

theorem save (h : m.Implements capacity a) (n : Name) :
    Agrees capacity a (a.perform capacity (.save n)) (save n m) := by
  have haccepts := h.accepts.save m.table n
  rw [Machine.save, h.accepts.stream?_eq_none, Calculator.perform]
  dsimp only
  rw [saveFile]
  by_cases hn : Utf8.isWellFormed n
  · obtain ⟨count, hcount⟩ := h.accepts.save_eq_ok m.table hn
    rw [if_pos hn]
    rcases hs : m.files.save m.table n with ⟨r, files⟩
    rw [hs] at hcount haccepts
    obtain rfl : r = .ok count := hcount
    have h' : Implements { m with files } capacity a :=
      ⟨h.capacity_eq, h.length_le, h.stack_eq, h.table, h.room_eq, h.output_eq, haccepts⟩
    exact .done (h'.emit _)
  · have hs : m.files.save m.table n = (.error (.targetNotText n), m.files) :=
      if_pos (by simpa using hn)
    rw [if_neg hn, hs]
    exact .failed (c := .targetNotText n) h

theorem perform (h : m.Implements capacity a) (i : Instruction) :
    Agrees capacity a (a.perform capacity i) (perform i m) := by
  cases i with
  | push v => exact h.pushOperand v
  | pop =>
    change Agrees capacity a (a.pop.map _) ((popOperand >>= fun _ => pure ()) m)
    rw [popOperand_bind]
    obtain ⟨hm, ha⟩ | ⟨v, rest, hm, ha, h'⟩ := h.pop
    · rw [hm, ha]
      exact .failed (c := .stackUnderflow) h
    · rw [hm, ha]
      exact .done h'
  | add | sub | mul =>
    rw [Machine.perform, Calculator.perform]
    refine h.arithmetic fun x y => ?_
    simp [Except.mapError, Except.map, Int32.ofInt_add, Int32.ofInt_sub, Int32.ofInt_mul]
  | div => exact h.arithmetic quotient_eq_divide
  | load n => exact h.load n
  | store n => exact h.store n
  | remove n => exact h.remove n
  | save n => exact (h.emit _).save n
  | list =>
    rw [Calculator.perform, ← h.table.listing_eq]
    refine h.print fun k hk => ?_
    exact Sink.forM_grown (fun n => Sink.writeAll_eq_write n.listing) hk m.table.ascending
  | print =>
    rw [Calculator.perform, ← h.stack_eq]
    refine h.print fun k hk => Sink.forM_grown (fun v => ?_) hk m.stack.items
    have hw := Sink.writeAll_eq_write [Decimal.ofInt v.toInt, ascii "\n"]
    simpa using hw

/-- A call gets the same answer from both and leaves them in agreement. -/
theorem call (h : m.Implements capacity a) (c : Call) :
    (m.call c).1 = (a.call capacity c).1 ∧
      (m.call c).2.Implements capacity (a.call capacity c).2 := by
  cases c with
  | execute line =>
    rw [Machine.call, Calculator.call, execute, Line.verdict]
    rcases (Line.ofBytes line).instruction? with c | _ | i
    · exact ⟨rfl, h⟩
    · exact ⟨rfl, h⟩
    · have hi := (h.emit (.executing i m.stack.size)).perform i
      dsimp only [Except.mapError]
      generalize a.perform capacity i = r at hi ⊢
      generalize Machine.perform i (m.emit (.executing i m.stack.size)) = x at hi ⊢
      cases hi with
      | done h' => exact ⟨rfl, h'⟩
      | failed h' => exact ⟨rfl, h'⟩
  | reset =>
    have ht := (h.withItems [] (Nat.zero_le _)).withTable (h.table.apply .clear).2
    exact ⟨rfl, ht.emit _⟩

theorem history (h : m.Implements capacity a) (calls : List Call) :
    List.Forall₂ (fun x y => x.1 = y.1 ∧ x.2.Implements capacity y.2)
      (Call.history Machine.call m calls) (Call.history (Calculator.call capacity) a calls) := by
  induction calls generalizing m a with
  | nil => exact .nil
  | cons c calls ih => exact .cons (h.call c) (ih (h.call c).2)

end Implements

theorem implements_new (hm : SameCore (new L) m) (hout : m.out.room = none)
    (hfiles : m.files.AcceptsSaves) :
    m.Implements L.stackCapacity.toNat { output := m.out.bytes } := by
  refine ⟨?_, Nat.zero_le _, ?_, ?_, hout, rfl, hfiles⟩
  · rw [hm.stack_eq]
    rfl
  · rw [hm.stack_eq]
    rfl
  · rw [hm.table_eq]
    exact Table.represents_empty

/-- Over every sequence of calls a new machine answers as a calculator does, and has the same
operands, bindings and output after every one of them. -/
theorem history_refines_calculator (hm : SameCore (new L) m) (hout : m.out.room = none)
    (hfiles : m.files.AcceptsSaves) (calls : List Call) :
    List.Forall₂
      (fun x y => x.1 = y.1 ∧ x.2.stack.items = y.2.stack ∧ x.2.table.Shows y.2.bindings ∧
        x.2.out.bytes = y.2.output)
      (Call.history call m calls)
      (Call.history (Calculator.call L.stackCapacity.toNat) { output := m.out.bytes } calls) := by
  refine ((implements_new hm hout hfiles).history calls).imp ?_
  rintro x y ⟨hanswer, h⟩
  exact ⟨hanswer, h.stack_eq, h.table.shows, h.output_eq⟩

open Except in
/-- The least number divided by `-1` is itself again. -/
theorem history_of_least_quotient :
    let m : Machine := { new { stackCapacity := 2 } with files := { storage := .shelf {} } }
    let calls : List Call := [.execute (ascii "push -1"), .execute (ascii "push -2147483648"),
      .execute (ascii "push 0"), .execute (ascii "/"), .execute (ascii "print"), .reset]
    SameCore (new { stackCapacity := 2 }) m ∧ m.out.room = none ∧ m.files.AcceptsSaves ∧
      (Call.history call m calls).map (fun x => (x.1, x.2.stack.items, x.2.out.bytes)) =
        [(ok (), [-1], []), (ok (), [-2147483648, -1], []),
          (error .stackOverflow, [-2147483648, -1], []), (ok (), [-2147483648], []),
          (ok (), [-2147483648], ascii "-2147483648\n"), (ok (), [], ascii "-2147483648\n")] := by
  intro m calls
  have hm : SameCore (new { stackCapacity := 2 }) m := ⟨rfl, rfl, rfl⟩
  have hfiles : m.files.AcceptsSaves :=
    Files.acceptsSaves_of_isOpen _ fun _ _ => ⟨{}, rfl, rfl, rfl⟩
  refine ⟨hm, rfl, hfiles, ?_⟩
  have hmap : (Call.history call m calls).map (fun x => (x.1, x.2.stack.items, x.2.out.bytes)) =
      (Call.history (Calculator.call 2) {} calls).map fun y => (y.1, y.2.stack, y.2.output) := by
    rw [← List.forall₂_eq_eq_eq, List.forall₂_map_left_iff, List.forall₂_map_right_iff]
    refine (history_refines_calculator hm rfl hfiles calls).imp ?_
    rintro x y ⟨hanswer, hstack, -, hout⟩
    rw [hanswer, hstack, hout]
  rw [hmap]
  decide

end Machine

end StackCalc
