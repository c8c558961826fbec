import Mathlib.Data.List.Induction
import Mathlib.Data.Nat.Digits.Defs
import StackCalc.Proofs.Instruction.Text

/-! # The grammar of instruction lines

What a line says depends on its fields alone: the runs between separators, however many there are.
The first field has to be one of the twelve words, the number of the others has to be right, and the
argument of a `push` has to be a number in range, in this order. The rules below say so without
reference to how a line is read, and reading follows them, although it looks at four fields only.
-/

namespace StackCalc

namespace Bytes

variable {s : Bytes} {fs : List Bytes} {x : UInt8}

/-- The runs of bytes other than separators, each as long as it can be, from left to right. -/
inductive Runs : Bytes → List Bytes → Prop where
  | nil : Runs [] []
  | separator {x : UInt8} {s : Bytes} {fs : List Bytes} :
      isSeparator x = true → Runs s fs → Runs (x :: s) fs
  | last {f : Bytes} : IsField f → Runs f [f]
  | field {f : Bytes} {x : UInt8} {s : Bytes} {fs : List Bytes} :
      IsField f → isSeparator x = true → Runs s fs → Runs (f ++ x :: s) (f :: fs)

theorem Runs.fields_eq (h : Runs s fs) : fields s = fs := by
  induction h with
  | nil => exact fields_nil
  | separator hx _ ih => rw [fields_separator_cons hx, ih]
  | last hf => exact fields_of_isField hf
  | field hf hx _ ih => rw [fields_append_separator hx, fields_of_isField hf, ih]; rfl

theorem isField_singleton (hx : isSeparator x = false) : IsField [x] := by
  refine ⟨List.cons_ne_nil _ _, ?_⟩
  simpa using hx

theorem IsField.cons {f : Bytes} (hx : isSeparator x = false) (hf : IsField f) :
    IsField (x :: f) :=
  ⟨List.cons_ne_nil _ _, List.forall_mem_cons.2 ⟨hx, hf.2⟩⟩

theorem Runs.exists_cons (h : Runs s fs) (x : UInt8) : ∃ gs, Runs (x :: s) gs := by
  cases hx : isSeparator x with
  | true => exact ⟨fs, .separator hx h⟩
  | false =>
    cases h with
    | nil => exact ⟨_, .last (isField_singleton hx)⟩
    | separator hy h => exact ⟨_, .field (isField_singleton hx) hy h⟩
    | last hf => exact ⟨_, .last (hf.cons hx)⟩
    | field hf hy h => exact ⟨_, .field (hf.cons hx) hy h⟩

theorem exists_runs (s : Bytes) : ∃ fs, Runs s fs := by
  induction s with
  | nil => exact ⟨[], .nil⟩
  | cons x s ih =>
    obtain ⟨fs, h⟩ := ih
    exact h.exists_cons x

theorem runs_fields (s : Bytes) : Runs s (fields s) := by
  obtain ⟨fs, h⟩ := exists_runs s
  rwa [h.fields_eq]

end Bytes

namespace Decimal

variable {s : Bytes} {z : Int} {v : Int32}

def IsNumeral (s : Bytes) : Prop := s ≠ [] ∧ ∀ x ∈ s, isDigit x = true

def value (s : Bytes) : Nat := Nat.ofDigits 10 (s.reverse.map (·.toNat - 48))

/-- A numeral with or without a sign, and the integer it stands for. -/
inductive Denotes : Bytes → Int → Prop where
  | unsigned {s : Bytes} : IsNumeral s → Denotes s (value s)
  | plus {s : Bytes} : IsNumeral s → Denotes (43 :: s) (value s)
  | minus {s : Bytes} : IsNumeral s → Denotes (45 :: s) (-value s)

theorem magnitude_eq_value (s : Bytes) : magnitude s = value s := by
  induction s using List.reverseRecOn with
  | nil => rfl
  | append_singleton s x ih =>
    rw [magnitude_append_singleton, ih, value, value, List.reverse_append, List.map_append,
      Nat.ofDigits_append]
    simp [Nat.add_comm]

theorem readNat?_eq_some_iff {n : Nat} : readNat? s = some n ↔ IsNumeral s ∧ n = value s := by
  have hnum : (!s.isEmpty && s.all isDigit) = true ↔ IsNumeral s := by simp [IsNumeral]
  rw [readNat?]
  split
  next h => simp [hnum.1 h, magnitude_eq_value, eq_comm]
  next h => simp [mt hnum.2 h]

theorem map_readNat?_eq_some_iff {g : Nat → Int} :
    (readNat? s).map g = some z ↔ IsNumeral s ∧ z = g (value s) := by
  simp only [Option.map_eq_some_iff, readNat?_eq_some_iff]
  constructor
  · rintro ⟨_, ⟨hs, rfl⟩, rfl⟩
    exact ⟨hs, rfl⟩
  · rintro ⟨hs, rfl⟩
    exact ⟨_, ⟨hs, rfl⟩, rfl⟩

theorem readInt?_minus (s : Bytes) :
    readInt? (45 :: s) = (readNat? s).map fun n : Nat => -(n : Int) := by
  rw [readInt?]
  cases readNat? s <;> rfl

theorem readInt?_eq_some_iff : readInt? s = some z ↔ Denotes s z := by
  constructor
  · intro h
    by_cases hplus : ∃ t, s = 43 :: t
    · obtain ⟨t, rfl⟩ := hplus
      obtain ⟨ht, rfl⟩ := map_readNat?_eq_some_iff.1 h
      exact .plus ht
    by_cases hminus : ∃ t, s = 45 :: t
    · obtain ⟨t, rfl⟩ := hminus
      rw [readInt?_minus] at h
      obtain ⟨ht, rfl⟩ := map_readNat?_eq_some_iff.1 h
      exact .minus ht
    rw [readInt?] at h
    · obtain ⟨hs, rfl⟩ := map_readNat?_eq_some_iff.1 h
      exact .unsigned hs
    · exact fun t ht => hplus ⟨t, ht⟩
    · exact fun t ht => hminus ⟨t, ht⟩
  · rintro (hs | hs | hs)
    · rw [readInt?_of_isDigit hs.2]
      exact map_readNat?_eq_some_iff.2 ⟨hs, rfl⟩
    · exact map_readNat?_eq_some_iff.2 ⟨hs, rfl⟩
    · rw [readInt?_minus]
      exact map_readNat?_eq_some_iff.2 ⟨hs, rfl⟩

theorem readInt32?_of_denotes (h : Denotes s z) :
    readInt32? s = if -2 ^ 31 ≤ z ∧ z ≤ 2 ^ 31 - 1 then some (Int32.ofInt z) else none := by
  rw [readInt32?, readInt?_eq_some_iff.2 h]
  rfl

theorem readInt32?_eq_some_iff : readInt32? s = some v ↔ Denotes s v.toInt := by
  constructor
  · intro h
    obtain ⟨z, hz, -⟩ := Option.bind_eq_some_iff.1 h
    rw [readInt?_eq_some_iff] at hz
    rw [readInt32?_of_denotes hz] at h
    split at h
    next hr =>
      obtain rfl := Option.some.inj h
      rwa [Int32.toInt_ofInt_of_le hr.1 (by omega)]
    next => cases h
  · intro h
    have hlow : -2 ^ 31 ≤ v.toInt := v.minValue_le_toInt
    have hhigh : v.toInt ≤ 2 ^ 31 - 1 := v.toInt_le
    rw [readInt32?_of_denotes h, if_pos ⟨hlow, hhigh⟩, Int32.ofInt_toInt]

theorem readInt32?_eq_none_iff :
    readInt32? s = none ↔ ∀ z, Denotes s z → ¬ (-2 ^ 31 ≤ z ∧ z ≤ 2 ^ 31 - 1) := by
  constructor
  · intro h z hz hr
    rw [readInt32?_of_denotes hz, if_pos hr] at h
    cases h
  · intro h
    refine Option.eq_none_iff_forall_ne_some.2 fun v hv => ?_
    exact h v.toInt (readInt32?_eq_some_iff.1 hv) ⟨v.minValue_le_toInt, v.toInt_le⟩

end Decimal

theorem Opcode.arity_le_one (op : Opcode) : op.arity ≤ 1 := by
  cases op <;> decide

theorem Opcode.instruction_of_length_eq {op : Opcode} {arguments : List Bytes}
    (hlen : arguments.length = op.arity) (hop : op ≠ .push) :
    ∃ i, op.instruction arguments = .ok i ∧ i.opcode = op ∧ i.name?.toList = arguments := by
  cases op with
  | push => exact absurd rfl hop
  | load | store | remove | save =>
    obtain ⟨n, rfl⟩ := List.length_eq_one_iff.1 hlen
    exact ⟨_, rfl, rfl, rfl⟩
  | add | sub | mul | div | pop | list | print =>
    obtain rfl := List.length_eq_zero_iff.1 hlen
    exact ⟨_, rfl, rfl, rfl⟩

theorem Instruction.operand?_eq_name? {i : Instruction} (h : i.opcode ≠ .push) :
    i.operand? = i.name? := by
  cases i with
  | push v => exact absurd rfl h
  | _ => rfl

namespace Line

open Bytes (Runs)
open Decimal (Denotes)

variable {s : Bytes} {fs : List Bytes} {r : Except Code (Option Instruction)}

def verdict (l : Line) : Except Code (Option Instruction) := l.instruction?.mapError Cause.code

/-- The rules that tell from all the fields of a line what it comes to. -/
inductive Reads : List Bytes → Except Code (Option Instruction) → Prop where
  | blank : Reads [] (.ok none)
  | unknown {word : Bytes} {arguments : List Bytes} : (∀ op : Opcode, word ≠ op.word) →
      Reads (word :: arguments) (.error .syntaxError)
  | miscounted {op : Opcode} {arguments : List Bytes} : arguments.length ≠ op.arity →
      Reads (op.word :: arguments) (.error .illegalArgumentCount)
  | notANumber {f : Bytes} : (∀ z, Denotes f z → ¬ (-2 ^ 31 ≤ z ∧ z ≤ 2 ^ 31 - 1)) →
      Reads [Opcode.push.word, f] (.error .invalidNumber)
  | number {f : Bytes} {v : Int32} : Denotes f v.toInt →
      Reads [Opcode.push.word, f] (.ok (some (.push v)))
  | other {i : Instruction} : i.opcode ≠ .push →
      Reads (i.opcode.word :: i.name?.toList) (.ok (some i))

theorem verdict_unknown {word : Bytes} (h : Opcode.ofWord? word = none) (arguments : List Bytes) :
    verdict ⟨word :: arguments⟩ = .error .syntaxError := by
  simp only [verdict, instruction?, h]
  rfl

theorem verdict_word (op : Opcode) (arguments : List Bytes) :
    verdict ⟨op.word :: arguments⟩ = ((op.instruction arguments).map some).mapError Cause.code := by
  simp only [verdict, instruction?, Opcode.ofWord?_word]

theorem verdict_miscounted {op : Opcode} {arguments : List Bytes}
    (h : arguments.length ≠ op.arity) :
    verdict ⟨op.word :: arguments⟩ = .error .illegalArgumentCount := by
  rw [verdict_word, Opcode.instruction_of_length_ne h]
  rfl

theorem verdict_operand (i : Instruction) :
    verdict ⟨i.opcode.word :: i.operand?.toList⟩ = .ok (some i) := by
  rw [verdict_word, Instruction.instruction_operand]
  rfl

theorem verdict_push (f : Bytes) :
    verdict ⟨[Opcode.push.word, f]⟩ =
      match Decimal.readInt32? f with
      | some v => .ok (some (.push v))
      | none => .error .invalidNumber := by
  rw [verdict_word, Opcode.instruction]
  cases Decimal.readInt32? f <;> rfl

theorem Reads.verdict_eq (h : Reads fs r) : verdict ⟨fs⟩ = r := by
  cases h with
  | blank => rfl
  | @unknown word arguments h =>
    refine verdict_unknown (Option.eq_none_iff_forall_ne_some.2 fun op hop => ?_) arguments
    exact h op (Opcode.ofWord?_eq_some_iff.1 hop)
  | miscounted h => exact verdict_miscounted h
  | notANumber h => rw [verdict_push, Decimal.readInt32?_eq_none_iff.2 h]
  | number h => rw [verdict_push, Decimal.readInt32?_eq_some_iff.2 h]
  | other h => rw [← Instruction.operand?_eq_name? h, verdict_operand]

theorem reads_verdict (fs : List Bytes) : Reads fs (verdict ⟨fs⟩) := by
  cases fs with
  | nil => exact .blank
  | cons word arguments =>
    cases hword : Opcode.ofWord? word with
    | none =>
      rw [verdict_unknown hword]
      refine .unknown fun op hop => ?_
      rw [hop, Opcode.ofWord?_word] at hword
      cases hword
    | some op =>
      obtain rfl := Opcode.ofWord?_eq_some_iff.1 hword
      by_cases hlen : arguments.length = op.arity
      · by_cases hop : op = .push
        · subst hop
          obtain ⟨f, rfl⟩ := List.length_eq_one_iff.1 hlen
          rw [verdict_push]
          cases hf : Decimal.readInt32? f with
          | none => exact .notANumber (Decimal.readInt32?_eq_none_iff.1 hf)
          | some v => exact .number (Decimal.readInt32?_eq_some_iff.1 hf)
        · obtain ⟨i, hi, rfl, rfl⟩ := Opcode.instruction_of_length_eq hlen hop
          rw [verdict_word, hi]
          exact .other hop
      · rw [verdict_miscounted hlen]
        exact .miscounted hlen

/-- Nothing depends on the fields that are not looked at. -/
theorem verdict_take (fs : List Bytes) : verdict ⟨fs.take mostFields⟩ = verdict ⟨fs⟩ := by
  cases fs with
  | nil => rfl
  | cons word arguments =>
    change verdict ⟨word :: arguments.take 3⟩ = _
    cases hword : Opcode.ofWord? word with
    | none => rw [verdict_unknown hword, verdict_unknown hword]
    | some op =>
      obtain rfl := Opcode.ofWord?_eq_some_iff.1 hword
      rcases Nat.lt_or_ge 3 arguments.length with hlen | hlen
      · -- Three arguments are too many for any opcode, and so are all of them.
        have harity := op.arity_le_one
        have htake : (arguments.take 3).length = 3 := List.length_take_of_le hlen.le
        rw [verdict_miscounted (by omega), verdict_miscounted (by omega)]
      · rw [List.take_of_length_le hlen]

theorem verdict_ofBytes (h : Runs s fs) : (ofBytes s).verdict = verdict ⟨fs⟩ := by
  rw [ofBytes, Bytes.firstFields, h.fields_eq, verdict_take]

/-- Every line has its fields. It comes to what the rules say of all of them, to nothing else, and
to the same as if none had been left out. -/
theorem verdict_iff_reads (s : Bytes) :
    (∃ fs, Runs s fs) ∧ ∀ fs, Runs s fs →
      (∀ r, (ofBytes s).verdict = r ↔ Reads fs r) ∧ (ofBytes s).verdict = verdict ⟨fs⟩ := by
  refine ⟨Bytes.exists_runs s, fun fs h => ⟨fun r => ?_, verdict_ofBytes h⟩⟩
  rw [verdict_ofBytes h]
  constructor
  · rintro rfl
    exact reads_verdict fs
  · exact Reads.verdict_eq

open Bytes (ascii) in
/-- A sign and leading zeros make no difference; a sixth field does, though it is not looked at. -/
theorem verdict_padded_number :
    let s := ascii "\tpush  +007 \r"
    let t := ascii "pop a b c d e"
    (Runs s [ascii "push", ascii "+007"] ∧
        Reads [ascii "push", ascii "+007"] (.ok (some (.push 7)))) ∧
      Reads (Bytes.fields t) (.error .illegalArgumentCount) := by
  intro s t
  have hs : Runs s [ascii "push", ascii "+007"] := Bytes.runs_fields s
  refine ⟨⟨hs, (((verdict_iff_reads s).2 _ hs).1 _).1 rfl⟩, ?_⟩
  exact (((verdict_iff_reads t).2 _ (Bytes.runs_fields t)).1 _).1 rfl

end Line

end StackCalc
