import StackCalc.Instruction.Line

/-! # Reading back what is written

A number is read back from its decimal text, and an instruction from its own text, provided that
its name can be the field of a line: such a name is not empty and has no separator in it.
-/

namespace StackCalc

namespace Bytes

variable {s a b : Bytes} {x : UInt8}

def IsField (s : Bytes) : Prop := s ≠ [] ∧ ∀ x ∈ s, isSeparator x = false

theorem isField_iff : IsField s ↔ (!s.isEmpty && s.all (!isSeparator ·)) = true := by
  simp [IsField]

instance : DecidablePred IsField := fun _ => decidable_of_decidable_of_iff isField_iff.symm

theorem fields_of_isField (h : IsField s) : fields s = [s] := by
  rw [fields, List.splitOnP_eq_singleton h.2]
  simp [h.1]

theorem fields_append_separator (hx : isSeparator x = true) :
    fields (a ++ x :: b) = fields a ++ fields b := by
  rw [fields, List.splitOnP_append_cons a b hx, List.filter_append]
  rfl

theorem IsField.newline_notMem (h : IsField s) : newline ∉ s := by
  intro hn
  exact absurd (h.2 newline hn) (by decide)

end Bytes

namespace Decimal

open Bytes

variable {n : Nat} {x : UInt8}

theorem toUInt8_digitChar {d : Nat} (hd : d < 10) :
    isDigit (Nat.digitChar d).toUInt8 = true ∧ (Nat.digitChar d).toUInt8.toNat - 48 = d := by
  have h : ∀ d < 10, isDigit (Nat.digitChar d).toUInt8 = true ∧
      (Nat.digitChar d).toUInt8.toNat - 48 = d := by
    decide
  exact h d hd

theorem ofNat_of_lt (hn : n < 10) : ofNat n = [(Nat.digitChar n).toUInt8] := by
  rw [ofNat, Nat.toDigits_of_lt_base hn]
  rfl

theorem ofNat_of_le (hn : 10 ≤ n) :
    ofNat n = ofNat (n / 10) ++ [(Nat.digitChar (n % 10)).toUInt8] := by
  rw [ofNat, Nat.toDigits_of_base_le (by decide) hn, List.map_append]
  rfl

theorem ofNat_ne_nil (n : Nat) : ofNat n ≠ [] := by
  intro h
  exact Nat.toDigits_ne_nil (List.map_eq_nil_iff.1 h)

theorem isDigit_of_mem_ofNat (h : x ∈ ofNat n) : isDigit x = true := by
  induction n using Nat.strongRecOn with
  | ind n ih =>
    rcases Nat.lt_or_ge n 10 with hn | hn
    · rw [ofNat_of_lt hn, List.mem_singleton] at h
      exact h ▸ (toUInt8_digitChar hn).1
    · rw [ofNat_of_le hn, List.mem_append, List.mem_singleton] at h
      rcases h with h | rfl
      · exact ih (n / 10) (by omega) h
      · exact (toUInt8_digitChar (by omega)).1

theorem magnitude_append_singleton (s : Bytes) (x : UInt8) :
    magnitude (s ++ [x]) = 10 * magnitude s + (x.toNat - 48) := by
  rw [magnitude, List.foldl_append]
  rfl

theorem magnitude_ofNat (n : Nat) : magnitude (ofNat n) = n := by
  induction n using Nat.strongRecOn with
  | ind n ih =>
    rcases Nat.lt_or_ge n 10 with hn | hn
    · rw [ofNat_of_lt hn, ← List.nil_append [_], magnitude_append_singleton,
        (toUInt8_digitChar hn).2]
      simp [magnitude]
    · rw [ofNat_of_le hn, magnitude_append_singleton, ih (n / 10) (by omega),
        (toUInt8_digitChar (by omega)).2]
      omega

theorem readNat?_ofNat (n : Nat) : readNat? (ofNat n) = some n := by
  have hall : (ofNat n).all isDigit = true := List.all_eq_true.2 fun _ => isDigit_of_mem_ofNat
  simp [readNat?, ofNat_ne_nil, hall, magnitude_ofNat]

theorem readInt?_of_isDigit {s : Bytes} (h : ∀ x ∈ s, isDigit x = true) :
    readInt? s = (readNat? s).map Int.ofNat := by
  unfold readInt?
  split
  · exact absurd (h 43 List.mem_cons_self) (by decide)
  · exact absurd (h 45 List.mem_cons_self) (by decide)
  · rfl

theorem readInt?_ofInt (z : Int) : readInt? (ofInt z) = some z := by
  cases z with
  | ofNat n => rw [ofInt, readInt?_of_isDigit fun _ => isDigit_of_mem_ofNat, readNat?_ofNat]; rfl
  | negSucc n => rw [ofInt, readInt?, readNat?_ofNat]; rfl

theorem readInt32?_ofInt (v : Int32) : readInt32? (ofInt v.toInt) = some v := by
  have hv : Int32.minValue.toInt ≤ v.toInt ∧ v.toInt ≤ Int32.maxValue.toInt :=
    ⟨v.minValue_le_toInt, v.toInt_le⟩
  rw [readInt32?, readInt?_ofInt, Option.bind_some, if_pos hv, Int32.ofInt_toInt]

theorem isSeparator_of_isDigit (h : isDigit x = true) : isSeparator x = false := by
  have hx : 48 ≤ x := by
    simp only [isDigit, Bool.and_eq_true, decide_eq_true_eq] at h
    exact h.1
  have hne : x ≠ 32 ∧ x ≠ 9 ∧ x ≠ 13 ∧ x ≠ newline := by
    refine ⟨?_, ?_, ?_, ?_⟩ <;> rintro rfl <;> exact absurd hx (by decide)
  simp [isSeparator, hne]

theorem isField_ofInt (z : Int) : IsField (ofInt z) := by
  have hdigits (n : Nat) : ∀ x ∈ ofNat n, isSeparator x = false := fun x hx =>
    isSeparator_of_isDigit (isDigit_of_mem_ofNat hx)
  cases z with
  | ofNat n => exact ⟨ofNat_ne_nil n, hdigits n⟩
  | negSucc n => exact ⟨List.cons_ne_nil _ _, List.forall_mem_cons.2 ⟨rfl, hdigits (n + 1)⟩⟩

end Decimal

theorem Opcode.isField_word (op : Opcode) : Bytes.IsField op.word := by
  cases op <;> decide

/-- Only a line with more than the fields that are read could be read otherwise. -/
theorem Line.instruction?_of_fields {s : Bytes} {op : Opcode} {arguments : List Bytes}
    (h : Bytes.fields s = op.word :: arguments) (hlen : arguments.length < mostFields) :
    (Line.ofBytes s).instruction? = (op.instruction arguments).map some := by
  have htake : (op.word :: arguments).take mostFields = op.word :: arguments :=
    List.take_of_length_le hlen
  rw [ofBytes, Bytes.firstFields, h, htake]
  simp only [instruction?, Opcode.ofWord?_word]

namespace Instruction

open Bytes

variable {i : Instruction}

/-- The name, if the instruction has one, can be a field. -/
def Writable (i : Instruction) : Prop := ∀ n, i.name? = some n → IsField n

theorem writable_push (v : Int32) : (push v).Writable := by
  rintro n ⟨⟩

theorem writable_store {n : Name} (hn : IsField n) : (store n).Writable := by
  rintro _ ⟨⟩
  exact hn

def operand? : Instruction → Option Bytes
  | push v => some (Decimal.ofInt v.toInt)
  | i => i.name?

theorem text_eq (i : Instruction) :
    i.text = i.opcode.word ++ i.operand?.toList.flatMap (ascii " " ++ ·) := by
  cases i <;> simp [text, opcode, operand?, name?]

theorem isField_operand (hi : i.Writable) : ∀ a ∈ i.operand?, IsField a := by
  intro a ha
  cases i with
  | push v =>
    obtain rfl := Option.some.inj ha
    exact Decimal.isField_ofInt v.toInt
  | load n | store n | remove n | save n => exact hi a ha
  | pop | add | sub | mul | div | list | print => cases ha

theorem fields_text (hi : i.Writable) : fields i.text = i.opcode.word :: i.operand?.toList := by
  have hword := fields_of_isField i.opcode.isField_word
  rw [text_eq]
  cases h : i.operand? with
  | none => simpa using hword
  | some a =>
    have ha := fields_of_isField (isField_operand hi a h)
    have hsep : isSeparator 32 = true := rfl
    have hspace : ascii " " = [32] := rfl
    simp [hspace, fields_append_separator hsep, hword, ha]

theorem instruction_operand (i : Instruction) :
    i.opcode.instruction i.operand?.toList = .ok i := by
  cases i with
  | push v =>
    change Opcode.push.instruction [Decimal.ofInt v.toInt] = _
    rw [Opcode.instruction, Decimal.readInt32?_ofInt]
  | _ => rfl

theorem instruction?_text (hi : i.Writable) :
    (Line.ofBytes i.text).instruction? = .ok (some i) := by
  have hlen : i.operand?.toList.length < Line.mostFields := by
    cases i.operand? <;> simp [Line.mostFields]
  rw [Line.instruction?_of_fields (fields_text hi) hlen, instruction_operand]
  rfl

theorem newline_notMem_text (hi : i.Writable) : newline ∉ i.text := by
  have hword := i.opcode.isField_word.newline_notMem
  have hspace : newline ∉ ascii " " := by decide
  rw [text_eq]
  cases h : i.operand? with
  | none => simpa using hword
  | some a => simp [hword, hspace, (isField_operand hi a h).newline_notMem]

theorem length_text_push (v : Int32) :
    (push v).text.length = 5 + (Decimal.ofInt v.toInt).length := by
  rw [text, List.length_append]
  rfl

theorem length_text_store (n : Name) : (store n).text.length = 6 + n.length := by
  rw [text, List.length_append]
  rfl

end Instruction

end StackCalc
