import StackCalc.Proofs.Instruction.Grammar

/-! # Canonical text

The text of an instruction is read back as the instruction, and it is the shortest line that is:
fields need one separator between them, and a number needs neither a plus sign nor zeros in front.
So a line can be replaced by the text of what it says wherever the line itself would fit.
-/

namespace StackCalc

namespace Bytes

variable {s : Bytes} {fs : List Bytes}

theorem Runs.isField (h : Runs s fs) : ∀ f ∈ fs, IsField f := by
  induction h with
  | nil => exact List.forall_mem_nil _
  | separator _ _ ih => exact ih
  | last hf => exact List.forall_mem_singleton.2 hf
  | field hf _ _ ih => exact List.forall_mem_cons.2 ⟨hf, ih⟩

theorem length_join_cons_le (f : Bytes) (fs : List Bytes) :
    (join (ascii " ") (f :: fs)).length ≤ f.length + (join (ascii " ") fs).length + 1 := by
  cases fs with
  | nil => simp [join]
  | cons g fs =>
    simp only [join, List.intersperse_cons_cons, List.flatten_cons, List.length_append]
    have hspace : (ascii " ").length = 1 := rfl
    omega

theorem Runs.length_join_le (h : Runs s fs) : (join (ascii " ") fs).length ≤ s.length := by
  induction h with
  | nil => exact Nat.le_refl _
  | separator _ _ ih => exact Nat.le_succ_of_le ih
  | last _ => simp [join]
  | @field f x s fs _ _ _ ih =>
    have hjoin := length_join_cons_le f fs
    rw [List.length_append, List.length_cons]
    omega

end Bytes

namespace Decimal

variable {s : Bytes} {z : Int}

theorem toNat_sub_lt_of_isDigit {x : UInt8} (h : isDigit x = true) : x.toNat - 48 < 10 := by
  simp only [isDigit, Bool.and_eq_true, decide_eq_true_eq, UInt8.le_iff_toNat_le] at h
  have hhigh : x.toNat ≤ 57 := h.2
  omega

theorem IsNumeral.value_lt (h : IsNumeral s) : value s < 10 ^ s.length := by
  have hlt : ∀ d ∈ s.reverse.map (·.toNat - 48), d < 10 := by
    intro d hd
    obtain ⟨x, hx, rfl⟩ := List.mem_map.1 hd
    exact toNat_sub_lt_of_isDigit (h.2 x (List.mem_reverse.1 hx))
  simpa [value] using Nat.ofDigits_lt_base_pow_length (by decide) hlt

theorem IsNumeral.length_ofNat_le (h : IsNumeral s) : (ofNat (value s)).length ≤ s.length := by
  rw [ofNat, List.length_map]
  exact Nat.toDigits_length 10 _ _ (List.length_pos_iff.2 h.1) h.value_lt

theorem length_ofInt_neg_le (n : Nat) : (ofInt (-n)).length ≤ (ofNat n).length + 1 := by
  cases n with
  | zero => exact Nat.le_succ _
  | succ n => exact Nat.le_refl _

theorem Denotes.length_ofInt_le (h : Denotes s z) : (ofInt z).length ≤ s.length := by
  cases h with
  | unsigned hs => exact hs.length_ofNat_le
  | plus hs => exact Nat.le_succ_of_le hs.length_ofNat_le
  | minus hs => exact (length_ofInt_neg_le _).trans (Nat.succ_le_succ hs.length_ofNat_le)

end Decimal

theorem Instruction.text_eq_join (i : Instruction) :
    i.text = Bytes.join (Bytes.ascii " ") (i.opcode.word :: i.operand?.toList) := by
  rw [text_eq]
  cases i.operand? <;> simp [Bytes.join]

namespace Line

open Bytes (ascii join)

variable {fs : List Bytes} {i : Instruction}

theorem verdict_eq_ok_iff {l : Line} {r : Option Instruction} :
    l.verdict = .ok r ↔ l.instruction? = .ok r := by
  rw [verdict]
  cases l.instruction? <;> simp [Except.mapError]

theorem Reads.writable (h : Reads fs (.ok (some i))) (hfs : ∀ f ∈ fs, Bytes.IsField f) :
    i.Writable := by
  cases h with
  | number _ => exact Instruction.writable_push _
  | other _ =>
    intro n hn
    exact hfs n (by simp [hn])

theorem Reads.length_text_le (h : Reads fs (.ok (some i))) :
    i.text.length ≤ (join (ascii " ") fs).length := by
  rw [Instruction.text_eq_join]
  cases h with
  | @number f v h =>
    have hlen := h.length_ofInt_le
    simpa [join, Instruction.operand?, Instruction.opcode] using hlen
  | other h => rw [Instruction.operand?_eq_name? h]

theorem reads_fields_of_instruction? {s : Bytes} (h : (ofBytes s).instruction? = .ok (some i)) :
    Reads (Bytes.fields s) (.ok (some i)) := by
  rw [← verdict_eq_ok_iff.2 h, verdict_ofBytes (Bytes.runs_fields s)]
  exact reads_verdict _

theorem isField_of_store {s : Bytes} {n : Name}
    (h : (ofBytes s).instruction? = .ok (some (.store n))) :
    Bytes.IsField n ∧ 6 + n.length ≤ s.length := by
  have hruns := Bytes.runs_fields s
  have hreads := reads_fields_of_instruction? h
  refine ⟨hreads.writable hruns.isField n rfl, ?_⟩
  rw [← Instruction.length_text_store]
  exact hreads.length_text_le.trans hruns.length_join_le

end Line

/-- An instruction that can be written is read back from its text. Whatever line an instruction is
read from, it can be written, in no more bytes than the line has. -/
theorem Instruction.text_canonical :
    (∀ i : Instruction, i.Writable → (Line.ofBytes i.text).instruction? = .ok (some i)) ∧
      ∀ (s : Bytes) (i : Instruction), (Line.ofBytes s).instruction? = .ok (some i) →
        i.Writable ∧ i.text.length ≤ s.length ∧
          (Line.ofBytes i.text).instruction? = .ok (some i) := by
  refine ⟨fun i hi => instruction?_text hi, fun s i h => ?_⟩
  have hruns := Bytes.runs_fields s
  have hreads := Line.reads_fields_of_instruction? h
  have hi := hreads.writable hruns.isField
  exact ⟨hi, hreads.length_text_le.trans hruns.length_join_le, instruction?_text hi⟩

open Bytes (ascii) in
/-- The least value comes back, and so does a name that is no text. Lines that say them in a
roundabout way are cut short. -/
theorem Instruction.text_of_roundabout_lines :
    let i := push Int32.minValue
    let s := ascii " push\t-002147483648"
    let j := store [0xFF, 0xC3]
    let t := ascii "\tstore  " ++ [0xFF, 0xC3] ++ ascii " "
    (i.Writable ∧ (Line.ofBytes i.text).instruction? = .ok (some i)) ∧
      (Line.ofBytes s).instruction? = .ok (some i) ∧ i.text.length ≤ s.length ∧
      (j.Writable ∧ (Line.ofBytes j.text).instruction? = .ok (some j)) ∧
      (Line.ofBytes t).instruction? = .ok (some j) ∧ j.text.length ≤ t.length := by
  intro i s j t
  have hi : i.Writable := writable_push _
  have hs : (Line.ofBytes s).instruction? = .ok (some i) := rfl
  have hj : j.Writable := writable_store (by decide)
  have ht : (Line.ofBytes t).instruction? = .ok (some j) := rfl
  exact ⟨⟨hi, text_canonical.1 i hi⟩, hs, (text_canonical.2 s i hs).2.1,
    ⟨hj, text_canonical.1 j hj⟩, ht, (text_canonical.2 t j ht).2.1⟩

end StackCalc
