import StackCalc.Instruction.Line
import StackCalc.Proofs.Instruction.Text
import StackCalc.Proofs.Utf8.Lossy
import StackCalc.Sink
import StackCalc.Table.Walk

/-! # Text for people to read

An instruction, a binding and a line each have a text for people to read, put together from pieces
that are decoded one by one. It is the decoding of the bytes as a whole: between two pieces that
may hold anything there is always a space or a comma, and no sequence reaches across it.
-/

namespace StackCalc

open Utf8

theorem Opcode.isAscii_word (op : Opcode) : IsAscii op.word := by
  cases op <;> decide

theorem Decimal.isAscii_ofNat (n : Nat) : IsAscii (Decimal.ofNat n) := by
  intro b hb
  have h := isDigit_of_mem_ofNat hb
  simp only [isDigit, Bool.and_eq_true, decide_eq_true_eq, UInt8.le_iff_toNat_le,
    UInt8.reduceToNat] at h
  omega

theorem Decimal.isAscii_ofInt (z : Int) : IsAscii (Decimal.ofInt z) := by
  cases z with
  | ofNat n => exact isAscii_ofNat n
  | negSucc n => exact List.forall_mem_cons.2 ⟨by decide, isAscii_ofNat (n + 1)⟩

theorem Instruction.lossy_text (i : Instruction) : lossy i.text = i.shown := by
  have hnamed (op : Opcode) (n : Name) :
      lossy (op.word ++ Bytes.ascii " " ++ n) = op.word ++ Bytes.ascii " " ++ lossy n := by
    apply lossy_ascii_append
    exact op.isAscii_word.append (by decide)
  cases i with
  | push v =>
    apply lossy_ascii
    exact IsAscii.append (by decide) (Decimal.isAscii_ofInt _)
  | load n => exact hnamed .load n
  | store n => exact hnamed .store n
  | remove n => exact hnamed .remove n
  | save n => exact hnamed .save n
  | pop | add | sub | mul | div | list | print => exact lossy_ascii (by decide)

def Node.entry (n : Node) : Bytes :=
  Bytes.ascii "VARIABLE: " ++ (n.name ++ (Bytes.ascii ", VALUE: " ++ Decimal.ofInt n.value.toInt))

theorem Node.writeAll_listing (n : Node) :
    Sink.writeAll n.listing = Sink.write (n.entry ++ [Bytes.newline]) := by
  have hend : Bytes.ascii "\n" = [Bytes.newline] := by decide
  rw [Sink.writeAll_eq_write]
  simp [Node.listing, Node.entry, hend]

theorem Node.lossy_entry (n : Node) : lossy n.entry = n.shown := by
  have hvalue := lossy_ascii (Decimal.isAscii_ofInt n.value.toInt)
  rw [Node.entry, lossy_ascii_append (by decide), lossy_append_ascii_append (by decide) (by decide),
    hvalue]
  simp [Node.shown]

theorem Bytes.join_cons_cons (sep s s' : Bytes) (rest : List Bytes) :
    join sep (s :: s' :: rest) = s ++ (sep ++ join sep (s' :: rest)) := by
  simp [join]

theorem lossy_join {sep : Bytes} (hsep : IsAscii sep) (hne : sep ≠ []) (parts : List Bytes) :
    lossy (Bytes.join sep parts) = Bytes.join sep (parts.map lossy) := by
  induction parts with
  | nil => exact lossy_nil
  | cons s rest ih =>
    cases rest with
    | nil => simp [Bytes.join]
    | cons s' rest =>
      rw [Bytes.join_cons_cons, lossy_append_ascii_append hsep hne, ih]
      simp only [List.map_cons, Bytes.join_cons_cons]

/-- What is shown is the decoding of what is written: for an instruction, for a binding without the
end of its line, and for a line as its fields with single spaces between them. Decoding keeps the
sequences and replaces each maximal subpart where no sequence begins. -/
theorem shown_decodes_whole_text :
    (∀ s t, Decodes s t ↔ t = lossy s) ∧
      (∀ i : Instruction, i.shown = lossy i.text) ∧
      (∀ n : Node, ∃ entry, Sink.writeAll n.listing = Sink.write (entry ++ [Bytes.newline]) ∧
        n.shown = lossy entry) ∧
      ∀ s, (Line.ofBytes s).shown =
        lossy (Bytes.join (Bytes.ascii " ") (Line.ofBytes s).fields) := by
  refine ⟨?_, ?_, ?_, ?_⟩
  · intro s t
    exact decodes_iff
  · intro i
    exact i.lossy_text.symm
  · intro n
    exact ⟨n.entry, n.writeAll_listing, n.lossy_entry.symm⟩
  · intro s
    exact (lossy_join (by decide) (by decide) _).symm

end StackCalc
