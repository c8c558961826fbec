import StackCalc.Proofs.Utf8.Lossy

/-! # Well-formed text

Bytes are well formed if the decoder replaces nothing. These are the encodings of strings of
characters, and the bytes that decoding leaves as they are.
-/

namespace StackCalc.Utf8

open String (utf8EncodeChar)

variable {s t : Bytes}

namespace Decoder

variable {d : Decoder}

/-- As long as nothing has been replaced, the bytes `s` read so far are all there. -/
def Retains (d : Decoder) (s : Bytes) : Prop :=
  d.sound = true → d.text.toList ++ d.seen = s ∧ (d.awaited = [] → d.seen = [])

theorem retains_of_not_sound (h : d.sound = false) (s : Bytes) : d.Retains s := by
  intro hd
  rw [h] at hd
  cases hd

theorem sound_lead (h : d.sound = false) (b : UInt8) : (d.lead b).sound = false := by
  unfold lead
  split
  · rfl
  · exact h
  · exact h

theorem Retains.lead (h : d.Retains s) (hd : d.awaited = []) (b : UInt8) :
    (d.lead b).Retains (s ++ [b]) := by
  unfold Decoder.lead
  split
  · exact retains_of_not_sound rfl _
  · intro hsound
    obtain ⟨rfl, hseen⟩ := h hsound
    simp [hseen hd]
  next awaited hne _ =>
    intro hsound
    obtain ⟨rfl, hseen⟩ := h hsound
    simpa [hseen hd] using fun hnil => hne hnil

theorem Retains.feed (h : d.Retains s) (b : UInt8) : (d.feed b).Retains (s ++ [b]) := by
  unfold Decoder.feed
  split
  next hd => exact h.lead hd b
  next r rest _ =>
    split
    · split
      · intro hsound
        obtain ⟨rfl, -⟩ := h hsound
        simp
      next awaited hne =>
        intro hsound
        obtain ⟨rfl, -⟩ := h hsound
        simpa using fun hnil => absurd hnil hne
    · exact retains_of_not_sound (sound_lead rfl b) _

theorem Retains.foldl (h : d.Retains s) (t : Bytes) :
    (t.foldl Decoder.feed d).Retains (s ++ t) := by
  induction t generalizing s d with
  | nil => exact (List.append_nil s).symm ▸ h
  | cons b t ih =>
    rw [← List.singleton_append, ← List.append_assoc]
    exact ih (h.feed b)

end Decoder

theorem lossy_eq_self_of_isWellFormed (h : isWellFormed s) : lossy s = s := by
  have hempty : Decoder.Retains {} [] := fun _ => ⟨rfl, fun _ => rfl⟩
  have hretains := hempty.foldl s
  unfold isWellFormed decode Decoder.close at h
  unfold lossy decode Decoder.close
  split at h
  next hd =>
    rw [if_pos hd]
    obtain ⟨htext, hseen⟩ := hretains h
    simpa [hseen (List.isEmpty_iff.1 hd)] using htext
  next => cases h

theorem Decodes.exists_chars (h : Decodes s t) :
    ∃ cs : List Char, t = cs.flatMap utf8EncodeChar := by
  induction h with
  | nil => exact ⟨[], rfl⟩
  | sequence hq _ ih =>
    obtain ⟨c, rfl⟩ := hq
    obtain ⟨cs, rfl⟩ := ih
    exact ⟨c :: cs, rfl⟩
  | replaced _ _ ih =>
    obtain ⟨cs, rfl⟩ := ih
    exact ⟨Char.ofNat 0xFFFD :: cs, rfl⟩

theorem foldl_feed_flatMap {d : Decoder} (cs : List Char) (hseen : d.seen = [])
    (hd : d.awaited = []) : (cs.flatMap utf8EncodeChar).foldl Decoder.feed d =
      { d with text := d.text ++ cs.flatMap utf8EncodeChar } := by
  induction cs generalizing d with
  | nil => simp
  | cons c cs ih =>
    rw [List.flatMap_cons, List.foldl_append, foldl_feed_sequence ⟨c, rfl⟩ hseen hd]
    refine (ih ?_ ?_).trans ?_
    · exact hseen
    · exact hd
    · simp [← Array.toList_inj]

theorem isWellFormed_flatMap (cs : List Char) : isWellFormed (cs.flatMap utf8EncodeChar) := by
  rw [isWellFormed, decode, foldl_feed_flatMap cs rfl rfl]
  rfl

/-- Well formed are the encodings of strings of characters and no other bytes. -/
theorem isWellFormed_iff :
    isWellFormed s ↔ ∃ cs : List Char, s = cs.flatMap utf8EncodeChar := by
  constructor
  · intro h
    have hself : Decodes s s := decodes_iff.2 (lossy_eq_self_of_isWellFormed h).symm
    exact hself.exists_chars
  · rintro ⟨cs, rfl⟩
    exact isWellFormed_flatMap cs

theorem isWellFormed_iff_lossy_eq_self : isWellFormed s ↔ lossy s = s := by
  constructor
  · exact lossy_eq_self_of_isWellFormed
  · intro h
    have hself : Decodes s s := decodes_iff.2 h.symm
    exact isWellFormed_iff.2 hself.exists_chars

end StackCalc.Utf8
