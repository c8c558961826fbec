import Mathlib.Data.List.Forall2
import StackCalc.Bytes.Utf8

/-! # The sequences of UTF-8

A character is encoded in one to four bytes. The first byte says how many there are, and all others
are continuations; after some first bytes not every continuation may come second, since the value
would have a shorter encoding, be a surrogate or be too great. The ranges that the decoder awaits
are these: a byte and those that follow it as awaited are the encoding of a character, and every
encoding is of that kind.
-/

namespace StackCalc.Utf8

/-- The bytes encode a character. -/
def IsSequence (s : Bytes) : Prop := ∃ c : Char, String.utf8EncodeChar c = s

abbrev Follow (rs : List Range) (s : Bytes) : Prop :=
  List.Forall₂ (fun r b => r.contains b = true) rs s

abbrev IsContinuation (b : UInt8) : Prop := 128 ≤ b.toNat ∧ b.toNat < 192

/-- The sequences by their number of bytes, with the bounds on the first two bytes. -/
inductive Shape : Bytes → Prop where
  | one {w : UInt8} : w.toNat < 128 → Shape [w]
  | two {w x : UInt8} : 194 ≤ w.toNat → w.toNat < 224 → IsContinuation x → Shape [w, x]
  | three {w x y : UInt8} : 224 ≤ w.toNat → w.toNat < 240 → IsContinuation x → IsContinuation y →
      (w.toNat = 224 → 160 ≤ x.toNat) → (w.toNat = 237 → x.toNat < 160) → Shape [w, x, y]
  | four {w x y z : UInt8} : 240 ≤ w.toNat → w.toNat < 245 → IsContinuation x → IsContinuation y →
      IsContinuation z → (w.toNat = 240 → 144 ≤ x.toNat) → (w.toNat = 244 → x.toNat < 144) →
      Shape [w, x, y, z]

theorem contains_iff {r : Range} {b : UInt8} :
    r.contains b = true ↔ r.low.toNat ≤ b.toNat ∧ b.toNat ≤ r.high.toNat := by
  simp [Range.contains, UInt8.le_iff_toNat_le]

theorem continuation_contains {b : UInt8} : continuation.contains b = true ↔ IsContinuation b := by
  rw [contains_iff, IsContinuation]
  simp only [continuation, UInt8.reduceToNat]
  omega

theorem followers_eq (b : UInt8) : followers b =
    if b.toNat < 128 then some []
    else if b.toNat < 194 then none
    else if b.toNat < 224 then some [continuation]
    else if b.toNat = 224 then some [⟨0xA0, 0xBF⟩, continuation]
    else if b.toNat = 237 then some [⟨0x80, 0x9F⟩, continuation]
    else if b.toNat < 240 then some [continuation, continuation]
    else if b.toNat = 240 then some [⟨0x90, 0xBF⟩, continuation, continuation]
    else if b.toNat < 244 then some [continuation, continuation, continuation]
    else if b.toNat = 244 then some [⟨0x80, 0x8F⟩, continuation, continuation]
    else none := by
  simp only [followers, UInt8.lt_iff_toNat_lt, ← UInt8.toNat_inj]
  rfl

section Followers

variable {b : UInt8}

theorem followers_one (h : b.toNat < 128) : followers b = some [] := by
  rw [followers_eq, if_pos h]

theorem followers_none (h : 128 ≤ b.toNat ∧ b.toNat < 194 ∨ 245 ≤ b.toNat) : followers b = none := by
  rcases h with ⟨hlow, hhigh⟩ | h
  · rw [followers_eq, if_neg (by omega), if_pos hhigh]
  · simp (disch := omega) only [followers_eq, if_neg]

theorem followers_two (hlow : 194 ≤ b.toNat) (hhigh : b.toNat < 224) :
    followers b = some [continuation] := by
  rw [followers_eq, if_neg (by omega), if_neg (by omega), if_pos hhigh]

theorem followers_three (hlow : 224 ≤ b.toNat) (hhigh : b.toNat < 240) :
    followers b = some [⟨if b.toNat = 224 then 0xA0 else 0x80,
      if b.toNat = 237 then 0x9F else 0xBF⟩, continuation] := by
  rw [followers_eq, if_neg (by omega), if_neg (by omega), if_neg (by omega)]
  by_cases h₀ : b.toNat = 224
  · simp [h₀]
  by_cases h₁ : b.toNat = 237
  · simp [h₁]
  · simp [h₀, h₁, hhigh, continuation]

theorem followers_four (hlow : 240 ≤ b.toNat) (hhigh : b.toNat < 245) :
    followers b = some [⟨if b.toNat = 240 then 0x90 else 0x80,
      if b.toNat = 244 then 0x8F else 0xBF⟩, continuation, continuation] := by
  simp (disch := omega) only [followers_eq, if_neg]
  by_cases h₀ : b.toNat = 240
  · simp [h₀]
  by_cases h₁ : b.toNat = 244
  · simp [h₁]
  · have h : b.toNat < 244 := by omega
    simp [h₀, h₁, h, continuation]

end Followers

theorem exists_char {v : Nat} (h : v.isValidChar) : ∃ c : Char, c.val.toNat = v :=
  ⟨Char.ofNatAux v h, rfl⟩

theorem shape_utf8EncodeChar (c : Char) : Shape (String.utf8EncodeChar c) := by
  have hv : c.val.toNat.isValidChar := c.valid
  rw [String.utf8EncodeChar]
  generalize c.val.toNat = v at hv
  unfold Nat.isValidChar at hv
  split
  · apply Shape.one
    rw [UInt8.toNat_ofNat']
    omega
  split
  · apply Shape.two <;> simp only [IsContinuation, UInt8.toNat_ofNat'] <;> omega
  split
  · apply Shape.three <;> simp only [IsContinuation, UInt8.toNat_ofNat'] <;> omega
  · apply Shape.four <;> simp only [IsContinuation, UInt8.toNat_ofNat'] <;> omega

/-- The value is put together from the bits that the bytes carry. -/
theorem Shape.isSequence {s : Bytes} (h : Shape s) : IsSequence s := by
  cases h with
  | @one w hw =>
    obtain ⟨c, hc⟩ := exists_char (v := w.toNat) (by unfold Nat.isValidChar; omega)
    refine ⟨c, ?_⟩
    rw [String.utf8EncodeChar, hc, if_pos (by omega), UInt8.ofNat_toNat]
  | @two w x hlow hhigh hx =>
    obtain ⟨v, hv⟩ : ∃ v, v = (w.toNat - 192) * 64 + (x.toNat - 128) := ⟨_, rfl⟩
    obtain ⟨c, hc⟩ := exists_char (v := v) (by unfold Nat.isValidChar; omega)
    have hw : v / 64 % 32 + 192 = w.toNat := by omega
    have hx : v % 64 + 128 = x.toNat := by omega
    refine ⟨c, ?_⟩
    rw [String.utf8EncodeChar, hc, if_neg (by omega), if_pos (by omega), hw, hx]
    simp only [UInt8.ofNat_toNat]
  | @three w x y hlow hhigh hx hy hlong hsurrogate =>
    obtain ⟨v, hv⟩ : ∃ v, v = (w.toNat - 224) * 4096 + (x.toNat - 128) * 64 + (y.toNat - 128) :=
      ⟨_, rfl⟩
    obtain ⟨c, hc⟩ := exists_char (v := v) (by unfold Nat.isValidChar; omega)
    have hw : v / 4096 % 16 + 224 = w.toNat := by omega
    have hx : v / 64 % 64 + 128 = x.toNat := by omega
    have hy : v % 64 + 128 = y.toNat := by omega
    refine ⟨c, ?_⟩
    rw [String.utf8EncodeChar, hc, if_neg (by omega), if_neg (by omega), if_pos (by omega), hw, hx,
      hy]
    simp only [UInt8.ofNat_toNat]
  | @four w x y z hlow hhigh hx hy hz hlong hgreat =>
    obtain ⟨v, hv⟩ : ∃ v, v = (w.toNat - 240) * 262144 + (x.toNat - 128) * 4096 +
      (y.toNat - 128) * 64 + (z.toNat - 128) := ⟨_, rfl⟩
    obtain ⟨c, hc⟩ := exists_char (v := v) (by unfold Nat.isValidChar; omega)
    have hw : v / 262144 % 8 + 240 = w.toNat := by omega
    have hx : v / 4096 % 64 + 128 = x.toNat := by omega
    have hy : v / 64 % 64 + 128 = y.toNat := by omega
    have hz : v % 64 + 128 = z.toNat := by omega
    refine ⟨c, ?_⟩
    rw [String.utf8EncodeChar, hc, if_neg (by omega), if_neg (by omega), if_neg (by omega), hw, hx,
      hy, hz]
    simp only [UInt8.ofNat_toNat]

theorem isSequence_iff_shape {s : Bytes} : IsSequence s ↔ Shape s := by
  constructor
  · rintro ⟨c, rfl⟩
    exact shape_utf8EncodeChar c
  · exact Shape.isSequence

variable {b : UInt8} {s : Bytes} {rs : List Range}

theorem shape_of_follow (hb : followers b = some rs) (hs : Follow rs s) : Shape (b :: s) := by
  by_cases h₁ : b.toNat < 128
  · rw [followers_one h₁] at hb
    cases hb
    cases hs
    exact .one h₁
  by_cases h₂ : 194 ≤ b.toNat ∧ b.toNat < 224
  · rw [followers_two h₂.1 h₂.2] at hb
    cases hb
    obtain _ | ⟨hx, _ | _⟩ := hs
    exact .two h₂.1 h₂.2 (continuation_contains.1 hx)
  by_cases h₃ : 224 ≤ b.toNat ∧ b.toNat < 240
  · rw [followers_three h₃.1 h₃.2] at hb
    cases hb
    obtain _ | ⟨hx, _ | ⟨hy, _ | _⟩⟩ := hs
    have hx := contains_iff.1 hx
    simp only [apply_ite UInt8.toNat, UInt8.reduceToNat] at hx
    refine .three h₃.1 h₃.2 ?_ (continuation_contains.1 hy) ?_ ?_ <;> split_ifs at hx <;> omega
  by_cases h₄ : 240 ≤ b.toNat ∧ b.toNat < 245
  · rw [followers_four h₄.1 h₄.2] at hb
    cases hb
    obtain _ | ⟨hx, _ | ⟨hy, _ | ⟨hz, _ | _⟩⟩⟩ := hs
    have hx := contains_iff.1 hx
    simp only [apply_ite UInt8.toNat, UInt8.reduceToNat] at hx
    refine .four h₄.1 h₄.2 ?_ (continuation_contains.1 hy) (continuation_contains.1 hz) ?_ ?_ <;>
      split_ifs at hx <;> omega
  · rw [followers_none (by omega)] at hb
    cases hb

theorem Shape.follow (h : Shape (b :: s)) : ∃ rs, followers b = some rs ∧ Follow rs s := by
  cases h with
  | one hw => exact ⟨[], followers_one hw, .nil⟩
  | two hlow hhigh hx =>
    exact ⟨_, followers_two hlow hhigh, .cons (continuation_contains.2 hx) .nil⟩
  | three hlow hhigh hx hy hlong hsurrogate =>
    refine ⟨_, followers_three hlow hhigh, .cons ?_ (.cons (continuation_contains.2 hy) .nil)⟩
    rw [contains_iff]
    simp only [apply_ite UInt8.toNat, UInt8.reduceToNat]
    split_ifs <;> omega
  | four hlow hhigh hx hy hz hlong hgreat =>
    refine ⟨_, followers_four hlow hhigh, .cons ?_
      (.cons (continuation_contains.2 hy) (.cons (continuation_contains.2 hz) .nil))⟩
    rw [contains_iff]
    simp only [apply_ite UInt8.toNat, UInt8.reduceToNat]
    split_ifs <;> omega

/-- A byte begins a sequence exactly if those behind it are what it has to be followed by. -/
theorem isSequence_cons_iff :
    IsSequence (b :: s) ↔ ∃ rs, followers b = some rs ∧ Follow rs s := by
  rw [isSequence_iff_shape]
  constructor
  · exact Shape.follow
  · rintro ⟨rs, hb, hs⟩
    exact shape_of_follow hb hs

theorem not_isSequence_nil : ¬ IsSequence [] := by
  rw [isSequence_iff_shape]
  nofun

end StackCalc.Utf8
