import Mathlib.Data.Nat.Find
import StackCalc.Proofs.Utf8.Sequence

/-! # Decoding with replacement

Where no sequence begins, the longest piece that begins one, or else a single byte, is replaced by
U+FFFD. This says what the text of any bytes is, without a decoder (`Decodes`), and `lossy` is the
function that it describes. A byte below 128 is never part of a longer sequence, so it separates
what stands before it from what stands behind, however the bytes before it are cut short.
-/

namespace StackCalc.Utf8

namespace Decoder

structure Behind (t : Bytes) (d d' : Decoder) : Prop where
  text_eq : d'.text.toList = t ++ d.text.toList
  seen_eq : d'.seen = d.seen
  awaited_eq : d'.awaited = d.awaited

variable {t : Bytes} {d d' : Decoder}

namespace Behind

theorem replace (h : Behind t d d') : Behind t d.replace d'.replace :=
  ⟨by simp [Decoder.replace, h.text_eq], rfl, rfl⟩

theorem lead (h : Behind t d d') (b : UInt8) : Behind t (d.lead b) (d'.lead b) := by
  unfold Decoder.lead
  split
  · exact h.replace
  · exact ⟨by simp [h.text_eq], h.seen_eq, h.awaited_eq⟩
  · exact ⟨h.text_eq, rfl, rfl⟩

theorem feed (h : Behind t d d') (b : UInt8) : Behind t (d.feed b) (d'.feed b) := by
  unfold Decoder.feed
  rw [h.awaited_eq, h.seen_eq]
  split
  · exact h.lead b
  · split
    · split
      · exact ⟨by simp [h.text_eq], rfl, rfl⟩
      · exact ⟨h.text_eq, rfl, rfl⟩
    · exact h.replace.lead b

theorem foldl (h : Behind t d d') (s : Bytes) :
    Behind t (s.foldl Decoder.feed d) (s.foldl Decoder.feed d') := by
  induction s generalizing d d' with
  | nil => exact h
  | cons b s ih => exact ih (h.feed b)

theorem close (h : Behind t d d') : Behind t d.close d'.close := by
  unfold Decoder.close
  rw [h.awaited_eq]
  split
  · exact h
  · exact h.replace

end Behind

end Decoder

/-- The text of `s` behind `seen`, the beginning of a sequence that lacks `awaited`. -/
def decodeOn (seen : Bytes) (awaited : List Range) (s : Bytes) : Bytes :=
  (s.foldl Decoder.feed { seen, awaited }).close.text.toList

variable {b : UInt8} {r r' : Range} {rs : List Range} {q s seen : Bytes}

/-- What has been decoded before makes no difference to what follows. -/
theorem text_foldl_feed (d : Decoder) (s : Bytes) :
    (s.foldl Decoder.feed d).close.text.toList = d.text.toList ++ decodeOn d.seen d.awaited s := by
  have h : Decoder.Behind d.text.toList { seen := d.seen, awaited := d.awaited } d :=
    ⟨by simp, rfl, rfl⟩
  exact (h.foldl s).close.text_eq

theorem lossy_nil : lossy [] = [] := rfl

theorem lossy_eq (s : Bytes) : lossy s = decodeOn [] [] s := rfl

theorem lossy_cons_of_none (hb : followers b = none) (s : Bytes) :
    lossy (b :: s) = replacement ++ lossy s := by
  rw [lossy, decode, List.foldl_cons, text_foldl_feed]
  simp [Decoder.feed, Decoder.lead, hb, Decoder.replace, lossy_eq]

theorem lossy_cons_of_cons (hb : followers b = some (r :: rs)) (s : Bytes) :
    lossy (b :: s) = decodeOn [b] (r :: rs) s := by
  rw [lossy, decode, List.foldl_cons, text_foldl_feed]
  simp [Decoder.feed, Decoder.lead, hb]

theorem decodeOn_nil (seen : Bytes) (r : Range) (rs : List Range) :
    decodeOn seen (r :: rs) [] = replacement := rfl

theorem decodeOn_next (hb : r.contains b = true) (seen s : Bytes) :
    decodeOn seen (r :: r' :: rs) (b :: s) = decodeOn (seen ++ [b]) (r' :: rs) s := by
  rw [decodeOn, List.foldl_cons, text_foldl_feed]
  simp [Decoder.feed, hb]

theorem decodeOn_cut (hb : ¬ r.contains b = true) (seen s : Bytes) :
    decodeOn seen (r :: rs) (b :: s) = replacement ++ lossy (b :: s) := by
  have hfeed : Decoder.feed { seen, awaited := r :: rs } b =
      Decoder.feed (Decoder.replace {}) b := by
    simp [Decoder.feed, hb, Decoder.replace]
  rw [decodeOn, List.foldl_cons, hfeed, ← List.foldl_cons, text_foldl_feed]
  rfl

theorem decodeOn_stuck (h : Follow rs q) (hs : ∀ b ∈ s.head?, ¬ r.contains b = true) (seen : Bytes)
    (rs' : List Range) : decodeOn seen (rs ++ r :: rs') (q ++ s) = replacement ++ lossy s := by
  induction h generalizing seen with
  | nil =>
    cases s with
    | nil => exact decodeOn_nil seen r rs'
    | cons b s => exact decodeOn_cut (hs b rfl) seen s
  | @cons r₁ b rs q hb _ ih =>
    cases rs with
    | nil => exact (decodeOn_next hb seen (q ++ s)).trans (ih _)
    | cons r₂ rs => exact (decodeOn_next hb seen (q ++ s)).trans (ih _)

def IsSubpart (p : Bytes) : Prop := p.length = 1 ∨ p ≠ [] ∧ ∃ rest, IsSequence (p ++ rest)

/-- Where `p` and then `s` stands no sequence begins, and `p` is the longest subpart there. -/
structure MaximalSubpart (p s : Bytes) : Prop where
  unconvertible : ∀ q, q <+: p ++ s → ¬ IsSequence q
  isSubpart : IsSubpart p
  longest : ∀ q, q <+: p ++ s → IsSubpart q → q.length ≤ p.length

/-- The text of some bytes: a sequence stands for itself, and a maximal subpart of what is no
sequence is replaced by U+FFFD. -/
inductive Decodes : Bytes → Bytes → Prop where
  | nil : Decodes [] []
  | sequence {q s t : Bytes} : IsSequence q → Decodes s t → Decodes (q ++ s) (q ++ t)
  | replaced {p s t : Bytes} : MaximalSubpart p s → Decodes s t →
      Decodes (p ++ s) (String.utf8EncodeChar (Char.ofNat 0xFFFD) ++ t)

theorem utf8EncodeChar_replacement : String.utf8EncodeChar (Char.ofNat 0xFFFD) = replacement := by
  decide

theorem IsSubpart.ne_nil {p : Bytes} (h : IsSubpart p) : p ≠ [] := by
  rintro rfl
  obtain h | h := h
  · cases h
  · exact h.1 rfl

theorem isSubpart_singleton (b : UInt8) : IsSubpart [b] := .inl rfl

theorem contains_low (hb : followers b = some rs) (hr : r ∈ rs) : r.contains r.low = true := by
  rw [contains_iff]
  refine ⟨le_rfl, ?_⟩
  by_cases h₁ : b.toNat < 128
  · rw [followers_one h₁] at hb
    cases hb
    cases hr
  by_cases h₂ : 194 ≤ b.toNat ∧ b.toNat < 224
  · rw [followers_two h₂.1 h₂.2] at hb
    cases hb
    obtain rfl := List.mem_singleton.1 hr
    decide
  by_cases h₃ : 224 ≤ b.toNat ∧ b.toNat < 240
  · rw [followers_three h₃.1 h₃.2] at hb
    cases hb
    simp only [List.mem_cons, List.not_mem_nil, or_false] at hr
    rcases hr with rfl | rfl
    · dsimp only
      split_ifs <;> first | decide | omega
    · decide
  by_cases h₄ : 240 ≤ b.toNat ∧ b.toNat < 245
  · rw [followers_four h₄.1 h₄.2] at hb
    cases hb
    simp only [List.mem_cons, List.not_mem_nil, or_false] at hr
    rcases hr with rfl | rfl | rfl
    · dsimp only
      split_ifs <;> first | decide | omega
    · decide
    · decide
  · rw [followers_none (by omega)] at hb
    cases hb

theorem follow_map_low (h : ∀ r ∈ rs, r.contains r.low = true) : Follow rs (rs.map Range.low) := by
  rw [Follow, List.forall₂_map_right_iff, List.forall₂_same]
  exact h

/-- A maximal subpart ends before a byte that the sequence it begins does not await. -/
theorem MaximalSubpart.stuck (h : MaximalSubpart (b :: q) s) (hb : followers b = some rs) :
    ∃ rs₁ r rs₂, rs = rs₁ ++ r :: rs₂ ∧ Follow rs₁ q ∧ ∀ c ∈ s.head?, ¬ r.contains c = true := by
  have hfollow : Follow (rs.take q.length) q := by
    rcases h.isSubpart with h₁ | ⟨-, rest, h₁⟩
    · obtain rfl : q = [] := List.length_eq_zero_iff.1 (Nat.succ.inj h₁)
      exact .nil
    · obtain ⟨rs', hrs', hrest⟩ := isSequence_cons_iff.1 h₁
      obtain rfl : rs' = rs := Option.some.inj (hrs'.symm.trans hb)
      exact List.forall₂_take_append rs' q rest hrest
  rcases hdrop : rs.drop q.length with _ | ⟨r, rs₂⟩
  · have hall : rs.take q.length = rs := List.take_of_length_le (List.drop_eq_nil_iff.1 hdrop)
    rw [hall] at hfollow
    have hseq : IsSequence (b :: q) := isSequence_cons_iff.2 ⟨rs, hb, hfollow⟩
    exact absurd hseq (h.unconvertible _ (List.prefix_append _ _))
  · have hrs : rs = rs.take q.length ++ r :: rs₂ := by rw [← hdrop, List.take_append_drop]
    refine ⟨rs.take q.length, r, rs₂, hrs, hfollow, ?_⟩
    -- One more awaited byte would make a longer subpart.
    intro c hc hrc
    obtain ⟨s', rfl⟩ : ∃ s', s = c :: s' := List.head?_eq_some_iff.1 hc
    have hlow : ∀ r' ∈ rs₂, r'.contains r'.low = true := by
      intro r' hr'
      apply contains_low hb
      rw [hrs]
      simp [hr']
    have hwhole : Follow rs (q ++ c :: rs₂.map Range.low) := by
      rw [hrs]
      exact List.rel_append hfollow (.cons hrc (follow_map_low hlow))
    have hpart : IsSubpart (b :: q ++ [c]) := by
      refine .inr ⟨by simp, rs₂.map Range.low, ?_⟩
      simpa using isSequence_cons_iff.2 ⟨rs, hb, hwhole⟩
    exact absurd (h.longest (b :: q ++ [c]) (by simp) hpart) (by simp)

theorem foldl_feed_follow {d : Decoder} (h : Follow (r :: rs) q) (hd : d.awaited = r :: rs) :
    q.foldl Decoder.feed d =
      { d with text := d.text ++ (d.seen ++ q), seen := [], awaited := [] } := by
  induction rs generalizing r q d with
  | nil =>
    obtain _ | ⟨hb, _ | _⟩ := h
    simp [Decoder.feed, hd, hb]
  | cons r' rs ih =>
    obtain _ | @⟨_, b, _, q, hb, hq⟩ := h
    have hfeed : d.feed b = { d with seen := d.seen ++ [b], awaited := r' :: rs } := by
      simp [Decoder.feed, hd, hb]
    rw [List.foldl_cons, hfeed, ih hq rfl]
    simp

theorem foldl_feed_sequence {d : Decoder} (h : IsSequence q) (hseen : d.seen = [])
    (hd : d.awaited = []) : q.foldl Decoder.feed d = { d with text := d.text ++ q } := by
  cases q with
  | nil => exact absurd h not_isSequence_nil
  | cons b q =>
    obtain ⟨rs, hb, hq⟩ := isSequence_cons_iff.1 h
    cases rs with
    | nil =>
      cases hq
      simp [Decoder.feed, Decoder.lead, hd, hb]
    | cons r rs =>
      have hfeed : d.feed b = { d with seen := [b], awaited := r :: rs } := by
        simp [Decoder.feed, Decoder.lead, hd, hb]
      rw [List.foldl_cons, hfeed, foldl_feed_follow hq rfl]
      simp [hseen, hd]

theorem lossy_sequence (h : IsSequence q) (s : Bytes) : lossy (q ++ s) = q ++ lossy s := by
  rw [lossy, decode, List.foldl_append, foldl_feed_sequence h rfl rfl, text_foldl_feed]
  simp [lossy_eq]

theorem lossy_maximalSubpart (h : MaximalSubpart q s) :
    lossy (q ++ s) = replacement ++ lossy s := by
  cases q with
  | nil => exact absurd rfl h.isSubpart.ne_nil
  | cons b q =>
    cases hb : followers b with
    | none =>
      have hq : q = [] := by
        rcases h.isSubpart with h₁ | ⟨-, rest, h₁⟩
        · exact List.length_eq_zero_iff.1 (Nat.succ.inj h₁)
        · obtain ⟨rs, hrs, -⟩ := isSequence_cons_iff.1 h₁
          rw [hb] at hrs
          cases hrs
      subst hq
      exact lossy_cons_of_none hb s
    | some rs =>
      obtain ⟨rs₁, r, rs₂, rfl, hfollow, hs⟩ := h.stuck hb
      obtain ⟨r', rs', hrs⟩ : ∃ r' rs', rs₁ ++ r :: rs₂ = r' :: rs' := by
        cases rs₁ with
        | nil => exact ⟨_, _, rfl⟩
        | cons r' rs' => exact ⟨_, _, rfl⟩
      rw [List.cons_append, lossy_cons_of_cons (hb.trans (congrArg some hrs)), ← hrs]
      exact decodeOn_stuck hfollow hs [b] rs₂

theorem Decodes.eq_lossy {t : Bytes} (h : Decodes s t) : t = lossy s := by
  induction h with
  | nil => exact lossy_nil.symm
  | sequence hq _ ih => rw [ih, lossy_sequence hq]
  | replaced hp _ ih => rw [ih, lossy_maximalSubpart hp, utf8EncodeChar_replacement]

theorem exists_maximalSubpart (hs : s ≠ []) (hseq : ∀ q, q <+: s → ¬ IsSequence q) :
    ∃ p s', s = p ++ s' ∧ MaximalSubpart p s' := by
  classical
  have hone : IsSubpart (s.take 1) := by
    obtain ⟨b, s', rfl⟩ := List.exists_cons_of_ne_nil hs
    exact isSubpart_singleton b
  let n := Nat.findGreatest (fun n => IsSubpart (s.take n)) s.length
  have hn : IsSubpart (s.take n) :=
    Nat.findGreatest_spec (P := fun n => IsSubpart (s.take n)) (List.length_pos_iff.2 hs) hone
  refine ⟨s.take n, s.drop n, (List.take_append_drop n s).symm, ?_, hn, ?_⟩
  · rwa [List.take_append_drop]
  · intro q hq hpart
    rw [List.take_append_drop] at hq
    rw [List.prefix_iff_eq_take.1 hq] at hpart
    have hle : q.length ≤ n := Nat.le_findGreatest hq.length_le hpart
    rw [List.length_take]
    exact le_min hle hq.length_le

theorem exists_decodes (s : Bytes) : ∃ t, Decodes s t := by
  induction hlen : s.length using Nat.strongRecOn generalizing s with
  | ind len ih =>
    by_cases hs : s = []
    · subst hs
      exact ⟨[], .nil⟩
    by_cases hseq : ∃ q, q <+: s ∧ IsSequence q
    · obtain ⟨q, ⟨s', rfl⟩, hq⟩ := hseq
      have hne : q ≠ [] := fun h => not_isSequence_nil (h ▸ hq)
      obtain ⟨t, ht⟩ := ih s'.length (by simp [← hlen, List.length_pos_iff, hne]) s' rfl
      exact ⟨_, .sequence hq ht⟩
    · push Not at hseq
      obtain ⟨p, s', rfl, hp⟩ := exists_maximalSubpart hs hseq
      have hne : p ≠ [] := hp.isSubpart.ne_nil
      obtain ⟨t, ht⟩ := ih s'.length (by simp [← hlen, List.length_pos_iff, hne]) s' rfl
      exact ⟨_, .replaced hp ht⟩

theorem decodes_iff {t : Bytes} : Decodes s t ↔ t = lossy s := by
  constructor
  · exact Decodes.eq_lossy
  · rintro rfl
    obtain ⟨t, ht⟩ := exists_decodes s
    rwa [← ht.eq_lossy]

theorem not_isSequence_of_mem (hb : b.toNat < 128) (hq : q ≠ []) :
    ¬ IsSequence (q ++ b :: s) := by
  obtain ⟨w, q, rfl⟩ := List.exists_cons_of_ne_nil hq
  rw [isSequence_iff_shape, List.cons_append]
  intro h
  have hmem : b ∈ q ++ b :: s := by simp
  generalize q ++ b :: s = u at h hmem
  cases h <;> simp at hmem <;> grind

/-- A maximal subpart remains one when a byte below 128 stands somewhere behind it. -/
theorem MaximalSubpart.append_cons {p : Bytes} (h : MaximalSubpart p s) (hb : b.toNat < 128)
    (t : Bytes) : MaximalSubpart p (s ++ b :: t) := by
  have hp : p ++ s ≠ [] := by simp [h.isSubpart.ne_nil]
  have hcases (q : Bytes) (hq : q <+: p ++ (s ++ b :: t)) :
      q <+: p ++ s ∨ ∃ v, q = p ++ s ++ b :: v := by
    rw [← List.append_assoc] at hq
    have hps : p ++ s <+: p ++ s ++ b :: t := List.prefix_append _ _
    rcases List.prefix_or_prefix_of_prefix hq hps with hq' | ⟨v, rfl⟩
    · exact .inl hq'
    · rw [List.prefix_append_right_inj] at hq
      cases v with
      | nil => exact .inl (by simp)
      | cons c v =>
        obtain ⟨rfl, -⟩ := List.cons_prefix_cons.1 hq
        exact .inr ⟨v, rfl⟩
  refine ⟨?_, h.isSubpart, ?_⟩
  · intro q hq
    rcases hcases q hq with hq | ⟨v, rfl⟩
    · exact h.unconvertible q hq
    · exact not_isSequence_of_mem hb hp
  · intro q hq hpart
    rcases hcases q hq with hq | ⟨v, rfl⟩
    · exact h.longest q hq hpart
    · rcases hpart with hlen | ⟨-, rest, hseq⟩
      · have := List.length_pos_iff.2 hp
        grind
      · rw [List.append_assoc, List.cons_append] at hseq
        exact absurd hseq (not_isSequence_of_mem hb hp)

theorem isSequence_singleton (hb : b.toNat < 128) : IsSequence [b] :=
  isSequence_iff_shape.2 (.one hb)

theorem Decodes.append_cons {t u v : Bytes} (hs : Decodes s u) (hb : b.toNat < 128)
    (ht : Decodes t v) : Decodes (s ++ b :: t) (u ++ b :: v) := by
  induction hs with
  | nil => exact Decodes.sequence (q := [b]) (isSequence_singleton hb) ht
  | sequence hq _ ih =>
    rw [List.append_assoc, List.append_assoc]
    exact .sequence hq ih
  | replaced hp _ ih =>
    rw [List.append_assoc, List.append_assoc]
    exact .replaced (hp.append_cons hb t) ih

theorem lossy_append_cons (hb : b.toNat < 128) (s t : Bytes) :
    lossy (s ++ b :: t) = lossy s ++ b :: lossy t :=
  ((decodes_iff.2 rfl).append_cons hb (decodes_iff.2 rfl)).eq_lossy.symm

example : lossy [0xE2, 0x82, 44, 0x80] = replacement ++ 44 :: replacement := by decide

def IsAscii (s : Bytes) : Prop := ∀ b ∈ s, b.toNat < 128

theorem isAscii_iff : IsAscii s ↔ s.all (fun b => decide (b.toNat < 128)) = true := by
  simp [IsAscii]

instance : DecidablePred IsAscii := fun _ => decidable_of_decidable_of_iff isAscii_iff.symm

theorem IsAscii.append {w : Bytes} (hs : IsAscii s) (hw : IsAscii w) : IsAscii (s ++ w) :=
  List.forall_mem_append.2 ⟨hs, hw⟩

theorem lossy_ascii_append {w : Bytes} (hw : IsAscii w) (t : Bytes) :
    lossy (w ++ t) = w ++ lossy t := by
  induction w with
  | nil => rfl
  | cons b w ih =>
    obtain ⟨hb, hw⟩ := List.forall_mem_cons.1 hw
    rw [List.cons_append, ← List.nil_append (b :: _), lossy_append_cons hb, ih hw]
    rfl

theorem lossy_ascii {w : Bytes} (hw : IsAscii w) : lossy w = w := by
  simpa [lossy_nil] using lossy_ascii_append hw []

theorem lossy_append_ascii_append {w : Bytes} (hw : IsAscii w) (hne : w ≠ []) (s t : Bytes) :
    lossy (s ++ (w ++ t)) = lossy s ++ (w ++ lossy t) := by
  obtain ⟨b, w, rfl⟩ := List.exists_cons_of_ne_nil hne
  obtain ⟨hb, hw⟩ := List.forall_mem_cons.1 hw
  rw [List.cons_append, lossy_append_cons hb, lossy_ascii_append hw, List.cons_append]

end StackCalc.Utf8
