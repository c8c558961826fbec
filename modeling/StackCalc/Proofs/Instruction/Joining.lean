import StackCalc.Proofs.Instruction.Grammar

/-! # Fields and the separators between them

Fields are joined to a text by separators: one or more between neighbours, any number before the
first and after the last. However that is done, reading the text gives the fields back in order,
and every text whatever joins one list of fields and no other.
-/

namespace StackCalc.Bytes

variable {s a b gap : Bytes} {fs : List Bytes} {x : UInt8}

def IsBlank (s : Bytes) : Prop := ∀ x ∈ s, isSeparator x = true

instance : DecidablePred IsBlank := fun _ => decidable_of_decidable_of_iff List.all_eq_true

inductive Spaced : List Bytes → Bytes → Prop where
  | nil : Spaced [] []
  | single {f : Bytes} : IsField f → Spaced [f] f
  | cons {f gap g s : Bytes} {fs : List Bytes} : IsField f → gap ≠ [] → IsBlank gap →
      Spaced (g :: fs) s → Spaced (f :: g :: fs) (f ++ gap ++ s)

/-- The fields spaced out, with separators or nothing before the first and after the last. -/
inductive Joins (fs : List Bytes) : Bytes → Prop where
  | mk {front s back : Bytes} : IsBlank front → Spaced fs s → IsBlank back →
      Joins fs (front ++ s ++ back)

theorem isBlank_nil : IsBlank [] := fun _ hx => absurd hx List.not_mem_nil

theorem isBlank_cons : IsBlank (x :: s) ↔ isSeparator x = true ∧ IsBlank s :=
  List.forall_mem_cons

theorem IsBlank.append (ha : IsBlank a) (hb : IsBlank b) : IsBlank (a ++ b) :=
  List.forall_mem_append.2 ⟨ha, hb⟩

theorem fields_blank_append (ha : IsBlank a) (s : Bytes) : fields (a ++ s) = fields s := by
  induction a with
  | nil => rfl
  | cons x a ih =>
    obtain ⟨hx, ha⟩ := isBlank_cons.1 ha
    rw [List.cons_append, fields_separator_cons hx, ih ha]

theorem fields_append_gap (hne : gap ≠ []) (hgap : IsBlank gap) (a b : Bytes) :
    fields (a ++ gap ++ b) = fields a ++ fields b := by
  obtain ⟨x, gap, rfl⟩ := List.exists_cons_of_ne_nil hne
  obtain ⟨hx, hgap⟩ := isBlank_cons.1 hgap
  rw [List.append_assoc, List.cons_append, fields_append_separator hx, fields_blank_append hgap]

theorem fields_append_blank (hb : IsBlank b) (s : Bytes) : fields (s ++ b) = fields s := by
  by_cases hne : b = []
  · rw [hne, List.append_nil]
  · have h := fields_append_gap hne hb s []
    rwa [List.append_nil, fields_nil, List.append_nil] at h

theorem Spaced.fields_eq (h : Spaced fs s) : fields s = fs := by
  induction h with
  | nil => exact fields_nil
  | single hf => exact fields_of_isField hf
  | cons hf hne hgap _ ih => rw [fields_append_gap hne hgap, fields_of_isField hf, ih]; rfl

theorem Joins.fields_eq (h : Joins fs s) : fields s = fs := by
  obtain ⟨hfront, hs, hback⟩ := h
  rw [fields_append_blank hback, fields_blank_append hfront, hs.fields_eq]

theorem Joins.separator_cons (hx : isSeparator x = true) (h : Joins fs s) : Joins fs (x :: s) := by
  obtain ⟨hfront, hs, hback⟩ := h
  exact .mk (isBlank_cons.2 ⟨hx, hfront⟩) hs hback

theorem joins_single {f : Bytes} (hf : IsField f) (hb : IsBlank b) : Joins [f] (f ++ b) :=
  .mk isBlank_nil (.single hf) hb

/-- A field in front of a text needs a separator after it. What it joins up with depends on whether
the text holds a field at all: if it does, its blank front is part of the gap. -/
theorem Joins.field_cons {f : Bytes} (hf : IsField f) (hx : isSeparator x = true)
    (h : Joins fs s) : Joins (f :: fs) (f ++ x :: s) := by
  obtain @⟨front, s, back, hfront, hs, hback⟩ := h
  have hgap : IsBlank (x :: front) := isBlank_cons.2 ⟨hx, hfront⟩
  cases fs with
  | nil =>
    cases hs
    simpa using joins_single hf (hgap.append hback)
  | cons g fs =>
    have hspaced := Spaced.cons hf (List.cons_ne_nil x front) hgap hs
    simpa using Joins.mk isBlank_nil hspaced hback

theorem Runs.joins (h : Runs s fs) : Joins fs s := by
  induction h with
  | nil => exact .mk isBlank_nil .nil isBlank_nil
  | separator hx _ ih => exact ih.separator_cons hx
  | last hf => simpa using joins_single hf isBlank_nil
  | field hf hx _ ih => exact ih.field_cons hf hx

theorem joins_iff : Joins fs s ↔ fields s = fs := by
  constructor
  · exact Joins.fields_eq
  · rintro rfl
    exact (runs_fields s).joins

/-- Reading undoes joining. Whatever separators stand around and between the fields of a text, its
first fields are the first of them, and every text joins one list of fields and only one. -/
theorem firstFields_inverts_joins (s : Bytes) :
    (∀ fs most, Joins fs s → firstFields s most = fs.take most) ∧ ∃! fs, Joins fs s := by
  constructor
  · intro fs most h
    rw [firstFields, h.fields_eq]
  · refine ⟨fields s, joins_iff.2 rfl, ?_⟩
    intro fs h
    exact h.fields_eq.symm

/-- All four separators stand in the gaps. A vertical tab and bytes outside ASCII do not separate. -/
theorem firstFields_between_mixed_gaps :
    let fs := [ascii "store", [97, 11, 98], [255, 233]]
    let s := ascii "\t store \r\n" ++ [97, 11, 98] ++ ascii "\t" ++ [255, 233] ++ ascii " \n"
    Joins fs s ∧ firstFields s 2 = [ascii "store", [97, 11, 98]] ∧ ∃! gs, Joins gs s := by
  intro fs s
  have hinner : Spaced fs
      (ascii "store" ++ ascii " \r\n" ++ ([97, 11, 98] ++ ascii "\t" ++ [255, 233])) :=
    .cons (by decide) (by decide) (by decide)
      (.cons (by decide) (by decide) (by decide) (.single (by decide)))
  have hs : Joins fs s := @Joins.mk fs (ascii "\t ") _ (ascii " \n") (by decide) hinner (by decide)
  obtain ⟨hfirst, hunique⟩ := firstFields_inverts_joins s
  exact ⟨hs, hfirst fs 2 hs, hunique⟩

end StackCalc.Bytes
