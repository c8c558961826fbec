import StackCalc.Machine.Save
import StackCalc.Proofs.Table.Walks
import StackCalc.Proofs.Tree.Rebuild

/-! # What a save leaves behind

Saving writes one text, in however many pieces. A target that cannot be created is left as it is;
one that can be is emptied and then holds as much of the text as there is room for. Nothing else in
the storage changes.
-/

namespace StackCalc

def HasRoom (room : Option Nat) (n : Nat) : Prop := ∀ most ∈ room, n ≤ most

namespace Sink

theorem write_cases (k : Sink) (s : Bytes) :
    ∃ k', k'.bytes = k.bytes ++ s.take (k.room.getD s.length) ∧ k'.flushFault = k.flushFault ∧
      (HasRoom k.room s.length ∧ write s k = .ok () k' ∨
        ¬ HasRoom k.room s.length ∧ write s k = .error k.full k') := by
  refine ⟨k.after (write s), bytes_after_write k s, ?_⟩
  cases hk : k.room with
  | none => simp [after, write, HasRoom, hk]
  | some n => by_cases h : s.length ≤ n <;> simp [after, write, HasRoom, hk, h]

end Sink

theorem Table.encode_of_write_ok {t : Table} {k k' : Sink} (h : Sink.write t.text k = .ok () k') :
    t.encode k =
      match k'.flushFault with
      | none => .ok t.byLevel.length k'
      | some fault => .error fault k' := by
  rw [encode_eq_write]
  change EStateM.bind (Sink.write t.text) (fun _ => EStateM.bind Sink.flush fun _ => pure _) k = _
  unfold EStateM.bind Sink.flush
  rw [h]
  dsimp only
  cases k'.flushFault <;> rfl

theorem Table.encode_of_write_error {t : Table} {k k' : Sink} {fault : Fault}
    (h : Sink.write t.text k = .error fault k') : t.encode k = .error fault k' := by
  rw [encode_eq_write]
  change EStateM.bind (Sink.write t.text) _ k = _
  unfold EStateM.bind
  rw [h]

/-- The encoding is written as far as there is room, whether or not the flush that follows fails. -/
theorem Table.encode_cases (t : Table) (k : Sink) :
    ∃ k', k'.bytes = k.bytes ++ t.text.take (k.room.getD t.text.length) ∧
      ((HasRoom k.room t.text.length ∧ k.flushFault = none) ∧ t.encode k = .ok t.byLevel.length k' ∨
        ¬ (HasRoom k.room t.text.length ∧ k.flushFault = none) ∧
          ∃ fault, t.encode k = .error fault k') := by
  obtain ⟨k', hbytes, hflush, hwrite⟩ := Sink.write_cases k t.text
  refine ⟨k', hbytes, ?_⟩
  obtain ⟨hroom, hw⟩ | ⟨hroom, hw⟩ := hwrite
  · rw [encode_of_write_ok hw, hflush]
    cases k.flushFault with
    | none => exact .inl ⟨⟨hroom, rfl⟩, rfl⟩
    | some fault => exact .inr ⟨fun h => Option.some_ne_none _ h.2, fault, rfl⟩
  · exact .inr ⟨fun h => hroom h.1, k.full, encode_of_write_error hw⟩

theorem Table.WellFormed.length_byLevel {t : Table} (h : t.WellFormed) :
    t.byLevel.length = t.size := by
  rw [← List.length_map Node.binding, h.byLevel_bindings, Tree.length_levels, ← h.size_eq]

theorem Table.WellFormed.encode_text {t : Table} (h : t.WellFormed) :
    ∃ k, t.encode {} = .ok t.size k ∧ k.bytes = t.text := by
  obtain ⟨k, hbytes, ⟨-, henc⟩ | ⟨hfits, -⟩⟩ := t.encode_cases {}
  · rw [h.length_byLevel] at henc
    exact ⟨k, henc, by rw [hbytes]; exact List.take_length⟩
  · exact absurd ⟨nofun, rfl⟩ hfits

namespace Shelf

/-- The target cannot be created: its name is not text, or the shelf turns it down. -/
def Refuses (h : Shelf) (name : Name) : Prop :=
  ¬ Utf8.isWellFormed name ∨ ∃ fault, h.create name = .error fault

theorem not_refuses_iff {h : Shelf} {name : Name} :
    ¬ h.Refuses name ↔ Utf8.isWellFormed name ∧ ∃ c, h.terms name = .ok c := by
  rw [Refuses, not_or, not_not, create]
  cases h.terms name with
  | error fault => simp [bind, Except.bind]
  | ok c => simp [bind, Except.bind, pure, Except.pure]

/-- The second shelf is the first with these contents under the name, and with nothing else
changed. -/
structure Replaced (h : Shelf) (name contents : Bytes) (h' : Shelf) : Prop where
  find?_self : h'.find? name = some contents
  find?_of_ne : ∀ other, other ≠ name → h'.find? other = h.find? other
  policy_eq : h'.policy = h.policy

theorem replaced_fill (h : Shelf) (name contents : Bytes) :
    h.Replaced name contents (h.fill name contents) where
  find?_self := List.lookup_cons_self
  find?_of_ne _ hne := by rw [find?, fill, List.lookup_cons, beq_false_of_ne hne, find?]
  policy_eq := rfl

theorem Replaced.fill {h h' : Shelf} {name old : Bytes} (hr : h.Replaced name old h')
    (contents : Bytes) : h.Replaced name contents (h'.fill name contents) where
  find?_self := (h'.replaced_fill name contents).find?_self
  find?_of_ne other hne :=
    ((h'.replaced_fill name contents).find?_of_ne other hne).trans (hr.find?_of_ne other hne)
  policy_eq := hr.policy_eq

end Shelf

namespace Files

variable {shelf : Shelf} {t : Table} {name : Name}

theorem save_of_refuses (disk : Disk) (h : shelf.Refuses name) :
    ∃ c : Cause, c.code = .badFileName ∧ save { disk, storage := .shelf shelf } t name =
      (.error c, { disk, storage := .shelf shelf }) := by
  by_cases hname : Utf8.isWellFormed name
  · obtain ⟨fault, hfault⟩ := h.resolve_left (not_not_intro hname)
    refine ⟨.targetRefused name fault, rfl, ?_⟩
    have hcreate : create { disk, storage := .shelf shelf } name = .error fault := by
      simp only [create, hfault]
      rfl
    rw [save, if_neg (by simpa using hname), hcreate]
  · refine ⟨.targetNotText name, rfl, ?_⟩
    rw [save, if_pos (by simpa using hname)]

/-- Once the target is created its old contents are gone, and only writing can still fail. -/
theorem save_of_terms (disk : Disk) (hname : Utf8.isWellFormed name) {c : Terms}
    (hc : shelf.terms name = .ok c) :
    let kept := t.text.take (c.room.getD t.text.length)
    let fits := HasRoom c.room t.text.length ∧ c.flushFault = none
    ∃ r, save { disk, storage := .shelf shelf } t name =
        (r, { disk, storage := .shelf ((shelf.fill name []).fill name kept) }) ∧
      (fits ∧ r = .ok t.byLevel.length ∨
        ¬ fits ∧ ∃ fault, r = .error (.targetFailed name fault)) := by
  intro kept fits
  have hcreate : create { disk, storage := .shelf shelf } name =
      .ok (c.sink, { disk, storage := .shelf (shelf.fill name []) }) := by
    simp only [create, Shelf.create, hc]
    rfl
  obtain ⟨k, hbytes, hcases⟩ := t.encode_cases c.sink
  have hkept : k.bytes = kept := hbytes
  rw [save, if_neg (by simpa using hname), hcreate]
  obtain ⟨hfits, henc⟩ | ⟨hfits, fault, henc⟩ := hcases
  · refine ⟨.ok t.byLevel.length, ?_, .inl ⟨hfits, rfl⟩⟩
    simp only [henc, hkept]
    rfl
  · refine ⟨.error (.targetFailed name fault), ?_, .inr ⟨hfits, fault, rfl⟩⟩
    simp only [henc, hkept]
    rfl

/-- Nothing happens if the target cannot be created. Otherwise it holds the text of the table, or as
much of it as there is room for, and the save succeeds if that is all of it and the flush does. -/
theorem save_keeps_what_fits (ht : t.Reachable fun _ => True) (disk : Disk) (shelf : Shelf)
    (name : Name) :
    ∃ k shelf', t.encode {} = .ok t.size k ∧
      let text := k.bytes
      let saved := save { disk, storage := .shelf shelf } t name
      saved.2 = { disk, storage := .shelf shelf' } ∧
      (saved.1.mapError Cause.code = .error .badFileName ∧ shelf' = shelf ↔
        shelf.Refuses name) ∧
      (¬ shelf.Refuses name → ∃ c, shelf.terms name = .ok c ∧
        let fits := HasRoom c.room text.length ∧ c.flushFault = none
        shelf.Replaced name (text.take (c.room.getD text.length)) shelf' ∧
        (saved.1 = .ok t.size ↔ fits) ∧
        (¬ fits → saved.1.mapError Cause.code = .error .diskError)) := by
  obtain ⟨k, hk, hbytes⟩ := ht.wellFormed.encode_text
  by_cases h : shelf.Refuses name
  · obtain ⟨c, hcode, hsave⟩ := save_of_refuses (t := t) disk h
    refine ⟨k, shelf, hk, ?_⟩
    rw [hsave]
    intro text saved
    refine ⟨rfl, iff_of_true ⟨?_, rfl⟩ h, fun hn => absurd h hn⟩
    rw [← hcode]
    rfl
  · obtain ⟨hname, c, hc⟩ := Shelf.not_refuses_iff.1 h
    obtain ⟨r, hsave, hcases⟩ := save_of_terms (t := t) disk hname hc
    let kept := t.text.take (c.room.getD t.text.length)
    have hreplaced := (shelf.replaced_fill name []).fill kept
    refine ⟨k, (shelf.fill name []).fill name kept, hk, ?_⟩
    rw [hsave, hbytes]
    intro text saved
    obtain ⟨hfits, rfl⟩ | ⟨hfits, fault, rfl⟩ := hcases
    · refine ⟨rfl, iff_of_false (fun hb => ?_) h, fun _ => ⟨c, hc, hreplaced, ?_, absurd hfits⟩⟩
      · cases hb.1
      · exact iff_of_true (congrArg Except.ok ht.wellFormed.length_byLevel) hfits
    · refine ⟨rfl, iff_of_false (fun hb => ?_) h, fun _ => ⟨c, hc, hreplaced, ?_, fun _ => rfl⟩⟩
      · cases hb.1
      · exact iff_of_false (fun hok => nomatch hok) hfits

open Bytes (ascii) in
/-- The text is cut inside a name, over contents that were longer. There is room for 18 bytes in all
on the shelf, and another file takes up four of them. -/
theorem save_cut_in_name :
    let t := (({} : Table).insert (ascii "ab") 7).2
    let shelf : Shelf :=
      { history := [(ascii "t", ascii "push 1234567\nstore n\n"), (ascii "u", ascii "kept")],
        policy := fun history name =>
          let others := (history.filter (·.1 != name)).flatMap Prod.snd
          .ok { room := some (18 - others.length) } }
    t.Reachable (fun _ => True) ∧ ¬ shelf.Refuses (ascii "t") ∧ ∃ shelf',
      let saved := save { storage := .shelf shelf } t (ascii "t")
      saved.2 = { storage := .shelf shelf' } ∧
      shelf'.find? (ascii "t") = some (ascii "push 7\nstore a") ∧
      shelf'.find? (ascii "u") = some (ascii "kept") ∧
      saved.1.mapError Cause.code = .error .diskError := by
  intro t shelf
  have ht : t.Reachable (fun _ => True) := .insert _ .empty trivial
  have hterms : shelf.terms (ascii "t") = .ok { room := some 14 } := rfl
  have hrefuses : ¬ shelf.Refuses (ascii "t") :=
    Shelf.not_refuses_iff.2 ⟨by decide, _, hterms⟩
  obtain ⟨k, shelf', hk, hfiles, -, h⟩ := save_keeps_what_fits ht .empty shelf (ascii "t")
  obtain ⟨c, hc, hreplaced, -, hfailed⟩ := h hrefuses
  obtain rfl := Except.ok.inj (hterms.symm.trans hc)
  have hbytes : k.bytes = ascii "push 7\nstore ab\n" := by
    cases hk
    decide
  rw [hbytes] at hreplaced hfailed
  refine ⟨ht, hrefuses, shelf', hfiles, hreplaced.find?_self, ?_, hfailed fun hfits => ?_⟩
  · exact hreplaced.find?_of_ne _ (by decide)
  · exact absurd (hfits.1 14 rfl) (by decide)

end Files

end StackCalc
