import StackCalc.Machine.Execute
import StackCalc.Proofs.Machine.Saving

/-! # Surroundings that never fail

A sink without a bound takes everything that is written to it. Files accept every save if each one
succeeds, however many have gone before; then none of them is a standard output in disguise, and
saving changes nothing but the files.
-/

namespace StackCalc

namespace Sink

variable {k k' : Sink}

structure Grown (k : Sink) (s : Bytes) (k' : Sink) : Prop where
  room_eq : k'.room = none
  flushFault_eq : k'.flushFault = k.flushFault
  bytes_eq : k'.bytes = k.bytes ++ s

/-- The sink takes everything, and can be flushed. -/
structure NeverFails (k : Sink) : Prop where
  room_eq : k.room = none
  flushFault_eq : k.flushFault = none

theorem NeverFails.of_grown {s : Bytes} (h : k.NeverFails) (hk : Grown k s k') : k'.NeverFails :=
  ⟨hk.room_eq, hk.flushFault_eq.trans h.flushFault_eq⟩

theorem write_grown (hk : k.room = none) (s : Bytes) :
    ∃ k', write s k = .ok () k' ∧ Grown k s k' := by
  rw [write, hk]
  exact ⟨_, rfl, rfl, rfl, by simp [bytes]⟩

theorem writeAll_grown (hk : k.room = none) (pieces : List Bytes) :
    ∃ k', writeAll pieces k = .ok () k' ∧ Grown k pieces.flatten k' := by
  rw [writeAll_eq_write]
  exact write_grown hk _

theorem forM_grown {α : Type} {f : α → Writing Unit} {g : α → Bytes}
    (hf : ∀ a, f a = write (g a)) (hk : k.room = none) (as : List α) :
    ∃ k', as.forM f k = .ok () k' ∧ Grown k (as.flatMap g) k' := by
  rw [forM_eq_write hf]
  exact write_grown hk _

end Sink

/-- The shelf denies no name and has room for everything, whatever it has been made to hold. -/
def Shelf.IsOpen (h : Shelf) : Prop :=
  ∀ history name, ∃ c : Terms, h.policy history name = .ok c ∧ c.room = none ∧ c.flushFault = none

namespace Files

variable {f : Files}

/-- Every save to a target whose name is text succeeds, whatever has been saved before. -/
def AcceptsSaves (f : Files) : Prop :=
  ∀ (saved : List (Table × Name)) (t : Table) (name : Name), Utf8.isWellFormed name →
    ∃ n, ((saved.foldl (fun f s => (f.save s.1 s.2).2) f).save t name).1 = .ok n

theorem AcceptsSaves.save_eq_ok (h : f.AcceptsSaves) (t : Table) {name : Name}
    (hname : Utf8.isWellFormed name) : ∃ n, (f.save t name).1 = .ok n :=
  h [] t name hname

theorem AcceptsSaves.save (h : f.AcceptsSaves) (t : Table) (name : Name) :
    (f.save t name).2.AcceptsSaves := fun saved => h ((t, name) :: saved)

/-- The tree of files does not accept every save: it has no file without a name. -/
theorem AcceptsSaves.storage_ne_disk (h : f.AcceptsSaves) : f.storage ≠ .disk := by
  intro hdisk
  have hcreate : f.create [] = .error (.system .noSuchFile) := by
    rw [create, hdisk]
    rfl
  obtain ⟨n, hn⟩ := h.save_eq_ok {} (show Utf8.isWellFormed [] by decide)
  simp only [Files.save, hcreate] at hn
  cases hn

theorem AcceptsSaves.stream?_eq_none (h : f.AcceptsSaves) (name : Name) :
    f.stream? name = none := by
  have hne := h.storage_ne_disk
  unfold stream?
  split
  · contradiction
  · rfl

theorem save_of_isOpen (disk : Disk) {shelf : Shelf} (h : shelf.IsOpen) (t : Table) (name : Name) :
    ∃ shelf' : Shelf, shelf'.IsOpen ∧
      (save { disk, storage := .shelf shelf } t name).2 = { disk, storage := .shelf shelf' } ∧
      (Utf8.isWellFormed name →
        ∃ n, (save { disk, storage := .shelf shelf } t name).1 = .ok n) := by
  by_cases hname : Utf8.isWellFormed name
  · obtain ⟨c, hc, hroom, hflush⟩ := h shelf.history name
    obtain ⟨r, hsave, ⟨-, rfl⟩ | ⟨hfits, -⟩⟩ := save_of_terms (t := t) disk hname hc
    · rw [hsave]
      exact ⟨(shelf.fill name []).fill name _, h, rfl, fun _ => ⟨_, rfl⟩⟩
    · exact absurd ⟨hroom.symm ▸ nofun, hflush⟩ hfits
  · obtain ⟨c, -, hsave⟩ := save_of_refuses (t := t) disk (.inl hname : shelf.Refuses name)
    rw [hsave]
    exact ⟨shelf, h, rfl, fun hn => absurd hn hname⟩

theorem acceptsSaves_of_isOpen (disk : Disk) {shelf : Shelf} (h : shelf.IsOpen) :
    ({ disk, storage := .shelf shelf } : Files).AcceptsSaves := by
  intro saved t name hname
  induction saved generalizing shelf with
  | nil =>
    obtain ⟨shelf', -, -, hok⟩ := save_of_isOpen disk h t name
    exact hok hname
  | cons s saved ih =>
    obtain ⟨shelf', h', hsave, -⟩ := save_of_isOpen disk h s.1 s.2
    rw [List.foldl_cons, hsave]
    exact ih h'

end Files

end StackCalc
