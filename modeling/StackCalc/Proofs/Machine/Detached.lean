import StackCalc.Proofs.Machine.Deed

/-! # Runs away from the standard outputs

Where no place of the disk is a standard output, no save reaches one, and saving brings none about.
A run then leaves the error output alone.
-/

namespace StackCalc

namespace Disk

variable {d d' : Disk} {k : Sink}

def Detached (d : Disk) : Prop := ∀ p s, d.find? p ≠ some (.standardOutput s)

theorem detached_empty : empty.Detached := by
  intro p s hp
  obtain ⟨before, after, hentries, -⟩ := List.lookup_eq_some_iff.1 hp
  have hmem : (p, .standardOutput s) ∈ empty.entries := by
    rw [hentries]
    exact List.mem_append_right before List.mem_cons_self
  have hall : ∀ e ∈ empty.entries, e.2 ≠ .standardOutput s := by
    cases s <;> decide
  exact hall _ hmem rfl

namespace Detached

theorem put (h : d.Detached) (p : Path) (contents : Bytes) (access : Access) :
    (d.put p (.file contents access)).Detached := by
  intro q s
  by_cases hq : q = p
  · subst hq
    rw [find?, Disk.put, Entries.lookup_put_self]
    nofun
  · rw [find?, Disk.put, Entries.lookup_put_of_ne _ _ hq]
    exact h q s

theorem create (h : d.Detached) {path : Bytes} (hc : d.create path = .ok (k, d')) :
    d'.Detached := by
  cases hp : d.locateNew path with
  | error f =>
    unfold Disk.create at hc
    rw [hp] at hc
    cases hc
  | ok p =>
    unfold Disk.create at hc
    rw [hp] at hc
    dsimp only [bind, Except.bind] at hc
    split at hc <;> cases hc
    · exact h.put p [] _
    · exact h.put p [] _
    · exact h
    · exact h

theorem fill (h : d.Detached) (path contents : Bytes) : (d.fill path contents).Detached := by
  unfold Disk.fill
  split
  · exact h
  next p _ =>
    split
    · exact h.put p contents _
    · exact h
    · exact h

theorem fetch (h : d.Detached) (limit : Nat) (r : Source) : (d.fetch limit r).2.Detached := by
  unfold Disk.fetch
  split
  · exact h
  · dsimp only
    split <;> exact h

theorem stream?_eq_none (h : d.Detached) (path : Bytes) : d.stream? path = none := by
  unfold Disk.stream?
  split
  · rfl
  next p _ =>
    split
    next s hs => exact absurd hs (h p s)
    next => rfl

end Detached

end Disk

namespace Files

variable {f f' : Files} {k : Sink}

theorem detached_create (h : f.disk.Detached) {n : Name} (hc : f.create n = .ok (k, f')) :
    f'.disk.Detached := by
  unfold create at hc
  split at hc
  · cases hd : f.disk.create n with
    | error e =>
      rw [hd] at hc
      cases hc
    | ok r =>
      rw [hd] at hc
      cases hc
      exact h.create hd
  next shelf _ =>
    cases hs : shelf.create n with
    | error e =>
      rw [hs] at hc
      cases hc
    | ok r =>
      rw [hs] at hc
      cases hc
      exact h
  · cases hc
    exact h

theorem detached_fill (h : f.disk.Detached) (n : Name) (contents : Bytes) :
    (f.fill n contents).disk.Detached := by
  unfold fill
  split
  · exact h.fill n contents
  · exact h
  · exact h

theorem detached_save (h : f.disk.Detached) (t : Table) (n : Name) :
    (f.save t n).2.disk.Detached := by
  unfold save
  split
  · exact h
  · split
    · exact h
    next hc =>
      have h' := detached_create h hc
      split <;> exact detached_fill h' n _

theorem stream?_eq_none_of_detached (h : f.disk.Detached) (n : Name) : f.stream? n = none := by
  unfold stream?
  split
  · exact h.stream?_eq_none n
  · rfl

end Files

/-- Whether or not it fails, the state is one that `P` holds of. -/
def Leaves {ε σ α : Type} (P : σ → Prop) : EStateM.Result ε σ α → Prop
  | .ok _ s => P s
  | .error _ s => P s

namespace Leaves

variable {ε σ α β : Type} {P : σ → Prop} {s : σ}

theorem bind {x : EStateM ε σ α} {f : α → EStateM ε σ β} (hx : Leaves P (x s))
    (hf : ∀ a s, P s → Leaves P (f a s)) : Leaves P ((x >>= f) s) := by
  change Leaves P (EStateM.bind x f s)
  unfold EStateM.bind
  generalize x s = r at hx
  cases r with
  | ok a s => exact hf a s hx
  | error e s => exact hx

theorem forM {f : α → EStateM ε σ PUnit} (hf : ∀ a s, P s → Leaves P (f a s)) (hs : P s)
    (as : List α) : Leaves P (as.forM f s) := by
  induction as generalizing s with
  | nil => exact hs
  | cons a as ih => exact bind (hf a s hs) fun _ _ h => ih h

end Leaves

namespace Machine

variable {m : Machine} {k : Sink}

/-- Nothing but `k` is on the error output, and nothing gets there. -/
structure Hushed (k : Sink) (m : Machine) : Prop where
  err_eq : m.err = k
  detached : m.files.disk.Detached

namespace Hushed

theorem tellAll (h : m.Hushed k) (told : List Event) : (m.tellAll told).Hushed k := by
  induction told generalizing m with
  | nil => exact h
  | cons e told ih => exact ih ⟨h.err_eq, h.detached⟩

theorem move (h : m.Hushed k) {a : Move} (ha : a.Arises m.table m.files) :
    Leaves (Hushed k) (a.act m) := by
  cases ha with
  | settle failure? s t => cases failure? <;> exact ⟨h.err_eq, h.detached⟩
  | saved failure? s n =>
    have hd := Files.detached_save h.detached m.table n
    cases failure? <;> exact ⟨h.err_eq, hd⟩
  | print text =>
    dsimp only [Move.act, Machine.print]
    cases Sink.write text m.out <;> exact ⟨h.err_eq, h.detached⟩
  | @save stream n hs =>
    rw [Files.stream?_eq_none_of_detached h.detached] at hs
    cases hs

theorem execute (h : m.Hushed k) (hm : m.stack.Bounded) (line : Bytes) :
    (m.after (execute line)).Hushed k := by
  have hleaves : Leaves (Hushed k) (Machine.execute line m) := by
    rw [execute_eq_act line hm]
    refine (h.tellAll _).move ?_
    rw [(sameCore_tellAll m _).table_eq, (silent_tellAll m _).files_eq]
    exact Line.arises_deed _
  unfold after
  generalize Machine.execute line m = r at hleaves
  cases r with
  | ok _ m' => exact hleaves
  | error c m' => exact hleaves

theorem kept (k : Sink) : Kept fun m => m.Hushed k ∧ m.stack.Bounded where
  emit _ h := ⟨⟨h.1.err_eq, h.1.detached⟩, h.2⟩
  supply limit input h := ⟨⟨h.1.err_eq, h.1.detached.fetch limit input⟩, h.2⟩

theorem run (h : m.Hushed k) (hm : m.stack.Bounded) (input : Source) :
    (run input m).machine.Hushed k := by
  refine (runLines_preserves (kept k) (fun m line _ h => ?_) _ 0 input ⟨h, hm⟩).1
  exact ⟨h.1.execute h.2 line, bounded_after_execute line h.2⟩

end Hushed

end Machine

end StackCalc
