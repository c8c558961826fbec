import StackCalc.Proofs.Machine.Reachable

/-! # What a line comes to

Stack, table and files decide what a line does before any output is involved: it tells some events,
and then it settles what becomes of the three, prints a text, or saves the table to one of the
standard outputs. Only in the last two cases does it matter what the outputs are like.
-/

namespace StackCalc

/-- The last thing a line does. -/
inductive Move where
  /-- Stack, table and files become these, and the line fails if there is a cause. -/
  | settle (failure? : Option Cause) (stack : Stack) (table : Table) (files : Files)
  | print (text : Bytes)
  | save (stream : Stream) (name : Name)

structure Deed where
  told : List Event := []
  move : Move

namespace Machine

def tellAll (m : Machine) (told : List Event) : Machine := told.foldl emit m

end Machine

open Machine

def Move.act : Move → Action Unit
  | settle failure? stack table files => fun m =>
    match failure? with
    | none => .ok () { m with stack, table, files }
    | some c => .error c { m with stack, table, files }
  | print text => Machine.print (Sink.write text)
  | save stream name => saveTo stream name

def Deed.act (d : Deed) : Action Unit := fun m => d.move.act (m.tellAll d.told)

/-- Settles a result for stack and table. If it is an error nothing is told. -/
def Deed.ofEffect (told : List Event) (s : Stack) (t : Table) (f : Files) :
    Except Cause (Stack × Table) → Deed
  | .ok (s', t') => { told, move := .settle none s' t' f }
  | .error c => { move := .settle (some c) s t f }

namespace Instruction

def remarks (s : Stack) (t : Table) : Instruction → List Event
  | store n =>
    match s.pop with
    | .ok (v, _) => ((t.insert n v).1.map fun previous => .rebound n previous v).toList
    | .error _ => []
  | remove n => if (t.remove n).1.isNone then [.nothingToRemove n] else []
  | _ => []

def saveDeed (s : Stack) (t : Table) (f : Files) (n : Name) : Deed :=
  match f.save t n with
  | (.ok count, f') => { told := [.saving n, .saved n count], move := .settle none s t f' }
  | (.error c, f') => { told := [.saving n], move := .settle (some c) s t f' }

def deed (s : Stack) (t : Table) (f : Files) : Instruction → Deed
  | load n =>
    match t.get? n with
    | some v => .ofEffect [] s t f ((s.push v).map (·, t))
    | none => { told := [.nothingToLoad n], move := .print (Bytes.ascii "Not found.\n") }
  | save n =>
    match f.stream? n with
    | some stream =>
      if Utf8.isWellFormed n then { told := [.saving n], move := .save stream n }
      else saveDeed s t f n
    | none => saveDeed s t f n
  | list => { move := .print (t.ascending.flatMap fun n => n.listing.flatten) }
  | print => { move := .print (s.items.flatMap fun v => Decimal.ofInt v.toInt ++ Bytes.ascii "\n") }
  | i => .ofEffect (i.remarks s t) s t f (i.effect s t)

end Instruction

def Line.deed (s : Stack) (t : Table) (f : Files) (l : Line) : Deed :=
  match l.instruction? with
  | .error c => { move := .settle (some c) s t f }
  | .ok none => { move := .settle none s t f }
  | .ok (some i) =>
    let d := i.deed s t f
    { d with told := .executing i s.size :: d.told }

/-- What a line can come to with a table and files: no files but those that a save leaves, and no
save but to a standard output that the name leads to. -/
inductive Move.Arises (t : Table) (f : Files) : Move → Prop where
  | settle (failure? : Option Cause) (s : Stack) (t' : Table) : Arises t f (.settle failure? s t' f)
  | saved (failure? : Option Cause) (s : Stack) (n : Name) :
      Arises t f (.settle failure? s t (f.save t n).2)
  | print (text : Bytes) : Arises t f (.print text)
  | save {stream : Stream} {n : Name} : f.stream? n = some stream → Arises t f (.save stream n)

section Arises

variable {s : Stack} {t : Table} {f : Files}

theorem Deed.arises_ofEffect (told : List Event) (r : Except Cause (Stack × Table)) :
    (ofEffect told s t f r).move.Arises t f := by
  rcases r with c | ⟨s', t'⟩
  · exact .settle ..
  · exact .settle ..

theorem Instruction.arises_saveDeed (n : Name) : (saveDeed s t f n).move.Arises t f := by
  have h (failure? : Option Cause) : Move.Arises t f (.settle failure? s t (f.save t n).2) :=
    .saved ..
  unfold saveDeed
  generalize f.save t n = r at h
  rcases r with ⟨_ | count, f'⟩
  · exact h _
  · exact h _

theorem Instruction.arises_deed (i : Instruction) : (i.deed s t f).move.Arises t f := by
  cases i with
  | load n =>
    rw [deed]
    split
    · exact Deed.arises_ofEffect ..
    · exact .print _
  | save n =>
    rw [deed]
    split
    next hs =>
      split
      · exact .save hs
      · exact arises_saveDeed n
    next => exact arises_saveDeed n
  | list | print => exact .print _
  | _ => exact Deed.arises_ofEffect ..

theorem Line.arises_deed (l : Line) : (l.deed s t f).move.Arises t f := by
  unfold deed
  rcases l.instruction? with c | _ | i
  · exact .settle ..
  · exact .settle ..
  · exact i.arises_deed

end Arises

namespace Machine

variable {m : Machine}

theorem sameCore_tellAll (m : Machine) (told : List Event) : SameCore m (m.tellAll told) := by
  induction told generalizing m with
  | nil => exact .refl m
  | cons e told ih => exact (sameCore_emit m e).trans (ih (m.emit e))

theorem silent_tellAll (m : Machine) (told : List Event) : Silent m (m.tellAll told) := by
  induction told generalizing m with
  | nil => exact .refl m
  | cons e told ih => exact (silent_emit m e).trans (ih (m.emit e))

theorem act_ofEffect (told : List Event) (r : Except Cause (Stack × Table)) (m : Machine) :
    (Deed.ofEffect told m.stack m.table m.files r).act m =
      match r with
      | .ok (s, t) => .ok () { m.tellAll told with stack := s, table := t, files := m.files }
      | .error c => .error c m := by
  rcases r with c | ⟨s, t⟩ <;> rfl

theorem act_saveDeed (m : Machine) (n : Name) :
    (Instruction.saveDeed m.stack m.table m.files n).act m = saveFile n (m.emit (.saving n)) := by
  have hfiles : (m.emit (.saving n)).files.save (m.emit (.saving n)).table n =
      m.files.save m.table n := rfl
  rw [Instruction.saveDeed, saveFile, hfiles]
  rcases m.files.save m.table n with ⟨_ | count, f⟩ <;> rfl

theorem arithmetic_eq_act {f : Int32 → Int32 → Except Cause Int32} (hm : m.stack.Bounded) :
    arithmetic f m = (Deed.ofEffect [] m.stack m.table m.files
      ((m.stack.combine f).map (·, m.table))).act m := by
  rw [arithmetic_eq hm, act_ofEffect]
  cases m.stack.combine f <;> rfl

theorem pushOperand_eq_act (v : Int32) (m : Machine) :
    pushOperand v m = (Deed.ofEffect [] m.stack m.table m.files
      ((m.stack.push v).map (·, m.table))).act m := by
  rw [pushOperand, act_ofEffect]
  cases m.stack.push v <;> rfl

theorem perform_eq_act (i : Instruction) (hm : m.stack.Bounded) :
    perform i m = (i.deed m.stack m.table m.files).act m := by
  cases i with
  | push v => exact pushOperand_eq_act v m
  | pop =>
    change (popOperand >>= fun _ => pure ()) m = (Deed.ofEffect _ _ _ _ (m.stack.pop.map _)).act m
    rw [popOperand_bind, act_ofEffect]
    rcases m.stack.pop with c | ⟨v, s⟩ <;> rfl
  | add | sub | mul | div =>
    rw [perform]
    exact arithmetic_eq_act hm
  | load n =>
    rw [perform, load_eq, Instruction.deed]
    cases m.table.get? n with
    | some v => exact pushOperand_eq_act v m
    | none => rfl
  | store n =>
    change store n m =
      (Deed.ofEffect ((Instruction.store n).remarks _ _) _ _ _ (m.stack.pop.map _)).act m
    rw [store_eq, act_ofEffect, Instruction.remarks]
    rcases m.stack.pop with c | ⟨v, s⟩
    · rfl
    · dsimp only [Except.map]
      rcases m.table.insert n v with ⟨_ | previous, t⟩ <;> rfl
  | remove n =>
    change remove n m = (Deed.ofEffect ((Instruction.remove n).remarks _ _) _ _ _ (.ok _)).act m
    rw [remove_eq, act_ofEffect, Instruction.remarks]
    rcases m.table.remove n with ⟨_ | v, t⟩ <;> rfl
  | save n =>
    change Machine.save n (m.emit (.saving n)) = _
    have hstream : (m.emit (.saving n)).files.stream? n = m.files.stream? n := rfl
    rw [Machine.save, hstream, Instruction.deed]
    cases m.files.stream? n with
    | none => exact (act_saveDeed m n).symm
    | some stream =>
      dsimp only
      split
      · rfl
      · exact (act_saveDeed m n).symm
  | list =>
    have hw := Sink.forM_eq_write (f := fun n : Node => Sink.writeAll n.listing)
      (fun n => Sink.writeAll_eq_write n.listing) m.table.ascending
    rw [perform, get_bind, hw]
    rfl
  | print =>
    have hw := Sink.forM_eq_write
      (f := fun v : Int32 => Sink.writeAll [Decimal.ofInt v.toInt, Bytes.ascii "\n"])
      (g := fun v => Decimal.ofInt v.toInt ++ Bytes.ascii "\n")
      (fun v => by rw [Sink.writeAll_eq_write]; simp) m.stack.items
    rw [perform, get_bind, hw]
    rfl

/-- A line does what stack, table and files demand. -/
theorem execute_eq_act (line : Bytes) (hm : m.stack.Bounded) :
    execute line m = ((Line.ofBytes line).deed m.stack m.table m.files).act m := by
  unfold execute Line.deed
  rcases (Line.ofBytes line).instruction? with c | _ | i
  · rfl
  · rfl
  · exact perform_eq_act i (m := m.emit _) hm

end Machine

end StackCalc
