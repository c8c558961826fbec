import StackCalc.Fault

/-! # Sinks

Where bytes are written to. A sink may have room for a certain number of bytes only: it takes the
part of a write that fits and fails on the rest. A write of nothing never fails.
-/

namespace StackCalc

structure Sink where
  written : Array UInt8 := #[]
  /-- How many more bytes it takes; without a bound if `none`. -/
  room : Option Nat := none
  /-- What a write meets that does not fit. -/
  full : Fault := .system .noSpaceLeft
  /-- What a flush meets, if it fails. -/
  flushFault : Option Fault := none
  deriving DecidableEq, Repr

/-- Writing to a sink: what was written before a fault stays written. -/
abbrev Writing := EStateM Fault Sink

namespace Sink

def bytes (k : Sink) : Bytes := k.written.toList

def write (s : Bytes) : Writing Unit := fun k =>
  match k.room with
  | none => .ok () { k with written := k.written ++ s }
  | some n =>
    let k' := { k with written := k.written ++ s.take n, room := some (n - s.length) }
    if s.length ≤ n then .ok () k' else .error k.full k'

def writeAll (pieces : List Bytes) : Writing Unit := pieces.forM write

def flush : Writing Unit := fun k =>
  match k.flushFault with
  | none => .ok () k
  | some f => .error f k

/-- What becomes of the sink, whether or not the writing fails. -/
def after (k : Sink) (w : Writing Unit) : Sink :=
  match w k with
  | .ok _ k' => k'
  | .error _ k' => k'

theorem bytes_after_write (k : Sink) (s : Bytes) :
    (k.after (write s)).bytes = k.bytes ++ s.take (k.room.getD s.length) := by
  cases hk : k.room with
  | none => simp [after, write, bytes, hk]
  | some n => by_cases h : s.length ≤ n <;> simp [after, write, bytes, hk, h]

theorem write_nil : write [] = pure () := by
  funext ⟨written, room, full, flushFault⟩
  cases room <;> simp [write, pure, EStateM.pure]

/-- Where a write is split makes no difference, not even to where it is cut. -/
theorem write_append (s s' : Bytes) : (do write s; write s') = write (s ++ s') := by
  funext ⟨written, room, full, flushFault⟩
  change EStateM.bind (write s) (fun _ => write s') _ = _
  have happend (u : Bytes) : written ++ s ++ u = written ++ (s ++ u) := by
    apply Array.ext'
    simp
  cases room with
  | none => simp [EStateM.bind, write, happend]
  | some n =>
    by_cases hs : s.length ≤ n
    · have hfits : s'.length ≤ n - s.length ↔ s.length + s'.length ≤ n := by omega
      simp [EStateM.bind, write, hs, hfits, List.take_append, List.take_of_length_le hs,
        Nat.sub_sub, happend]
    · have hcut : ¬ s.length + s'.length ≤ n := by omega
      have hroom : n - s.length = 0 := by omega
      simp [EStateM.bind, write, hs, hcut, hroom, List.take_append, ← Nat.sub_sub]

theorem forM_eq_write {α : Type} {f : α → Writing Unit} {g : α → Bytes}
    (h : ∀ a, f a = write (g a)) (as : List α) : as.forM f = write (as.flatMap g) := by
  induction as with
  | nil => exact write_nil.symm
  | cons a as ih =>
    change (do f a; as.forM f) = _
    rw [h, ih, write_append, List.flatMap_cons]

theorem writeAll_eq_write (pieces : List Bytes) : writeAll pieces = write pieces.flatten := by
  have h := forM_eq_write (f := write) (fun _ => rfl) pieces
  rwa [List.flatMap_id'] at h

end Sink

end StackCalc
