import StackCalc.Bytes

/-! # Opcodes

The twelve words an instruction can begin with, and how many arguments each takes.
-/

namespace StackCalc

inductive Opcode where
  | add | sub | mul | div
  | push | pop
  | load | store | remove | save
  | list | print
  deriving DecidableEq, Repr

namespace Opcode

open Bytes (ascii)

def word : Opcode → Bytes
  | add => ascii "+"
  | sub => ascii "-"
  | mul => ascii "*"
  | div => ascii "/"
  | push => ascii "push"
  | pop => ascii "pop"
  | load => ascii "load"
  | store => ascii "store"
  | remove => ascii "remove"
  | save => ascii "save"
  | list => ascii "list"
  | print => ascii "print"

def arity : Opcode → Nat
  | push | load | store | remove | save => 1
  | add | sub | mul | div | pop | list | print => 0

/-- The words as they are read. -/
def words : List (Bytes × Opcode) :=
  [(ascii "+", add), (ascii "-", sub), (ascii "*", mul), (ascii "/", div),
    (ascii "push", push), (ascii "pop", pop),
    (ascii "load", load), (ascii "store", store), (ascii "remove", remove), (ascii "save", save),
    (ascii "list", list), (ascii "print", print)]

def ofWord? (w : Bytes) : Option Opcode := words.lookup w

def all : List Opcode :=
  [add, sub, mul, div, push, pop, load, store, remove, save, list, print]

/-- A word is read as the opcode that is written so. -/
theorem ofWord?_eq_find? (w : Bytes) : ofWord? w = all.find? (·.word == w) := by
  have hwords : words = all.map fun op => (op.word, op) := rfl
  rw [ofWord?, hwords, List.lookup_eq_findSome?, List.findSome?_map,
    List.find?_eq_findSome?_guard]
  congr 1
  funext op
  simp [Option.guard, Bool.beq_comm (a := w)]

theorem ofWord?_word (op : Opcode) : ofWord? op.word = some op := by
  cases op <;> decide

theorem ofWord?_eq_some_iff {w : Bytes} {op : Opcode} : ofWord? w = some op ↔ w = op.word := by
  constructor
  · intro h
    rw [ofWord?_eq_find?] at h
    have := List.find?_some h
    exact (eq_of_beq this).symm
  · rintro rfl
    exact ofWord?_word op

end Opcode

end StackCalc
