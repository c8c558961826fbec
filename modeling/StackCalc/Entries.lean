/-! # Entries by key

Lists of keys with what stands under them, one entry for a key.
-/

namespace StackCalc.Entries

variable {α β : Type} [BEq α] [LawfulBEq α]

/-- Lets `b` stand under `a`, in place of what stood there. -/
def put (l : List (α × β)) (a : α) (b : β) : List (α × β) :=
  (a, b) :: l.filter (·.1 != a)

theorem lookup_put_self (l : List (α × β)) (a : α) (b : β) :
    (put l a b).lookup a = some b := by
  simp [put]

theorem lookup_put_of_ne (l : List (α × β)) {a c : α} (b : β) (h : c ≠ a) :
    (put l a b).lookup c = l.lookup c := by
  have hl : (l.filter (·.1 != a)).lookup c = l.lookup c := by
    induction l with
    | nil => rfl
    | cons e l ih =>
      by_cases he : e.1 = a
      · rw [List.filter_cons_of_neg (by simp [he]), ih, List.lookup_cons, beq_false_of_ne (he ▸ h)]
      · rw [List.filter_cons_of_pos (by simpa using he), List.lookup_cons, List.lookup_cons, ih]
  rw [put, List.lookup_cons, beq_false_of_ne h, hl]

end StackCalc.Entries
