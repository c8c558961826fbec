/-! # Byte strings

Instruction text, names, output and messages are byte strings: a name may hold any byte, whether
or not it makes sense as text. The fields of a line are its maximal runs of bytes other than
separators.
-/

namespace StackCalc

abbrev Bytes := List UInt8

namespace Bytes

def ascii (s : String) : Bytes := s.toList.map Char.toUInt8

def newline : UInt8 := 10

/-- Space, tab, carriage return and line feed separate the fields of a line. -/
def isSeparator (b : UInt8) : Bool :=
  b == 32 || b == 9 || b == 13 || b == newline

def fields (s : Bytes) : List Bytes :=
  (s.splitOnP isSeparator).filter (!·.isEmpty)

/-- The fields from left to right, as far as the `most`-th. What comes after it is left alone. -/
def firstFields (s : Bytes) (most : Nat) : List Bytes := (fields s).take most

def join (sep : Bytes) (parts : List Bytes) : Bytes :=
  (parts.intersperse sep).flatten

theorem fields_nil : fields [] = [] := by
  simp [fields]

theorem fields_separator_cons {b : UInt8} (hb : isSeparator b = true) (s : Bytes) :
    fields (b :: s) = fields s := by
  simp [fields, List.splitOnP_cons_eq_if_modifyHead, hb]

end Bytes

end StackCalc
