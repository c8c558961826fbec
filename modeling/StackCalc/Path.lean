import StackCalc.Bytes

/-! # Paths

The text of a path names components between slashes. Followed from a directory they lead to a
place: `.` stays there and `..` goes back to its parent.
-/

namespace StackCalc

/-- A place in the file tree: the names from the root down. -/
abbrev Path := List Bytes

namespace Path

open Bytes (ascii)

def slash : UInt8 := 47

def components (text : Bytes) : List Bytes :=
  (text.splitOnP (· == slash)).filter (!·.isEmpty)

def isAbsolute (text : Bytes) : Bool := text.head? == some slash

def endsInSlash (text : Bytes) : Bool := text.getLast? == some slash

def longestText : Nat := 4095

def longestName : Nat := 255

/-- Whether a component is one of the two that lead to a directory already known. -/
def isDots (name : Bytes) : Bool := name == ascii "." || name == ascii ".."

/-- Where one component leads from the directory `p`. -/
def follow (p : Path) (name : Bytes) : Path :=
  if name = ascii "." then p
  else if name = ascii ".." then p.dropLast
  else p ++ [name]

end Path

end StackCalc
