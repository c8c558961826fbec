import StackCalc.Bytes.Utf8
import StackCalc.Bytes.Visible

/-! # Quoted text

Text between double quotes. Some characters have a letter that stands for them after a backslash;
any other that does not show by itself is written as its code point.
-/

namespace StackCalc.Quoted

open Bytes (ascii)

/-- The letter that stands for a code point: NUL, tab, line feed, carriage return, the quote and
the backslash have one. -/
def letter? : Nat → Option UInt8
  | 0 => some 48
  | 9 => some 116
  | 10 => some 110
  | 13 => some 114
  | 34 => some 34
  | 92 => some 92
  | _ => none

def number (c : Nat) : Bytes :=
  ascii "\\u\x7b" ++ (Nat.toDigits 16 c).map Char.toUInt8 ++ ascii "\x7d"

/-- A character of quoted text. -/
def escape (s : Bytes) : Bytes :=
  let c := Utf8.codePoint s
  match letter? c with
  | some l => ascii "\\" ++ [l]
  | none => if CodePoint.isVisible c then s else number c

def quote (s : Bytes) : Bytes :=
  ascii "\"" ++ (Utf8.characters s).flatMap escape ++ ascii "\""

end StackCalc.Quoted
