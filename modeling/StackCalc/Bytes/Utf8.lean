import StackCalc.Bytes

/-! # UTF-8

A decoder that reads one byte at a time. What it cannot decode it replaces: a well-formed sequence
that is cut short becomes one U+FFFD, and so does every byte that can neither begin nor continue a
sequence. Text is well formed when nothing had to be replaced.
-/

namespace StackCalc.Utf8

/-- The bytes allowed at one place of a sequence. -/
structure Range where
  low : UInt8
  high : UInt8
  deriving DecidableEq, Repr

def Range.contains (r : Range) (b : UInt8) : Bool :=
  decide (r.low ≤ b) && decide (b ≤ r.high)

def continuation : Range := ⟨0x80, 0xBF⟩

/-- What has to follow the first byte of a sequence; `none` if no sequence begins with it. The
narrower second ranges leave out overlong forms, surrogates and values past U+10FFFF. -/
def followers (b : UInt8) : Option (List Range) :=
  if b < 0x80 then some []
  else if b < 0xC2 then none
  else if b < 0xE0 then some [continuation]
  else if b = 0xE0 then some [⟨0xA0, 0xBF⟩, continuation]
  else if b = 0xED then some [⟨0x80, 0x9F⟩, continuation]
  else if b < 0xF0 then some [continuation, continuation]
  else if b = 0xF0 then some [⟨0x90, 0xBF⟩, continuation, continuation]
  else if b < 0xF4 then some [continuation, continuation, continuation]
  else if b = 0xF4 then some [⟨0x80, 0x8F⟩, continuation, continuation]
  else none

def replacement : Bytes := [0xEF, 0xBF, 0xBD]

structure Decoder where
  /-- The text decoded so far. -/
  text : Array UInt8 := #[]
  /-- Nothing has been replaced so far. -/
  sound : Bool := true
  /-- The bytes of the sequence that has begun, and what it still awaits. -/
  seen : Bytes := []
  awaited : List Range := []

namespace Decoder

def replace (d : Decoder) : Decoder :=
  { text := d.text ++ replacement, sound := false }

def lead (d : Decoder) (b : UInt8) : Decoder :=
  match followers b with
  | none => d.replace
  | some [] => { d with text := d.text.push b }
  | some awaited => { d with seen := [b], awaited }

def feed (d : Decoder) (b : UInt8) : Decoder :=
  match d.awaited with
  | [] => d.lead b
  | r :: rest =>
    if r.contains b then
      match rest with
      | [] => { d with text := d.text ++ (d.seen ++ [b]), seen := [], awaited := [] }
      | awaited => { d with seen := d.seen ++ [b], awaited }
    else d.replace.lead b

def close (d : Decoder) : Decoder :=
  if d.awaited.isEmpty then d else d.replace

end Decoder

def decode (s : Bytes) : Decoder := (s.foldl Decoder.feed {}).close

/-- The text of `s`, with whatever is not well formed replaced. -/
def lossy (s : Bytes) : Bytes := (decode s).text.toList

def isWellFormed (s : Bytes) : Bool := (decode s).sound

/-- The sequences of a well-formed text, one for every character. -/
def characters (s : Bytes) : List Bytes :=
  s.splitBy fun _ b => continuation.contains b

/-- What the first byte of a sequence contributes to its code point. -/
def leadValue (b : UInt8) : Nat :=
  if b < 0x80 then b.toNat
  else if b < 0xE0 then b.toNat % 32
  else if b < 0xF0 then b.toNat % 16
  else b.toNat % 8

/-- The code point of a well-formed sequence: every byte after the first adds six bits. -/
def codePoint : Bytes → Nat
  | [] => 0
  | b :: rest => rest.foldl (fun n c => n * 64 + c.toNat % 64) (leadValue b)

end StackCalc.Utf8
