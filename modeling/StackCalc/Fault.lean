import StackCalc.Bytes.Decimal

/-! # Faults

What goes wrong outside the machine: a file that cannot be opened, a device without room, a reader
or writer that gives up.
-/

namespace StackCalc

inductive SystemError where
  | noSuchFile
  | permissionDenied
  | notADirectory
  | isADirectory
  | noSpaceLeft
  | nameTooLong
  | tooManyLinks
  deriving DecidableEq, Repr

namespace SystemError

open Bytes (ascii)

def number : SystemError → Nat
  | noSuchFile => 2
  | permissionDenied => 13
  | notADirectory => 20
  | isADirectory => 21
  | noSpaceLeft => 28
  | nameTooLong => 36
  | tooManyLinks => 40

def phrase : SystemError → Bytes
  | noSuchFile => ascii "No such file or directory"
  | permissionDenied => ascii "Permission denied"
  | notADirectory => ascii "Not a directory"
  | isADirectory => ascii "Is a directory"
  | noSpaceLeft => ascii "No space left on device"
  | nameTooLong => ascii "File name too long"
  | tooManyLinks => ascii "Too many levels of symbolic links"

end SystemError

inductive Fault where
  | system (error : SystemError)
  | nulInPath
  /-- A refusal in words of its own. -/
  | refused (reason : Bytes)
  deriving DecidableEq, Repr

namespace Fault

open Bytes (ascii)

def text : Fault → Bytes
  | system e => e.phrase ++ ascii " (os error " ++ Decimal.ofNat e.number ++ ascii ")"
  | nulInPath => ascii "file name contained an unexpected NUL byte"
  | refused reason => reason

end Fault

end StackCalc
