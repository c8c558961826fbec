import StackCalc.Entries
import StackCalc.Sink
import StackCalc.Source

/-! # The file tree

Files, directories and devices by their place, with a working directory that relative paths start
from. A path is walked one component at a time, and each needs a directory to be looked up in. What
is outside the working directory is the least that a system has, and nothing there leads back into
it: its own name is one that no path can spell.
-/

namespace StackCalc

inductive Stream where
  | output
  | errors
  deriving DecidableEq, Repr

/-- How a file refuses to be opened, if it does. -/
structure Access where
  reading : Option Fault := none
  writing : Option Fault := none
  deriving DecidableEq, Repr

inductive Entry where
  | directory
  /-- A directory that nothing can be made in, and how it refuses. -/
  | closed (refusal : SystemError)
  /-- Stands for what is at another place. -/
  | link (target : Path)
  | file (contents : Bytes) (access : Access := {})
  /-- Reads as empty and takes everything. -/
  | null
  /-- Reads without end, always as zeros here, and takes everything. -/
  | zeros
  /-- Reads as zeros without end and has no room. -/
  | full
  /-- The standard input. What is written to it comes after what it still has to give. -/
  | standardInput
  | standardOutput (stream : Stream)
  deriving DecidableEq, Repr

def Entry.isDirectory : Entry → Bool
  | directory | closed _ => true
  | _ => false

structure Disk where
  entries : List (Path × Entry)
  home : Path
  /-- What the standard input still has to give. -/
  incoming : Bytes := []
  deriving Repr

namespace Disk

open Bytes (ascii)

def find? (d : Disk) (p : Path) : Option Entry := d.entries.lookup p

def put (d : Disk) (p : Path) (e : Entry) : Disk :=
  { d with entries := Entries.put d.entries p e }

def rootDirectories : List Bytes :=
  [ascii "bin", ascii "boot", ascii "dev", ascii "etc", ascii "home", ascii "lib", ascii "media",
    ascii "mnt", ascii "opt", ascii "root", ascii "run", ascii "sbin", ascii "srv", ascii "tmp",
    ascii "usr", ascii "var"]

/-- The working directory. The components of a path are not empty, so none is its name. -/
def workplace : Path := [ascii "tmp", []]

/-- Where a program finds what it has opened, by number. -/
def descriptors : Path := [ascii "proc", ascii "self", ascii "fd"]

/-- The directories that show the state of the system and of the program. -/
def views : List (Path × Entry) :=
  [([ascii "sys"], .closed .permissionDenied), ([ascii "proc"], .closed .noSuchFile),
    ([ascii "proc", ascii "self"], .closed .noSuchFile),
    ([ascii "proc", ascii "self", ascii "root"], .link []),
    ([ascii "proc", ascii "self", ascii "cwd"], .link workplace),
    (descriptors, .closed .noSuchFile)]

def devices : List (Path × Entry) :=
  [([ascii "dev", ascii "null"], .null), ([ascii "dev", ascii "zero"], .zeros),
    ([ascii "dev", ascii "random"], .zeros), ([ascii "dev", ascii "urandom"], .zeros),
    ([ascii "dev", ascii "full"], .full), ([ascii "dev", ascii "shm"], .directory),
    ([ascii "dev", ascii "pts"], .closed .permissionDenied),
    ([ascii "dev", ascii "fd"], .link descriptors)]

/-- The places of the standard input and outputs. -/
def streams : List (Path × Entry) :=
  [(descriptors ++ [ascii "0"], .standardInput),
    (descriptors ++ [ascii "1"], .standardOutput .output),
    (descriptors ++ [ascii "2"], .standardOutput .errors),
    ([ascii "dev", ascii "stdin"], .link (descriptors ++ [ascii "0"])),
    ([ascii "dev", ascii "stdout"], .link (descriptors ++ [ascii "1"])),
    ([ascii "dev", ascii "stderr"], .link (descriptors ++ [ascii "2"]))]

def empty : Disk where
  entries := ([], .directory) :: (workplace, .directory) ::
    rootDirectories.map (fun name => ([name], .directory)) ++ devices ++ views
  home := workplace

def withStreams (d : Disk) (input : Bytes) : Disk :=
  { d with entries := streams ++ d.entries, incoming := input }

def requireDirectory (d : Disk) (p : Path) : Except Fault Unit :=
  if (d.find? p).any Entry.isDirectory then .ok () else .error (.system .notADirectory)

/-- Why a name cannot be looked up in the directory `p`: a closed one knows its names, whatever
their length. -/
def missing (d : Disk) (p : Path) (name : Bytes) : SystemError :=
  if Path.longestName < name.length && d.find? p = some .directory then .nameTooLong
  else .noSuchFile

/-- How many links may lead to each other. -/
def mostLinks : Nat := 40

/-- Looks up one component below `p`. A link is followed from the root, through at most `left`
others. -/
def descend (d : Disk) : (left : Nat) → Path → Bytes → Except Fault Path
  | left, p, name => do
    d.requireDirectory p
    match d.find? (Path.follow p name), left with
    | none, _ => throw (.system (d.missing p name))
    | some (.link _), 0 => throw (.system .tooManyLinks)
    | some (.link target), left + 1 => target.foldlM (d.descend left) []
    | some _, _ => return Path.follow p name

/-- Where the components lead from the directory `p`. -/
def walk (d : Disk) (p : Path) (names : List Bytes) : Except Fault Path :=
  names.foldlM (d.descend mostLinks) p

/-- Where a new name can be made in the directory `p`. -/
def allow (d : Disk) (p : Path) (name : Bytes) : Except Fault Path :=
  match d.find? p with
  | some (.closed refusal) => .error (.system refusal)
  | _ =>
    if Path.longestName < name.length then .error (.system .nameTooLong) else .ok (p ++ [name])

/-- The directory that a path starts from, once the path itself has been found admissible. -/
def start (d : Disk) (path : Bytes) : Except Fault Path :=
  if path.contains 0 then .error .nulInPath
  else if path.isEmpty then .error (.system .noSuchFile)
  else if Path.longestText < path.length then .error (.system .nameTooLong)
  else .ok (if Path.isAbsolute path then [] else d.home)

def locate (d : Disk) (path : Bytes) : Except Fault Path := do
  let p ← d.walk (← d.start path) (Path.components path)
  if Path.endsInSlash path then d.requireDirectory p
  return p

/-- Where the name in the directory `p` leads if it is to be written to, whether or not there is a
file yet. -/
def target (d : Disk) : (left : Nat) → Path → Bytes → Except Fault Path
  | left, p, name => do
    d.requireDirectory p
    match d.find? (p ++ [name]), left with
    | none, _ => d.allow p name
    | some (.link _), 0 => throw (.system .tooManyLinks)
    | some (.link place), left + 1 =>
      match place.getLast? with
      | none => throw (.system .isADirectory)
      | some last => d.target left (← d.walk [] place.dropLast) last
    | some e, _ => if e.isDirectory then throw (.system .isADirectory) else return p ++ [name]

/-- Where a path leads that is to be written to. -/
def locateNew (d : Disk) (path : Bytes) : Except Fault Path := do
  let names := Path.components path
  let p ← d.walk (← d.start path) names.dropLast
  match names.getLast? with
  | none => throw (.system .isADirectory)
  | some name =>
    d.requireDirectory p
    if Path.isDots name || Path.endsInSlash path then throw (.system .isADirectory)
    d.target mostLinks p name

/-- Opens a path for reading. A directory can be opened, and fails when it is read. -/
def openSource (d : Disk) (path : Bytes) : Except Fault Source := do
  let p ← d.locate path
  match d.find? p with
  | none | some (.link _) => throw (.system .noSuchFile)
  | some (.file _ { reading := some refusal, .. }) => throw refusal
  | some (.file ..) => return { supply := .file p }
  | some .zeros | some .full => return { supply := .zeros }
  | some .standardInput => return { supply := .standardInput }
  | some .null | some (.standardOutput _) => return {}
  | some .directory | some (.closed _) =>
    return { cut := some ⟨0, .system .isADirectory⟩ }

/-- Opens a path for writing: a file starts out empty, whatever it held before. -/
def create (d : Disk) (path : Bytes) : Except Fault (Sink × Disk) := do
  let p ← d.locateNew path
  match d.find? p with
  | none => return ({}, d.put p (.file []))
  | some (.file _ { writing := some refusal, .. }) => throw refusal
  | some (.file _ access) => return ({}, d.put p (.file [] access))
  | some .full => return ({ room := some 0, full := .system .noSpaceLeft }, d)
  | some _ => return ({}, d)

/-- Lets the file at a path that was opened for writing hold `contents`. -/
def fill (d : Disk) (path contents : Bytes) : Disk :=
  match d.locate path with
  | .error _ => d
  | .ok p =>
    match d.find? p with
    | some (.file _ access) => d.put p (.file contents access)
    | some .standardInput => { d with incoming := d.incoming ++ contents }
    | _ => d

/-- The standard output that a path leads to. -/
def stream? (d : Disk) (path : Bytes) : Option Stream :=
  match d.locateNew path with
  | .error _ => none
  | .ok p =>
    match d.find? p with
    | some (.standardOutput s) => some s
    | _ => none

/-- Makes the directories that `names` lead through from `p`, and says where they end. -/
def makeDirectories (d : Disk) (p : Path) (names : List Bytes) : Disk × Path :=
  names.foldl (fun (d, p) name => (d.put (Path.follow p name) .directory, Path.follow p name)) (d, p)

/-- Puts an entry at a path, and makes the directories on the way to it. -/
def place (d : Disk) (path : Bytes) (e : Entry) : Disk :=
  let names := Path.components path
  let (d, p) := d.makeDirectories (if Path.isAbsolute path then [] else d.home) names.dropLast
  match names.getLast? with
  | none => d
  | some name => d.put (Path.follow p name) e

/-- Every file below the working directory, by its path from there, in byte order. -/
def listing (d : Disk) : List (Bytes × Bytes) :=
  let files := d.entries.filterMap fun
    | (p, .file contents _) =>
      if d.home.isPrefixOf p then
        some (Bytes.join [Path.slash] (p.drop d.home.length), contents)
      else none
    | _ => none
  files.mergeSort fun a b => (compare a.1 b.1).isLE

end Disk

end StackCalc
