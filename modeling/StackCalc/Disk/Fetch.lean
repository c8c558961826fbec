import StackCalc.Disk

/-! # Fetching input

A source is supplied in whole blocks, and only when the bytes it holds are not enough for a line.
So what is read is what a file holds at that time: a file that is written to while it is being read
goes on from the same offset with its new contents, once the bytes fetched before have been read.
-/

namespace StackCalc.Disk

def blockSize : Nat := 8192

/-- The bytes in as many blocks as it takes to have `n`. -/
def wholeBlocks (n : Nat) : Nat := (n + blockSize - 1) / blockSize * blockSize

def contents (d : Disk) (p : Path) : Bytes :=
  match d.find? p with
  | some (.file s _) => s
  | _ => []

/-- The bytes that a source could fetch now, for a line of at most `limit` bytes. -/
def pending (d : Disk) (limit : Nat) (r : Source) : Bytes :=
  match r.supply with
  | .nothing => []
  | .file p => (d.contents p).drop (r.consumed + r.rest.length)
  | .standardInput => d.incoming
  | .zeros => List.replicate limit 0

/-- Supplies a source with its next line, or with `limit` bytes of it, or with all there is. -/
def fetch (d : Disk) (limit : Nat) (r : Source) : Source × Disk :=
  if r.supply = .nothing || Source.holdsLine limit r.rest then (r, d)
  else
    let more := d.pending limit r
    let n := wholeBlocks (Source.lineReach limit (r.rest ++ more) - r.rest.length)
    ({ r with rest := r.rest ++ more.take n },
      if r.supply = .standardInput then { d with incoming := more.drop n } else d)

theorem fetch_of_supply_eq_nothing (d : Disk) (limit : Nat) {r : Source}
    (h : r.supply = .nothing) : d.fetch limit r = (r, d) := by
  simp [fetch, h]

end StackCalc.Disk
