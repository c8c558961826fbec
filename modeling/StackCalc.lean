import StackCalc.CommandLine
import StackCalc.Main
import StackCalc.Table.View
import StackCalc.Proofs.Table.Placement
import StackCalc.Proofs.Table.Layout
import StackCalc.Proofs.Table.Operations
import StackCalc.Proofs.Table.Walks
import StackCalc.Proofs.Table.Integrity
import StackCalc.Proofs.Table.Dictionary
import StackCalc.Proofs.Machine.Effect
import StackCalc.Proofs.Machine.Reachable
import StackCalc.Proofs.Instruction.Text
import StackCalc.Proofs.Instruction.Grammar
import StackCalc.Proofs.Instruction.Canonical
import StackCalc.Proofs.Tree.Rebuild
import StackCalc.Proofs.Machine.Lines
import StackCalc.Proofs.Machine.Stopping
import StackCalc.Proofs.Machine.Surroundings
import StackCalc.Proofs.Machine.Replay
import StackCalc.Proofs.Machine.Calculator
import StackCalc.Proofs.Machine.Upkeep
import StackCalc.Proofs.Table.Shape
import StackCalc.Proofs.Table.Rebuild
import StackCalc.Proofs.Machine.Resume
import StackCalc.Proofs.Machine.Detached
import StackCalc.Proofs.Session.Course
import StackCalc.Proofs.Tree.Growth
import StackCalc.Proofs.Machine.Overlay
import StackCalc.Proofs.Machine.Saving
import StackCalc.Proofs.Machine.Interrupted
import StackCalc.Proofs.Table.Traversal
import StackCalc.Proofs.Utf8.Sequence
import StackCalc.Proofs.Utf8.Lossy
import StackCalc.Proofs.Utf8.Shown
import StackCalc.Proofs.Utf8.WellFormed
import StackCalc.Proofs.Machine.Deed
import StackCalc.Proofs.Machine.Succession
import StackCalc.Proofs.Machine.Cutoff
import StackCalc.Proofs.Table.Occupancy
import StackCalc.Proofs.Instruction.Joining
