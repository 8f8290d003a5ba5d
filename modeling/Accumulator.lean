import Accumulator.Main
import Accumulator.Proofs.Bytecode
import Accumulator.Proofs.Numerals
import Accumulator.Proofs.Text.Lines
import Accumulator.Proofs.Text.Words
import Accumulator.Proofs.Grammar
import Accumulator.Proofs.Compilation
import Accumulator.Proofs.Listing
import Accumulator.Proofs.Text.Runs
import Accumulator.Proofs.Diagnostics
import Accumulator.Proofs.Gathering
import Accumulator.Proofs.Faults
import Accumulator.Proofs.History
import Accumulator.Proofs.Cutting
import Accumulator.FileSystem
import Accumulator.Proofs.Jobs
import Accumulator.Proofs.CommandLine
import Accumulator.Proofs.Reports
import Accumulator.Proofs.Joining
import Accumulator.Proofs.Layout
import Accumulator.Proofs.Exactness
import Accumulator.Proofs.Replay
import Accumulator.Proofs.Completion
import Accumulator.Proofs.Cells
import Accumulator.Proofs.Liveness
import Accumulator.Proofs.Fragments
import Accumulator.Proofs.LargerMemory
import Accumulator.Proofs.Provenance
import Accumulator.Proofs.Windows
import Accumulator.Proofs.Text.Tables
import Accumulator.Proofs.Display
import Accumulator.Proofs.Comparison
