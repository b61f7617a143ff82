import Lift6502.Text.Hex
import Lift6502.Text.Lines
import Lift6502.Text.Plain
import Lift6502.AddressSpace
import Lift6502.Cartridge
import Lift6502.Register
import Lift6502.Instruction.Mnemonic
import Lift6502.Instruction.Operand
import Lift6502.Instruction.Encoding
import Lift6502.Instruction.Basic
import Lift6502.Journal
import Lift6502.Decoder
import Lift6502.Routine
import Lift6502.Host
import Lift6502.Machine
import Lift6502.Ssa.Arithmetic
import Lift6502.Ssa.Function
import Lift6502.Ssa.Builder
import Lift6502.Ssa.Module
import Lift6502.Ssa.Printer
import Lift6502.Ssa.Evaluation
import Lift6502.Platform
import Lift6502.Binding
import Lift6502.RegisterFile
import Lift6502.Lowering.Frame
import Lift6502.Lowering.Instruction
import Lift6502.Lowering.Routine
import Lift6502.Program
import Lift6502.Conversion
import Lift6502.Files
import Lift6502.CommandLine.Invocation
import Lift6502.CommandLine.EntryAddress
import Lift6502.CommandLine.Arguments
import Lift6502.CommandLine.Run
import Lift6502.Main
import Lift6502.Proofs.General
import Lift6502.Proofs.Cartridge
import Lift6502.Proofs.Session
import Lift6502.Proofs.Decoding
import Lift6502.Proofs.ControlFlow
import Lift6502.Proofs.Machine
import Lift6502.Proofs.Reads
import Lift6502.Proofs.Disassembly
import Lift6502.Proofs.Ssa.Segment
import Lift6502.Proofs.Ssa.Construction
import Lift6502.Proofs.Ssa.Arrangement
import Lift6502.Proofs.Ssa.Arithmetic
import Lift6502.Proofs.Ssa.Typing
import Lift6502.Proofs.Ssa.Denotation
import Lift6502.Proofs.Ssa.Folding
import Lift6502.Proofs.Ssa.Edges
import Lift6502.Proofs.Ssa.Validity
import Lift6502.Proofs.Ssa.Tokens
import Lift6502.Proofs.Ssa.Spelling
import Lift6502.Proofs.Lowering.Tracking
import Lift6502.Proofs.Lowering.Words
import Lift6502.Proofs.Lowering.Knowledge
import Lift6502.Proofs.Lowering.Operations
import Lift6502.Proofs.Lowering.Accesses
import Lift6502.Proofs.Lowering.Sums
import Lift6502.Proofs.Lowering.Instructions
import Lift6502.Proofs.Lowering.Calls
import Lift6502.Proofs.Lowering.Constants
import Lift6502.Proofs.Lowering.Stretches
import Lift6502.Proofs.Lowering.Symbols
import Lift6502.Proofs.Lowering.Counterparts
import Lift6502.Proofs.Lowering.Platforms
import Lift6502.Proofs.Routine.Draft
import Lift6502.Proofs.Routine.Layout
import Lift6502.Proofs.Routine.Blocks
import Lift6502.Proofs.Routine.Sweeps
import Lift6502.Proofs.Reachability
import Lift6502.Proofs.Routine.Boundaries
import Lift6502.Proofs.Routine.Lifting
import Lift6502.Proofs.Routine.Assembly
import Lift6502.Proofs.Routine.Verification
import Lift6502.Proofs.Routine.Outcome
import Lift6502.Proofs.Routine.Overlaps
import Lift6502.Proofs.Routine.SingleAssignment
import Lift6502.Proofs.Routine.Execution
import Lift6502.Proofs.Routine.Partition
import Lift6502.Proofs.Routine.Termination
import Lift6502.Proofs.Routine.Steps
import Lift6502.Proofs.Routine.Flow
import Lift6502.Proofs.Routine.Listing
import Lift6502.Proofs.Routine.Platforms
import Lift6502.Proofs.Program.Lifting
import Lift6502.Proofs.Program.Typing
import Lift6502.Proofs.Program.Routines
import Lift6502.Proofs.Program.Preservation
import Lift6502.Proofs.Program.HostAccess
import Lift6502.Proofs.Program.Closure
import Lift6502.Proofs.Program.Comparison
import Lift6502.Proofs.Program.Policies
import Lift6502.Proofs.Program.CodeBytes
import Lift6502.Proofs.Program.UnmappedReads
import Lift6502.Proofs.Program.Reading
import Lift6502.Proofs.Program.Texts
import Lift6502.Proofs.Ssa.Defects
import Lift6502.Proofs.EntryAddress
import Lift6502.Proofs.Files
import Lift6502.Proofs.CommandLine
