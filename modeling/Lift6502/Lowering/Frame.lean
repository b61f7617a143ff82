import Lift6502.Decoder
import Lift6502.Platform
import Lift6502.RegisterFile
import Std.Data.TreeMap

/-! Code of one block under construction. -/

namespace Lift6502

open Ssa

inductive LiftError
  | decode (error : DecodeError)
  | missingBlock (location target : Address)
  /-- Control runs past the last address. -/
  | leavesRoutine (entry location : Address)
  /-- The instruction at `location` ends inside the block at `leader`. -/
  | overlap (location leader : Address)
  | unusableOperand (location : Address)
  | defect (defect : Defect)
  | fault (fault : Fault)
  deriving DecidableEq, Repr

namespace LiftError

def message : LiftError → String
  | .decode error => error.message
  | .missingBlock location target =>
      s!"No block starts at 0x{Hex.word target} (edge from 0x{Hex.word location})"
  | .leavesRoutine entry location =>
      s!"Fallthrough from 0x{Hex.word location} leaves function f_{Hex.word entry}"
  | .overlap location leader =>
      s!"Instruction at 0x{Hex.word location} runs over the block starting at " ++
        s!"0x{Hex.word leader}"
  | .unusableOperand location => s!"Instruction at 0x{Hex.word location} has no usable operand"
  | .defect flaw => flaw.message
  | .fault misuse => misuse.message

def ofVerifyError : VerifyError → LiftError
  | .defect flaw => .defect flaw
  | .fault misuse => .fault misuse

end LiftError

/-- A block of the function at hand, and the registers it starts with. -/
structure Site where
  block : BlockId
  registers : RegisterFile
  deriving DecidableEq, Repr

abbrev Sites := Std.TreeMap Address Site

/-- A function under construction, the block that instructions are added to,
and what the registers hold at this point of it. -/
structure Frame where
  function : Function
  block : BlockId
  registers : PerRegister ValueId
  deriving DecidableEq, Repr

abbrev Lowering := StateT Frame (Except LiftError)

namespace Lowering

/-- Runs a step of construction at the block of the frame. -/
def build {α : Type} (step : BlockId → Builder α) : Lowering α :=
  fun ⟨function, block, registers⟩ =>
    match step block function with
    | .ok (result, function) => .ok (result, ⟨function, block, registers⟩)
    | .error fault => .error (.fault fault)

def getByte (register : ByteRegister) : Lowering ValueId := fun frame =>
  .ok (frame.registers.get (.byte register), frame)

def getFlag (flag : Flag) : Lowering ValueId := fun frame =>
  .ok (frame.registers.get (.flag flag), frame)

def setRegister (register : Register) (value : ValueId) : Lowering Unit := fun frame =>
  .ok ((), { frame with registers := frame.registers.set register value })

def setByte (register : ByteRegister) (value : ValueId) : Lowering Unit :=
  setRegister (.byte register) value

def setFlag (flag : Flag) (value : ValueId) : Lowering Unit :=
  setRegister (.flag flag) value

def allRegisters : Lowering (PerRegister ValueId) := fun frame =>
  .ok (frame.registers, frame)

def byte (value : Byte) : Lowering ValueId :=
  build fun _ => Builder.byte value

def word (value : Address) : Lowering ValueId :=
  build fun _ => Builder.word value

def flag (value : Bool) : Lowering ValueId :=
  build fun _ => Builder.flag value

def binary (op : BinOp) (lhs rhs : ValueId) : Lowering ValueId :=
  build fun block => Builder.binary block op lhs rhs

def compare (predicate : Predicate) (lhs rhs : ValueId) : Lowering ValueId :=
  build fun block => Builder.compare block predicate lhs rhs

def zext (value : ValueId) : Lowering ValueId :=
  build fun block => Builder.zext block value .i16

def trunc (value : ValueId) : Lowering ValueId :=
  build fun block => Builder.trunc block value .i8

def terminate (terminator : Terminator) : Lowering Unit :=
  build fun block => Builder.terminate block terminator

/-- Hands the registers on to the block at `target`. -/
def edge (sites : Sites) (location target : Address) : Lowering BlockId :=
  match sites[target]? with
  | none => throw (.missingBlock location target)
  | some site => do
      let values ← allRegisters
      build fun block => site.registers.receive values block
      return site.block

/-- Ends the block by going to the block at `target`. -/
def goTo (sites : Sites) (location target : Address) : Lowering Unit := do
  terminate (.br (← edge sites location target))

end Lowering

end Lift6502
