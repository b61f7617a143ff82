import Lift6502.Machine
import Lift6502.Platform
import Lift6502.Ssa.Evaluation

/-! How lifted code is run on a host: registers as arguments and results, and
the globals and imports of each platform. -/

namespace Lift6502

open Ssa

namespace Registers

def words (registers : Registers) : PerRegister UInt16 where
  a := registers.a.toUInt16
  x := registers.x.toUInt16
  y := registers.y.toUInt16
  n := registers.n.toUInt16
  v := registers.v.toUInt16
  z := registers.z.toUInt16
  c := registers.c.toUInt16

def args (registers : Registers) : List Datum :=
  registers.words.toList.map .word

def datum (registers : Registers) : Datum :=
  .regs registers.words

end Registers

namespace Platform

variable {σ : Type}

/-- The environment in which lifted code acts on a host. -/
def bind (platform : Platform) (host : Host σ) : Environment σ :=
  match platform with
  | .flat => {
      load := fun global index state =>
        if global = ram then
          let (value, state) := host.read index state
          some (value.toUInt16, state)
        else
          none
      store := fun global index value state =>
        if global = ram then some (host.write index value.toUInt8 state) else none
      call := fun _ _ _ => none }
  | .nes => {
      load := fun _ _ _ => none
      store := fun _ _ _ _ => none
      call := fun callee args state =>
        match args with
        | [.word index] =>
            if callee = hostRead then
              let (value, state) := host.read index state
              some (.word value.toUInt16, state)
            else
              none
        | [.word index, .word value] =>
            if callee = hostWrite then
              some (.unit, host.write index value.toUInt8 state)
            else
              none
        | _ => none }

/-- A host on which all mirrors of an address are one byte. -/
structure Mirrored (host : Host σ) : Prop where
  read : ∀ address state, host.read (canonical address) state = host.read address state
  write : ∀ address value state,
    host.write (canonical address) value state = host.write address value state

end Platform

end Lift6502
