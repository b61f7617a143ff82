import Lift6502.AddressSpace
import Lift6502.Text.Hex
import Lift6502.Ssa.Builder

/-! The registers of a block: a phi for each, and the values they hold now. -/

namespace Lift6502

open Ssa

def Register.type (register : Register) : Ty :=
  if register.isFlag then .i1 else .i8

structure RegisterFile where
  phis : PerRegister ValueId
  values : PerRegister ValueId
  deriving DecidableEq, Repr

namespace RegisterFile

def phiName (register : Register) (address : Address) : String :=
  s!"{register.name}_{Hex.word address}"

/-- Gives a block one phi for each register. Each register holds its phi. -/
def seed (block : BlockId) (address : Address) : Builder RegisterFile := do
  let phis ← PerRegister.ofFnM fun register =>
    Builder.addPhi block register.type (phiName register address)
  return { phis, values := phis }

def get (file : RegisterFile) (register : Register) : ValueId :=
  file.values.get register

def set (file : RegisterFile) (register : Register) (value : ValueId) : RegisterFile :=
  { file with values := file.values.set register value }

def phi (file : RegisterFile) (register : Register) : ValueId :=
  file.phis.get register

/-- Feeds values to the phis along an edge from `source`. -/
def receive (file : RegisterFile) (values : PerRegister ValueId) (source : BlockId) :
    Builder Unit :=
  Register.all.forM fun register =>
    Builder.addIncoming (file.phi register) (values.get register) source

/-- Hands the values on to the phis of another block. -/
def propagate (file : RegisterFile) (source : BlockId) (target : RegisterFile) : Builder Unit :=
  target.receive file.values source

end RegisterFile

end Lift6502
