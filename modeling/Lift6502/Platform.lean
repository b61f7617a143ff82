import Lift6502.AddressSpace
import Lift6502.Ssa.Builder
import Lift6502.Ssa.Module

/-! How the loads and stores of lifted code reach memory. -/

namespace Lift6502

open Ssa

inductive Platform
  /-- The whole address space is one global array. -/
  | flat
  /-- Every access goes to the host, so that fixed and computed addresses
  reach the same store. -/
  | nes
  deriving DecidableEq, Repr

structure UnknownPlatform where
  name : String
  deriving DecidableEq, Repr

def UnknownPlatform.message (unknown : UnknownPlatform) : String :=
  s!"unknown platform '{unknown.name}' (expected flat or nes)"

namespace Platform

def standard : Platform := .nes

def name : Platform → String
  | .flat => "flat"
  | .nes => "nes"

/-- Reads a name in any mixture of cases. -/
def ofName (name : String) : Except UnknownPlatform Platform :=
  let name := name.map Char.toLower
  if name = "flat" then .ok .flat
  else if name = "nes" then .ok .nes
  else .error { name }

/-- The address that stands for all mirrors of a byte of NES memory. The two
kilobytes of RAM appear four times below 2000. -/
def canonical (address : Address) : Address :=
  if address < 0x2000 then address &&& 0x07FF else address

def ram : String := "ram"

def hostRead : String := "nes_read"

def hostWrite : String := "nes_write"

/-- Adds to a module what the accesses refer to. -/
def declare (platform : Platform) (module : Ssa.Module) : Ssa.Module :=
  match platform with
  | .flat => module.addGlobal ram .i8 0x10000
  | .nes =>
      let module := module.addImport hostRead [.i16] .i8
      module.addImport hostWrite [.i16, .i8] .void

/-- The address used for an access that is fixed when code is lifted. -/
def fixedAddress (platform : Platform) (address : Address) : Address :=
  match platform with
  | .flat => address
  | .nes => canonical address

def loadComputed (platform : Platform) (block : BlockId) (address : ValueId) :
    Builder ValueId :=
  match platform with
  | .flat => Builder.load block ram .i8 address
  | .nes => Builder.call block hostRead .i8 [address]

def storeComputed (platform : Platform) (block : BlockId) (address value : ValueId) :
    Builder Unit :=
  match platform with
  | .flat => Builder.store block ram address value
  | .nes => do
      let _ ← Builder.call block hostWrite .void [address, value]

def load (platform : Platform) (block : BlockId) (address : Address) : Builder ValueId := do
  let index ← Builder.word (platform.fixedAddress address)
  platform.loadComputed block index

def store (platform : Platform) (block : BlockId) (address : Address) (value : ValueId) :
    Builder Unit := do
  let index ← Builder.word (platform.fixedAddress address)
  platform.storeComputed block index value

end Platform

end Lift6502
