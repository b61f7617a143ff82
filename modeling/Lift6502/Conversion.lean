import Lift6502.Cartridge
import Lift6502.Program

/-! From a cartridge image to a module. -/

namespace Lift6502

open Ssa

/-- Settings of a conversion. The entry is the reset vector unless it is
given. -/
structure Conversion where
  entry : Option Address := none
  platform : Platform := .standard
  policy : Policy := .lenient
  moduleName : String := "rom"
  deriving DecidableEq, Repr

inductive ConversionError
  | cartridge (error : CartridgeError)
  | lift (entry : Address) (error : LiftError)
  deriving DecidableEq, Repr

namespace ConversionError

def context : ConversionError → String
  | .cartridge _ => "Failed to parse iNES image"
  | .lift entry _ => s!"Failed to translate from entry 0x{Hex.word entry}"

def cause : ConversionError → String
  | .cartridge error => error.message
  | .lift _ error => error.message

def message (error : ConversionError) : String :=
  s!"{error.context}: {error.cause}"

end ConversionError

namespace Conversion

def decoder (conversion : Conversion) (cartridge : Cartridge) : Decoder where
  space := cartridge.space
  policy := conversion.policy

def entryOf (conversion : Conversion) (cartridge : Cartridge) : Address :=
  conversion.entry.getD cartridge.space.resetVector

def lift (conversion : Conversion) (cartridge : Cartridge) : Session ConversionError Ssa.Module :=
  let entry := conversion.entryOf cartridge
  ((conversion.decoder cartridge).liftProgram conversion.platform entry
    conversion.moduleName).adaptExcept (.lift entry)

def run (conversion : Conversion) (bytes : Array Byte) : Session ConversionError Ssa.Module := do
  let cartridge ← Session.ofExcept ((Cartridge.read bytes).mapError .cartridge)
  conversion.lift cartridge

end Conversion

end Lift6502
