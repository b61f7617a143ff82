import Lift6502.Journal

/-! Decoding instructions out of an address space. -/

namespace Lift6502

/-- What becomes of an opcode outside the table. -/
inductive UnsupportedPolicy
  | substituteReturn
  | fail
  deriving DecidableEq, Repr

/-- What becomes of a read where nothing is mapped. -/
inductive UnmappedPolicy
  | zero
  | warn
  | fail
  deriving DecidableEq, Repr

structure Policy where
  unsupported : UnsupportedPolicy := .substituteReturn
  unmapped : UnmappedPolicy := .zero
  deriving DecidableEq, Repr

namespace Policy

def lenient : Policy := {}

def strict : Policy where
  unsupported := .fail
  unmapped := .fail

end Policy

inductive DecodeError
  | unsupportedOpcode (location : Address) (opcode : Byte)
  | outOfRange (location byte : Address)
  deriving DecidableEq, Repr

def DecodeError.message : DecodeError → String
  | .unsupportedOpcode location opcode =>
      s!"Unsupported opcode 0x{Hex.byte opcode} at 0x{Hex.word location}"
  | .outOfRange location byte =>
      s!"Instruction at 0x{Hex.word location} reads unmapped byte 0x{Hex.word byte}"

structure Decoder where
  space : AddressSpace
  policy : Policy := .lenient

namespace Decoder

/-- Notes a read of a byte that nothing backs; it is warned about once. -/
def noteUnmapped (decoder : Decoder) (location byte : Address) : Session DecodeError Unit :=
  modify fun journal =>
    let seen := journal.unmapped.contains byte
    let journal := journal.recordUnmapped byte
    if decoder.policy.unmapped = .warn && !seen then
      journal.note (.unmappedByte location byte)
    else
      journal

/-- One byte of the instruction at `location`. -/
def byte (decoder : Decoder) (location address : Address) : Session DecodeError Byte := do
  if !decoder.space.backed address then
    if decoder.policy.unmapped = .fail then
      throw (.outOfRange location address)
    decoder.noteUnmapped location address
  return decoder.space.read address

def word (decoder : Decoder) (location address : Address) : Session DecodeError Address := do
  let low ← decoder.byte location address
  let high ← decoder.byte location (address + 1)
  return low.toUInt16 ||| (high.toUInt16 <<< 8)

def operand (decoder : Decoder) (location : Address) (mode : Mode) :
    Session DecodeError (Option Operand) := do
  let address := location + 1
  match mode with
  | .implied => return none
  | .absolute => return some (.absolute (← decoder.word location address))
  | .absoluteX => return some (.absoluteX (← decoder.word location address))
  | .absoluteY => return some (.absoluteY (← decoder.word location address))
  | .immediate => return some (.immediate (← decoder.byte location address))
  | .indirectY => return some (.indirectY (← decoder.byte location address))
  | .relative => return some (.relative (← decoder.byte location address).toInt8)
  | .zeroPage => return some (.zeroPage (← decoder.byte location address))

def unsupported (decoder : Decoder) (location : Address) (opcode : Byte) :
    Session DecodeError Instruction :=
  match decoder.policy.unsupported with
  | .fail => throw (.unsupportedOpcode location opcode)
  | .substituteReturn => do
      Session.note (.unknownOpcode opcode location)
      return { location, mnemonic := .rts, operand := none, substituted := some opcode }

def decode (decoder : Decoder) (location : Address) : Session DecodeError Instruction := do
  let opcode ← decoder.byte location location
  match Encoding.ofOpcode? opcode with
  | none => decoder.unsupported location opcode
  | some encoding =>
      let operand ← decoder.operand location encoding.mode
      return { location, mnemonic := encoding.mnemonic, operand, substituted := none }

end Decoder

end Lift6502
