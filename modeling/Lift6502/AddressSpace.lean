/-! The 16-bit address space that code is read from. -/

namespace Lift6502

abbrev Byte := UInt8

abbrev Address := UInt16

/-- A byte at every address, and which addresses something is mapped at.
Arithmetic on addresses wraps at 65536. -/
structure AddressSpace where
  read : Address → Byte
  backed : Address → Bool

namespace AddressSpace

/-- The little-endian word at an address. -/
def word (space : AddressSpace) (address : Address) : Address :=
  (space.read address).toUInt16 ||| ((space.read (address + 1)).toUInt16 <<< 8)

def resetVector (space : AddressSpace) : Address :=
  space.word 0xFFFC

end AddressSpace

/-- Bytes mapped from `base` upwards. What does not fit below the end of the
address space is out of reach. -/
structure Image where
  base : Address
  bytes : Array Byte

namespace Image

def byte? (image : Image) (address : Address) : Option Byte :=
  if image.base ≤ address then
    image.bytes[address.toNat - image.base.toNat]?
  else
    none

/-- Reads 0 where the image has no byte. -/
def space (image : Image) : AddressSpace where
  read address := (image.byte? address).getD 0
  backed address := (image.byte? address).isSome

end Image

end Lift6502
