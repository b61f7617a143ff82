import Lift6502.AddressSpace

/-! Cartridge images in the iNES format: a header of 16 bytes, an optional
trainer, then program ROM. The program is mapped so that it ends at the last
address, where the interrupt vectors are. -/

namespace Lift6502

inductive Mirroring
  | horizontal
  | vertical
  deriving DecidableEq, Repr

structure Cartridge.Header where
  programSize : Nat
  characterSize : Nat
  mapper : Byte
  mirroring : Mirroring
  battery : Bool
  trainer : Bool
  deriving DecidableEq, Repr

structure Cartridge where
  header : Cartridge.Header
  program : Image

inductive CartridgeError
  | truncated (needed actual : Nat)
  | badMagic
  | noProgram
  | programTooLarge (size : Nat)
  deriving DecidableEq, Repr

def CartridgeError.message : CartridgeError → String
  | .truncated needed actual => s!"Image truncated: need {needed} bytes, have {actual}"
  | .badMagic => "Not an iNES image (bad magic)"
  | .noProgram => "Image has no PRG ROM"
  | .programTooLarge size =>
      s!"PRG ROM of {size} bytes needs bank switching (max 32768)"

namespace Cartridge

def headerLength : Nat := 16

def trainerLength : Nat := 512

def programBank : Nat := 16384

def characterBank : Nat := 8192

/-- The most program ROM that fits without bank switching. -/
def programWindow : Nat := 32768

/-- The letters `NES` and an end-of-file mark. -/
def magic : List Byte := [0x4E, 0x45, 0x53, 0x1A]

namespace Header

def flagged (flags mask : Byte) : Bool :=
  flags &&& mask != 0

/-- The header read from bytes 4 to 7. -/
def ofBytes (programBanks characterBanks flags6 flags7 : Byte) : Header where
  programSize := programBanks.toNat * programBank
  characterSize := characterBanks.toNat * characterBank
  mapper := (flags7 &&& (0xF0 : Byte)) ||| (flags6 >>> (4 : Byte))
  mirroring := if flagged flags6 0x01 then .vertical else .horizontal
  battery := flagged flags6 0x02
  trainer := flagged flags6 0x04

def programStart (header : Header) : Nat :=
  headerLength + if header.trainer then trainerLength else 0

def programEnd (header : Header) : Nat :=
  header.programStart + header.programSize

/-- The address at which program ROM begins, so that it ends with the space. -/
def programBase (header : Header) : Address :=
  UInt16.ofNat (0x10000 - header.programSize)

end Header

def space (cartridge : Cartridge) : AddressSpace :=
  cartridge.program.space

/-- Reads an image, naming the first check that fails. -/
def read (bytes : Array Byte) : Except CartridgeError Cartridge :=
  if bytes.size < headerLength then
    .error (.truncated headerLength bytes.size)
  else if bytes.toList.take 4 ≠ magic then
    .error .badMagic
  else
    let header := Header.ofBytes
      (bytes.getD 4 0) (bytes.getD 5 0) (bytes.getD 6 0) (bytes.getD 7 0)
    if header.programSize = 0 then
      .error .noProgram
    else if programWindow < header.programSize then
      .error (.programTooLarge header.programSize)
    else if bytes.size < header.programEnd then
      .error (.truncated header.programEnd bytes.size)
    else
      .ok {
        header
        program := {
          base := header.programBase
          bytes := bytes.extract header.programStart header.programEnd } }

end Cartridge

end Lift6502
