import Lift6502.AddressSpace
import Lift6502.Text.Hex

/-! Operands, one form for each supported addressing mode. -/

namespace Lift6502

inductive Mode
  | implied
  | absolute
  | absoluteX
  | absoluteY
  | immediate
  | indirectY
  | relative
  | zeroPage
  deriving DecidableEq, Repr

inductive Operand
  | absolute (address : Address)
  | absoluteX (base : Address)
  | absoluteY (base : Address)
  | immediate (value : Byte)
  /-- The zero-page address of a pointer, indexed by Y after it is followed. -/
  | indirectY (pointer : Byte)
  /-- A signed distance from the following instruction. -/
  | relative (offset : Int8)
  | zeroPage (address : Byte)
  deriving DecidableEq, Repr

def Mode.length : Mode → Nat
  | .implied => 0
  | .absolute | .absoluteX | .absoluteY => 2
  | .immediate | .indirectY | .relative | .zeroPage => 1

namespace Operand

def mode : Operand → Mode
  | .absolute _ => .absolute
  | .absoluteX _ => .absoluteX
  | .absoluteY _ => .absoluteY
  | .immediate _ => .immediate
  | .indirectY _ => .indirectY
  | .relative _ => .relative
  | .zeroPage _ => .zeroPage

def length (operand : Operand) : Nat :=
  operand.mode.length

/-- The address the operand names without knowing any register. A relative
offset counts from `following`. -/
def staticAddress? (operand : Operand) (following : Address) : Option Address :=
  match operand with
  | .absolute address => some address
  | .zeroPage address => some address.toUInt16
  | .relative offset => some (following + offset.toInt16.toUInt16)
  | .absoluteX _ | .absoluteY _ | .immediate _ | .indirectY _ => none

def staticValue? : Operand → Option Byte
  | .immediate value => some value
  | _ => none

def isFixed : Operand → Bool
  | .absolute _ | .zeroPage _ => true
  | _ => false

def text : Operand → String
  | .absolute address => s!"${Hex.word address}"
  | .absoluteX base => s!"${Hex.word base},X"
  | .absoluteY base => s!"${Hex.word base},Y"
  | .immediate value => s!"#${Hex.byte value}"
  | .indirectY pointer => s!"(${Hex.byte pointer}),Y"
  | .relative offset => s!"${Hex.byte offset.toUInt8}"
  | .zeroPage address => s!"${Hex.byte address}"

end Operand

end Lift6502
