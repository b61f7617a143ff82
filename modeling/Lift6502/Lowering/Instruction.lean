import Lift6502.Lowering.Frame
import Lift6502.Routine

/-! The code of single instructions. -/

namespace Lift6502

open Ssa

def LogicOp.binOp : LogicOp → BinOp
  | .or => .or
  | .and => .and
  | .xor => .xor

namespace Lowering

/-! Memory operands -/

inductive Place
  | fixed (address : Address)
  /-- At an address that is computed when the code runs. -/
  | computed (address : ValueId)
  deriving DecidableEq, Repr

def loadFixed (platform : Platform) (address : Address) : Lowering ValueId :=
  build fun block => platform.load block address

def load (platform : Platform) : Place → Lowering ValueId
  | .fixed address => loadFixed platform address
  | .computed address => build fun block => platform.loadComputed block address

def store (platform : Platform) (place : Place) (value : ValueId) : Lowering Unit :=
  match place with
  | .fixed address => build fun block => platform.store block address value
  | .computed address => build fun block => platform.storeComputed block address value

def indexed (base : Address) (register : ByteRegister) : Lowering ValueId := do
  let index ← zext (← getByte register)
  let base ← word base
  binary .add base index

/-- The address held in the zero page and indexed by Y. The high byte of the
pointer is fetched from the zero page too. -/
def indirectIndexed (platform : Platform) (pointer : Byte) : Lowering ValueId := do
  let low ← loadFixed platform pointer.toUInt16
  let high ← loadFixed platform (pointer + 1).toUInt16
  let low ← zext low
  let high ← zext high
  let eight ← word 8
  let high ← binary .shl high eight
  let base ← binary .or high low
  let index ← zext (← getByte .y)
  binary .add base index

def place (platform : Platform) (instruction : Instruction) : Lowering Place :=
  match instruction.operand with
  | some (.absolute address) => return .fixed address
  | some (.zeroPage address) => return .fixed address.toUInt16
  | some (.absoluteX base) => return .computed (← indexed base .x)
  | some (.absoluteY base) => return .computed (← indexed base .y)
  | some (.indirectY pointer) => return .computed (← indirectIndexed platform pointer)
  | some (.immediate _) | some (.relative _) | none =>
      throw (.unusableOperand instruction.location)

/-- The value of an operand: an immediate, or a byte of memory. -/
def operand (platform : Platform) (instruction : Instruction) : Lowering ValueId :=
  match instruction.operand with
  | some (.immediate value) => byte value
  | _ => do load platform (← place platform instruction)

/-! Flags and arithmetic -/

def setNZ (value : ValueId) : Lowering Unit := do
  let zero ← byte 0
  let negative ← compare .slt value zero
  let isZero ← compare .eq value zero
  setFlag .n negative
  setFlag .z isZero

def setWithNZ (register : ByteRegister) (value : ValueId) : Lowering Unit := do
  setByte register value
  setNZ value

/-- Adds a byte and the carry to the accumulator. The sum overflows when both
addends have the sign that the result does not have. -/
def addWithCarry (addend : ValueId) : Lowering Unit := do
  let accumulator ← getByte .a
  let wideAccumulator ← zext accumulator
  let wideAddend ← zext addend
  let carryIn ← zext (← getFlag .c)
  let partialSum ← binary .add wideAccumulator wideAddend
  let sum ← binary .add partialSum carryIn
  let byteMax ← word 0xFF
  let carry ← compare .ugt sum byteMax
  let result ← trunc sum
  let changedFromAccumulator ← binary .xor accumulator result
  let changedFromAddend ← binary .xor addend result
  let changedFromBoth ← binary .and changedFromAccumulator changedFromAddend
  let zero ← byte 0
  let overflow ← compare .slt changedFromBoth zero
  setByte .a result
  setFlag .c carry
  setFlag .v overflow
  setNZ result

/-- Subtracting is adding the complement: the borrow is the inverted carry. -/
def subtractWithCarry (subtrahend : ValueId) : Lowering Unit := do
  let ones ← byte 0xFF
  addWithCarry (← binary .xor subtrahend ones)

def compareRegister (register : ByteRegister) (platform : Platform) (instruction : Instruction) :
    Lowering Unit := do
  let left ← getByte register
  let right ← operand platform instruction
  let difference ← binary .sub left right
  setNZ difference
  setFlag .c (← compare .uge left right)

def stepRegister (op : BinOp) (register : ByteRegister) : Lowering Unit := do
  let one ← byte 1
  setWithNZ register (← binary op (← getByte register) one)

def stepMemory (op : BinOp) (platform : Platform) (instruction : Instruction) :
    Lowering Unit := do
  let place ← place platform instruction
  let old ← load platform place
  let one ← byte 1
  let new ← binary op old one
  store platform place new
  setNZ new

/-- N and V are the top bits of the operand; Z tests it against the
accumulator. -/
def bitTest (value : ValueId) : Lowering Unit := do
  let zero ← byte 0
  let bitSix ← byte 0x40
  let negative ← compare .slt value zero
  let masked ← binary .and value bitSix
  let overflow ← compare .ne masked zero
  let tested ← binary .and (← getByte .a) value
  let isZero ← compare .eq tested zero
  setFlag .n negative
  setFlag .v overflow
  setFlag .z isZero

/-! Control -/

def target (location : Address) : Option Address → Lowering Address
  | some target => return target
  | none => throw (.unusableOperand location)

def branch (sites : Sites) (instruction : Instruction) (flag : Flag) (inverse : Bool) :
    Lowering Unit := do
  let target ← target instruction.location instruction.branchTarget?
  let taken ← edge sites instruction.location target
  let notTaken ← edge sites instruction.location instruction.following
  let cond ← getFlag flag
  terminate (if inverse then .condBr cond notTaken taken else .condBr cond taken notTaken)

def jump (sites : Sites) (instruction : Instruction) : Lowering Unit := do
  goTo sites instruction.location (← target instruction.location instruction.jumpTarget?)

/-- Calls the function of a routine with all registers and takes all of them
from its result. -/
def call (instruction : Instruction) : Lowering Unit := do
  let target ← target instruction.location instruction.callTarget?
  let values ← allRegisters
  let regs ← build fun block => Builder.call block (routineName target) .regs values.toList
  Register.all.forM fun register => do
    setRegister register (← build fun block =>
      Builder.extractReg block regs register.index register.type)

def ret : Lowering Unit := do
  let values ← allRegisters
  let regs ← build fun block => Builder.makeRegs block values
  terminate (.ret regs)

def lower (platform : Platform) (sites : Sites) (instruction : Instruction) : Lowering Unit :=
  match instruction.operation with
  | .load register => do
      setWithNZ register (← operand platform instruction)
  | .store register => do
      let place ← place platform instruction
      store platform place (← getByte register)
  | .compare register => compareRegister register platform instruction
  | .increment register => stepRegister .add register
  | .decrement register => stepRegister .sub register
  | .incrementMemory => stepMemory .add platform instruction
  | .decrementMemory => stepMemory .sub platform instruction
  | .logic op => do
      let accumulator ← getByte .a
      let value ← operand platform instruction
      setWithNZ .a (← binary op.binOp accumulator value)
  | .bitTest => do bitTest (← operand platform instruction)
  | .addWithCarry => do addWithCarry (← operand platform instruction)
  | .subtractWithCarry => do subtractWithCarry (← operand platform instruction)
  | .transfer source target => do setWithNZ target (← getByte source)
  | .setFlag which value => do setFlag which (← flag value)
  | .branch flag inverse => branch sites instruction flag inverse
  | .jump => jump sites instruction
  | .call => call instruction
  | .ret => ret
  | .idle => pure ()

end Lowering

end Lift6502
