import Lift6502.Decoder
import Lift6502.Host

/-! A 6502 that runs decoded instructions. Code is read through a decoder and
never changes; data accesses go to a host; return addresses are kept on a
stack of their own. Arithmetic is binary, and is stated on integers. -/

namespace Lift6502

structure Registers where
  a : Byte
  x : Byte
  y : Byte
  n : Bool
  v : Bool
  z : Bool
  c : Bool
  deriving DecidableEq, Repr

namespace Registers

def byte (registers : Registers) : ByteRegister → Byte
  | .a => registers.a
  | .x => registers.x
  | .y => registers.y

def flag (registers : Registers) : Flag → Bool
  | .n => registers.n
  | .v => registers.v
  | .z => registers.z
  | .c => registers.c

def setByte (registers : Registers) (register : ByteRegister) (value : Byte) : Registers :=
  match register with
  | .a => { registers with a := value }
  | .x => { registers with x := value }
  | .y => { registers with y := value }

def setFlag (registers : Registers) (flag : Flag) (value : Bool) : Registers :=
  match flag with
  | .n => { registers with n := value }
  | .v => { registers with v := value }
  | .z => { registers with z := value }
  | .c => { registers with c := value }

def setNZ (registers : Registers) (value : Byte) : Registers :=
  { registers with n := decide (value.toInt8 < 0), z := decide (value = 0) }

def setWithNZ (registers : Registers) (register : ByteRegister) (value : Byte) : Registers :=
  (registers.setByte register value).setNZ value

/-- Whether an integer has no byte in two's complement. -/
def overflows (value : Int) : Bool :=
  decide (value < -128 ∨ 127 < value)

/-- The accumulator, a byte and the carry are added. C is the carry out, V
tells that the sum of the signed values does not fit. -/
def addWithCarry (registers : Registers) (addend : Byte) : Registers :=
  let carry := registers.c.toNat
  let sum := registers.a.toNat + addend.toNat + carry
  let signedSum := registers.a.toInt8.toInt + addend.toInt8.toInt + carry
  { registers with c := decide (256 ≤ sum), v := overflows signedSum }.setWithNZ
    .a (UInt8.ofNat sum)

/-- A byte and the borrow, which is the inverted carry, are subtracted from
the accumulator. C tells that there is no borrow out. -/
def subtractWithCarry (registers : Registers) (subtrahend : Byte) : Registers :=
  let borrow := (!registers.c).toNat
  let taken := subtrahend.toNat + borrow
  let signedDifference := registers.a.toInt8.toInt - subtrahend.toInt8.toInt - borrow
  { registers with c := decide (taken ≤ registers.a.toNat), v := overflows signedDifference }
    |>.setWithNZ .a (UInt8.ofInt (registers.a.toNat - taken))

/-- C tells that the register is at least the operand. -/
def compare (registers : Registers) (register : ByteRegister) (value : Byte) : Registers :=
  let held := registers.byte register
  { registers with c := decide (value ≤ held) }.setNZ (held - value)

/-- N and V are the top bits of the operand; Z tests it against the
accumulator. -/
def bitTest (registers : Registers) (value : Byte) : Registers :=
  { registers with
    n := value.toNat.testBit 7
    v := value.toNat.testBit 6
    z := decide (registers.a &&& value = 0) }

end Registers

namespace Machine

open Host

variable {σ : Type}

/-! Operands -/

/-- The address of a memory operand. A pointer in the zero page is read low
byte first, and its high byte is in the zero page too. -/
def address (host : Host σ) (registers : Registers) : Option Operand → Access σ Address
  | some (.absolute address) => pure address
  | some (.zeroPage address) => pure address.toUInt16
  | some (.absoluteX base) => pure (base + registers.x.toUInt16)
  | some (.absoluteY base) => pure (base + registers.y.toUInt16)
  | some (.indirectY pointer) => do
      let low ← host.load pointer.toUInt16
      let high ← host.load (pointer + 1).toUInt16
      return UInt16.ofNat (low.toNat + 256 * high.toNat + registers.y.toNat)
  | some (.immediate _) | some (.relative _) | none => failure

/-- The value of an operand: an immediate, or a byte of memory. -/
def value (host : Host σ) (registers : Registers) : Option Operand → Access σ Byte
  | some (.immediate value) => pure value
  | operand => do host.load (← address host registers operand)

/-- Changes a byte of memory with one read and one write, and sets N and Z
from the new byte. -/
def modifyMemory (host : Host σ) (registers : Registers) (operand : Option Operand)
    (change : Byte → Byte) : Access σ Registers := do
  let address ← address host registers operand
  let new := change (← host.load address)
  host.store address new
  return registers.setNZ new

/-! Instructions -/

inductive Control
  | next
  | goTo (target : Address)
  | call (target : Address)
  | ret
  deriving DecidableEq, Repr

/-- Where a branch, a jump or a call leads. An offset counts from the end of
the two bytes of a branch, modulo 65536. -/
def target (instruction : Instruction) : Access σ Address :=
  match instruction.operand with
  | some (.absolute address) => pure address
  | some (.zeroPage address) => pure address.toUInt16
  | some (.relative offset) => pure (UInt16.ofInt (instruction.location.toNat + 2 + offset.toInt))
  | _ => failure

/-- Goes on with registers. -/
def proceed (registers : Registers) : Access σ (Registers × Control) :=
  return (registers, .next)

section Effects

variable (host : Host σ) (instruction : Instruction) (registers : Registers)

/-- Goes on with registers that depend on the value of the operand. -/
def onValue (change : Byte → Registers) : Access σ (Registers × Control) := do
  proceed (change (← value host registers instruction.operand))

def storeByte (byte : Byte) : Access σ (Registers × Control) := do
  host.store (← address host registers instruction.operand) byte
  proceed registers

def changeMemory (change : Byte → Byte) : Access σ (Registers × Control) := do
  proceed (← modifyMemory host registers instruction.operand change)

def branchIf (condition : Bool) : Access σ (Registers × Control) := do
  let target ← target instruction
  return (registers, if condition then .goTo target else .next)

end Effects

/-- The registers after an instruction and where control goes. The interrupt
mask, decimal mode and the stack pointer are not carried. -/
def execute (host : Host σ) (instruction : Instruction) (registers : Registers) :
    Access σ (Registers × Control) :=
  let onValue := onValue host instruction registers
  let storeByte := storeByte host instruction registers
  let changeMemory := changeMemory host instruction registers
  let branchIf := branchIf instruction registers
  match instruction.mnemonic with
  | .lda => onValue (registers.setWithNZ .a)
  | .ldx => onValue (registers.setWithNZ .x)
  | .ldy => onValue (registers.setWithNZ .y)
  | .sta => storeByte registers.a
  | .stx => storeByte registers.x
  | .sty => storeByte registers.y
  | .tax => proceed (registers.setWithNZ .x registers.a)
  | .tay => proceed (registers.setWithNZ .y registers.a)
  | .txa => proceed (registers.setWithNZ .a registers.x)
  | .tya => proceed (registers.setWithNZ .a registers.y)
  | .adc => onValue registers.addWithCarry
  | .sbc => onValue registers.subtractWithCarry
  | .cmp => onValue (registers.compare .a)
  | .cpx => onValue (registers.compare .x)
  | .cpy => onValue (registers.compare .y)
  | .and => onValue fun value => registers.setWithNZ .a (registers.a &&& value)
  | .ora => onValue fun value => registers.setWithNZ .a (registers.a ||| value)
  | .eor => onValue fun value => registers.setWithNZ .a (registers.a ^^^ value)
  | .bit => onValue registers.bitTest
  | .inc => changeMemory (· + 1)
  | .dec => changeMemory (· - 1)
  | .inx => proceed (registers.setWithNZ .x (registers.x + 1))
  | .iny => proceed (registers.setWithNZ .y (registers.y + 1))
  | .dex => proceed (registers.setWithNZ .x (registers.x - 1))
  | .dey => proceed (registers.setWithNZ .y (registers.y - 1))
  | .clc => proceed { registers with c := false }
  | .sec => proceed { registers with c := true }
  | .clv => proceed { registers with v := false }
  | .bpl => branchIf (!registers.n)
  | .bmi => branchIf registers.n
  | .bvc => branchIf (!registers.v)
  | .bvs => branchIf registers.v
  | .bcc => branchIf (!registers.c)
  | .bcs => branchIf registers.c
  | .bne => branchIf (!registers.z)
  | .beq => branchIf registers.z
  | .jmp => do return (registers, .goTo (← target instruction))
  | .jsr => do return (registers, .call (← target instruction))
  | .rts => return (registers, .ret)
  | .sei | .cli | .sed | .cld | .txs | .nop => proceed registers

/-! Runs -/

structure Configuration (σ : Type) where
  registers : Registers
  counter : Address
  /-- Where calls go back to, the innermost first. -/
  returns : List Address
  state : σ

inductive Progress (σ : Type)
  | running (configuration : Configuration σ)
  /-- The outermost routine has returned. -/
  | returned (registers : Registers) (state : σ)
  /-- There is no instruction, or it cannot be executed. -/
  | stuck

/-- Moves control past an instruction that has been executed. -/
def transfer (instruction : Instruction) (returns : List Address) (registers : Registers)
    (state : σ) : Control → Progress σ
  | .next => .running { registers, counter := instruction.following, returns, state }
  | .goTo target => .running { registers, counter := target, returns, state }
  | .call target =>
      .running { registers, counter := target, returns := instruction.following :: returns, state }
  | .ret =>
      match returns with
      | [] => .returned registers state
      | counter :: returns => .running { registers, counter, returns, state }

end Machine

/-- The instruction at an address, if it can be decoded. -/
def Decoder.instruction? (decoder : Decoder) (location : Address) : Option Instruction :=
  match decoder.decode location {} with
  | .ok instruction _ => some instruction
  | .error _ _ => none

namespace Machine

variable {σ : Type}

def step (decoder : Decoder) (host : Host σ) (configuration : Configuration σ) : Progress σ :=
  match decoder.instruction? configuration.counter with
  | none => .stuck
  | some instruction =>
      match execute host instruction configuration.registers configuration.state with
      | none => .stuck
      | some ((registers, control), state) =>
          transfer instruction configuration.returns registers state control

def run (decoder : Decoder) (host : Host σ) : Nat → Configuration σ → Progress σ
  | 0, configuration => .running configuration
  | steps + 1, configuration =>
      match step decoder host configuration with
      | .running next => run decoder host steps next
      | finished => finished

/-- A machine that starts a routine returns from it. -/
def Returns (decoder : Decoder) (host : Host σ) (entry : Address) (registers : Registers)
    (state : σ) (registers' : Registers) (state' : σ) : Prop :=
  ∃ steps, run decoder host steps { registers, counter := entry, returns := [], state } =
    .returned registers' state'

end Machine

end Lift6502
