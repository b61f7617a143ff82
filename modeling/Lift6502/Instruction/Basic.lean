import Lift6502.Instruction.Encoding

/-! Decoded instructions and where control goes after them. -/

namespace Lift6502

structure Instruction where
  /-- Address of the opcode. -/
  location : Address
  mnemonic : Mnemonic
  operand : Option Operand
  /-- The opcode found, where an unsupported one is read as a return. -/
  substituted : Option Byte
  deriving DecidableEq, Repr

namespace Instruction

def operation (instruction : Instruction) : Operation :=
  instruction.mnemonic.operation

def length (instruction : Instruction) : Nat :=
  1 + (instruction.operand.map Operand.length).getD 0

def following (instruction : Instruction) : Address :=
  instruction.location + UInt16.ofNat instruction.length

/-- Control never goes on to the following instruction. -/
def isTerminal (instruction : Instruction) : Bool :=
  match instruction.operation with
  | .jump | .ret => true
  | _ => false

def isBranch (instruction : Instruction) : Bool :=
  match instruction.operation with
  | .branch _ _ => true
  | _ => false

def isJump (instruction : Instruction) : Bool :=
  instruction.operation == .jump

def isCall (instruction : Instruction) : Bool :=
  instruction.operation == .call

def target? (instruction : Instruction) : Option Address :=
  instruction.operand.bind fun operand => operand.staticAddress? instruction.following

def branchTarget? (instruction : Instruction) : Option Address :=
  if instruction.isBranch then instruction.target? else none

def jumpTarget? (instruction : Instruction) : Option Address :=
  if instruction.isJump then instruction.target? else none

def callTarget? (instruction : Instruction) : Option Address :=
  if instruction.isCall then instruction.target? else none

/-- Where a branch or a jump goes when it is taken. -/
def transferTarget? (instruction : Instruction) : Option Address :=
  instruction.branchTarget? <|> instruction.jumpTarget?

/-- Addresses control can reach next within the same routine. A call comes
back, so its target is not one of them. -/
def successors (instruction : Instruction) : List Address :=
  instruction.transferTarget?.toList ++
    if instruction.isTerminal then [] else [instruction.following]

/-- Addresses that start a block because of this instruction. -/
def leaders (instruction : Instruction) : List Address :=
  instruction.transferTarget?.toList ++
    if instruction.isBranch then [instruction.following] else []

def operandText (instruction : Instruction) : String :=
  match instruction.operand with
  | none => ""
  | some (.relative _) => s!" ${Hex.word (instruction.target?.getD 0)}"
  | some operand => s!" {operand.text}"

/-- One line of disassembly. A relative operand is written as the address it
leads to. -/
def text (instruction : Instruction) : String :=
  s!"{Hex.word instruction.location}: {instruction.mnemonic.text}{instruction.operandText}" ++
    match instruction.substituted with
    | none => ""
    | some opcode => s!"  ; unsupported opcode ${Hex.byte opcode}"

end Instruction

end Lift6502
