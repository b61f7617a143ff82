/-! Value types and the integer operations on them. Constants of every type
are held in 16 bits. -/

namespace Lift6502.Ssa

inductive Ty
  | void
  /-- A condition flag. -/
  | i1
  /-- A byte of the machine. -/
  | i8
  /-- An address of the machine. -/
  | i16
  /-- The aggregate of all registers that a lifted function returns. -/
  | regs
  deriving DecidableEq, Repr

namespace Ty

def all : List Ty := [.void, .i1, .i8, .i16, .regs]

def text : Ty → String
  | .void => "void"
  | .i1 => "i1"
  | .i8 => "i8"
  | .i16 => "i16"
  | .regs => "%regs"

/-- The bits that a constant of the type may have. -/
def mask : Ty → UInt16
  | .i1 => 0x1
  | .i8 => 0xFF
  | .i16 => 0xFFFF
  | .void | .regs => 0

def signBit (type : Ty) : UInt16 :=
  (type.mask >>> 1) + 1

/-- The value of the bits in two's complement at the width of the type. -/
def signed (type : Ty) (bits : UInt16) : Int :=
  let bits := bits &&& type.mask
  if bits &&& type.signBit = 0 then
    bits.toNat
  else
    (bits.toNat : Int) - (type.mask.toNat + 1)

end Ty

inductive BinOp
  | add
  | sub
  | and
  | or
  | xor
  | shl
  deriving DecidableEq, Repr

namespace BinOp

def text : BinOp → String
  | .add => "add"
  | .sub => "sub"
  | .and => "and"
  | .or => "or"
  | .xor => "xor"
  | .shl => "shl"

/-- The result on 16-bit words. Every bit is shifted out from 16 on. -/
def apply (op : BinOp) (lhs rhs : UInt16) : UInt16 :=
  match op with
  | .add => lhs + rhs
  | .sub => lhs - rhs
  | .and => lhs &&& rhs
  | .or => lhs ||| rhs
  | .xor => lhs ^^^ rhs
  | .shl => if rhs < 16 then lhs <<< rhs else 0

/-- The result on constants of one type. -/
def fold (op : BinOp) (type : Ty) (lhs rhs : UInt16) : UInt16 :=
  op.apply lhs rhs &&& type.mask

end BinOp

inductive Predicate
  | eq
  | ne
  | slt
  | uge
  | ugt
  deriving DecidableEq, Repr

namespace Predicate

def text : Predicate → String
  | .eq => "eq"
  | .ne => "ne"
  | .slt => "slt"
  | .uge => "uge"
  | .ugt => "ugt"

/-- Whether the predicate holds of two constants at the width of a type. -/
def fold (predicate : Predicate) (type : Ty) (lhs rhs : UInt16) : Bool :=
  let left := lhs &&& type.mask
  let right := rhs &&& type.mask
  match predicate with
  | .eq => left == right
  | .ne => left != right
  | .slt => type.signed left < type.signed right
  | .uge => right ≤ left
  | .ugt => right < left

end Predicate

end Lift6502.Ssa
