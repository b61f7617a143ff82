import Lift6502.Lowering.Instruction
import Lift6502.Proofs.Machine
import Lift6502.Proofs.Ssa.Arithmetic

/-! The operations that lowering uses, on bytes, flags and addresses. They are
what the machine computes. -/

namespace Lift6502

open Ssa

/-! Bytes -/

theorem bits_byte (byte : Byte) : Ty.i8.bits byte.toUInt16 = byte.toBitVec := by
  apply BitVec.eq_of_toNat_eq
  rw [Ty.toNat_bits]
  exact Nat.mod_eq_of_lt byte.toBitVec.isLt

theorem eval_byte (op : BinOp) (left right : Byte) :
    op.eval .i8 left.toUInt16 right.toUInt16 =
      (UInt8.ofBitVec (op.denote left.toBitVec right.toBitVec)).toUInt16 := by
  unfold BinOp.eval
  rw [bits_byte, bits_byte]
  rfl

theorem eval_add_byte (left right : Byte) :
    BinOp.eval .add .i8 left.toUInt16 right.toUInt16 = (left + right).toUInt16 :=
  eval_byte .add left right

theorem eval_sub_byte (left right : Byte) :
    BinOp.eval .sub .i8 left.toUInt16 right.toUInt16 = (left - right).toUInt16 :=
  eval_byte .sub left right

theorem eval_and_byte (left right : Byte) :
    BinOp.eval .and .i8 left.toUInt16 right.toUInt16 = (left &&& right).toUInt16 :=
  eval_byte .and left right

theorem eval_xor_byte (left right : Byte) :
    BinOp.eval .xor .i8 left.toUInt16 right.toUInt16 = (left ^^^ right).toUInt16 :=
  eval_byte .xor left right

theorem eval_logic (op : LogicOp) (left right : Byte) :
    op.binOp.eval .i8 left.toUInt16 right.toUInt16 = (op.apply left right).toUInt16 := by
  rw [eval_byte]
  cases op <;> rfl

theorem predicate_byte (predicate : Predicate) (left right : Byte) :
    predicate.eval .i8 left.toUInt16 right.toUInt16 =
      predicate.denote left.toBitVec right.toBitVec := by
  unfold Predicate.eval
  rw [bits_byte, bits_byte]
  rfl

theorem negative_byte (byte : Byte) :
    Predicate.eval .slt .i8 byte.toUInt16 (0 : Byte).toUInt16 = decide (byte.toInt8 < 0) := by
  rw [predicate_byte, Bool.eq_iff_iff, decide_eq_true_iff, Int8.lt_iff_toBitVec_slt]
  rfl

theorem equal_byte (left right : Byte) :
    Predicate.eval .eq .i8 left.toUInt16 right.toUInt16 = decide (left = right) := by
  rw [predicate_byte, Bool.eq_iff_iff]
  simp [Predicate.denote, UInt8.toBitVec_inj]

theorem different_byte (left right : Byte) :
    Predicate.eval .ne .i8 left.toUInt16 right.toUInt16 = decide (left ≠ right) := by
  rw [predicate_byte, Bool.eq_iff_iff]
  simp [Predicate.denote, UInt8.toBitVec_inj]

theorem at_least_byte (left right : Byte) :
    Predicate.eval .uge .i8 left.toUInt16 right.toUInt16 = decide (right ≤ left) := by
  rw [predicate_byte]
  rfl

/-! Addresses -/

theorem bits_word (word : UInt16) : Ty.i16.bits word = word.toBitVec := by
  apply BitVec.eq_of_toNat_eq
  rw [Ty.toNat_bits]
  exact Nat.mod_eq_of_lt word.toBitVec.isLt

theorem eval_word (op : BinOp) (left right : UInt16) :
    op.eval .i16 left right = ⟨op.denote left.toBitVec right.toBitVec⟩ := by
  unfold BinOp.eval
  rw [bits_word, bits_word]
  exact congrArg UInt16.ofBitVec (BitVec.setWidth_eq _)

theorem eval_add_word (left right : UInt16) : BinOp.eval .add .i16 left right = left + right :=
  eval_word .add left right

theorem above_word (left right : UInt16) :
    Predicate.eval .ugt .i16 left right = decide (right < left) := by
  unfold Predicate.eval
  rw [bits_word, bits_word]
  rfl

theorem pointer_word (low high index : Byte) :
    BinOp.eval .add .i16
        (BinOp.eval .or .i16 (BinOp.eval .shl .i16 high.toUInt16 8) low.toUInt16)
        index.toUInt16 =
      UInt16.ofNat (low.toNat + 256 * high.toNat + index.toNat) := by
  have hlow : low.toNat < 2 ^ 8 := low.toNat_lt
  have hhigh : high.toNat < 2 ^ 8 := high.toNat_lt
  have hshift : (BinOp.eval .shl .i16 high.toUInt16 8).toNat = high.toNat <<< 8 := by
    rw [eval_word]
    show (high.toUInt16.toBitVec <<< (8 : UInt16).toBitVec).toNat = _
    rw [BitVec.shiftLeft_eq', BitVec.toNat_shiftLeft]
    show high.toNat <<< 8 % 2 ^ 16 = _
    rw [Nat.shiftLeft_eq, Nat.mod_eq_of_lt (by omega)]
  have hor : (BinOp.eval .or .i16 (BinOp.eval .shl .i16 high.toUInt16 8)
      low.toUInt16).toNat = low.toNat + 256 * high.toNat := by
    rw [eval_word]
    show ((BinOp.eval .shl .i16 high.toUInt16 8).toBitVec ||| low.toUInt16.toBitVec).toNat = _
    rw [BitVec.toNat_or]
    show (BinOp.eval .shl .i16 high.toUInt16 8).toNat ||| low.toNat = _
    rw [hshift, ← Nat.shiftLeft_add_eq_or_of_lt hlow, Nat.shiftLeft_eq]
    omega
  rw [eval_add_word]
  apply UInt16.toNat_inj.mp
  rw [UInt16.toNat_add, hor, UInt16.toNat_ofNat']
  rfl

/-! Sums with a carry -/

theorem toNat_sum (left right : Byte) (carry : Bool) :
    (left.toUInt16 + right.toUInt16 + carry.toUInt16).toNat =
      left.toNat + right.toNat + carry.toNat := by
  have hleft := left.toNat_lt
  have hright := right.toNat_lt
  have hcarry : carry.toUInt16.toNat = carry.toNat := by cases carry <;> rfl
  have hle : carry.toNat ≤ 1 := Bool.toNat_le carry
  rw [UInt16.toNat_add, UInt16.toNat_add, hcarry, UInt8.toNat_toUInt16, UInt8.toNat_toUInt16]
  omega

theorem sum_byte (left right : Byte) (carry : Bool) :
    (left.toUInt16 + right.toUInt16 + carry.toUInt16).toUInt8 =
      UInt8.ofNat (left.toNat + right.toNat + carry.toNat) := by
  apply UInt8.toNat_inj.mp
  rw [UInt16.toNat_toUInt8, toNat_sum, UInt8.toNat_ofNat']

theorem sum_carries (left right : Byte) (carry : Bool) :
    Predicate.eval .ugt .i16 (left.toUInt16 + right.toUInt16 + carry.toUInt16) 0xFF =
      decide (256 ≤ left.toNat + right.toNat + carry.toNat) := by
  rw [above_word, decide_eq_decide, UInt16.lt_iff_toNat_lt, toNat_sum]
  show 255 < _ ↔ _
  omega

theorem toInt8_toInt (byte : Byte) :
    byte.toInt8.toInt = if byte.toNat < 128 then (byte.toNat : Int) else byte.toNat - 256 := by
  show byte.toBitVec.toInt = _
  rw [BitVec.toInt_eq_toNat_cond]
  have hlt := byte.toNat_lt
  have hsame : byte.toBitVec.toNat = byte.toNat := rfl
  rw [hsame]
  split <;> split <;> omega

theorem negative_iff (byte : Byte) : byte.toInt8 < 0 ↔ 128 ≤ byte.toNat := by
  rw [Int8.lt_iff_toInt_lt, toInt8_toInt]
  have hlt := byte.toNat_lt
  show (if byte.toNat < 128 then (byte.toNat : Int) else byte.toNat - 256) < 0 ↔ _
  split <;> omega

/-- The top bits of both addends differ from the top bit of the sum exactly
when the signed sum does not fit. -/
theorem sum_overflows (left right : Byte) (carry : Bool) (result : Byte)
    (hresult : result = UInt8.ofNat (left.toNat + right.toNat + carry.toNat)) :
    Predicate.eval .slt .i8 ((left ^^^ result) &&& (right ^^^ result)).toUInt16
        (0 : Byte).toUInt16 =
      Registers.overflows (left.toInt8.toInt + right.toInt8.toInt + carry.toNat) := by
  have htop (first second : Byte) : (first ^^^ second).toBitVec.msb =
      (first.toBitVec.msb != second.toBitVec.msb) := BitVec.msb_xor
  have hmsb (byte : Byte) : byte.toBitVec.msb = decide (128 ≤ byte.toNat) :=
    BitVec.msb_eq_decide _
  have hleft := left.toNat_lt
  have hright := right.toNat_lt
  have hle : carry.toNat ≤ 1 := Bool.toNat_le carry
  have hsum : result.toNat = (left.toNat + right.toNat + carry.toNat) % 256 := by
    rw [hresult]
    exact UInt8.toNat_ofNat
  have hslt : Predicate.eval .slt .i8 ((left ^^^ result) &&& (right ^^^ result)).toUInt16
      (0 : Byte).toUInt16 = ((left ^^^ result) &&& (right ^^^ result)).toBitVec.msb := by
    rw [predicate_byte]
    exact BitVec.slt_zero_eq_msb
  rw [hslt]
  show ((left ^^^ result).toBitVec &&& (right ^^^ result).toBitVec).msb = _
  rw [BitVec.msb_and, htop, htop, hmsb, hmsb, hmsb, toInt8_toInt, toInt8_toInt, Bool.eq_iff_iff]
  unfold Registers.overflows
  simp only [Bool.and_eq_true, bne_iff_ne, ne_eq, decide_eq_decide, decide_eq_true_eq]
  split <;> split <;> omega

theorem toNat_complement (byte : Byte) : (byte ^^^ 0xFF).toNat = 255 - byte.toNat := by
  have hnot : byte ^^^ 0xFF = ~~~byte := UInt8.xor_neg_one
  rw [hnot, UInt8.toNat_not]
  rfl

/-- Subtracting a byte is adding its complement. -/
theorem Registers.addWithCarry_complement (registers : Registers) (subtrahend : Byte) :
    registers.addWithCarry (subtrahend ^^^ 0xFF) = registers.subtractWithCarry subtrahend := by
  have hcomplement := toNat_complement subtrahend
  have hbyte := subtrahend.toNat_lt
  have hborrow : (!registers.c).toNat = 1 - registers.c.toNat := by
    cases registers.c <;> rfl
  have hcarry : registers.c.toNat ≤ 1 := Bool.toNat_le _
  have hsigned : (subtrahend ^^^ 0xFF).toInt8.toInt = -1 - subtrahend.toInt8.toInt := by
    rw [toInt8_toInt, toInt8_toInt, hcomplement]
    split <;> split <;> omega
  have hsum : UInt8.ofNat (registers.a.toNat + (subtrahend ^^^ 0xFF).toNat + registers.c.toNat) =
      UInt8.ofInt (registers.a.toNat - (subtrahend.toNat + (!registers.c).toNat : Nat)) := by
    rw [hcomplement, hborrow]
    unfold UInt8.ofInt
    apply UInt8.toNat_inj.mp
    rw [UInt8.toNat_ofNat', UInt8.toNat_ofNat']
    omega
  have hcarried : 256 ≤ registers.a.toNat + (subtrahend ^^^ 0xFF).toNat + registers.c.toNat ↔
      subtrahend.toNat + (!registers.c).toNat ≤ registers.a.toNat := by
    rw [hcomplement, hborrow]
    omega
  have hdifference : registers.a.toInt8.toInt + (subtrahend ^^^ 0xFF).toInt8.toInt +
      registers.c.toNat =
      registers.a.toInt8.toInt - subtrahend.toInt8.toInt - (!registers.c).toNat := by
    rw [hsigned, hborrow]
    omega
  unfold Registers.addWithCarry Registers.subtractWithCarry
  simp only [hsum, hcarried, hdifference]

/-! Tests of single bits -/

theorem testBit_seven (byte : Byte) : decide (byte.toInt8 < 0) = byte.toNat.testBit 7 := by
  have hlt := byte.toNat_lt
  rw [Nat.testBit_eq_decide_div_mod_eq, decide_eq_decide, negative_iff]
  omega

theorem testBit_six (byte : Byte) : decide (byte &&& 0x40 ≠ 0) = byte.toNat.testBit 6 := by
  have hmasked : (byte &&& 0x40).toNat = (byte.toNat.testBit 6).toNat * 2 ^ 6 := by
    rw [UInt8.toNat_and]
    exact Nat.and_two_pow byte.toNat 6
  rw [Bool.eq_iff_iff, decide_eq_true_iff, ne_eq, ← UInt8.toNat_inj, hmasked]
  cases byte.toNat.testBit 6 <;> decide

end Lift6502
