import Lift6502.Proofs.General
import Lift6502.Ssa.Evaluation

/-! Folding of constants agrees with the meaning of the operations on bit
vectors of the width of their type. -/

namespace Lift6502.Ssa

namespace Ty

def isInteger : Ty → Bool
  | .i1 | .i8 | .i16 => true
  | .void | .regs => false

def Holds (type : Ty) (bits : UInt16) : Prop :=
  bits.toNat < 2 ^ type.width

theorem width_le (type : Ty) : type.width ≤ 16 := by
  cases type <;> decide

end Ty

theorem toNat_ofBits {width : Nat} (hwidth : width ≤ 16) (bits : BitVec width) :
    (ofBits bits).toNat = bits.toNat := by
  show (bits.setWidth 16).toNat = _
  exact BitVec.toNat_setWidth_of_le hwidth

theorem Ty.toNat_bits (type : Ty) (word : UInt16) :
    (type.bits word).toNat = word.toNat % 2 ^ type.width :=
  BitVec.toNat_setWidth _ _

theorem Ty.holds_ofBits (type : Ty) (bits : BitVec type.width) : type.Holds (ofBits bits) := by
  unfold Ty.Holds
  rw [toNat_ofBits type.width_le]
  exact bits.isLt

theorem Ty.toNat_bits_of_holds {type : Ty} {word : UInt16} (hholds : type.Holds word) :
    (type.bits word).toNat = word.toNat := by
  rw [Ty.toNat_bits, Nat.mod_eq_of_lt hholds]

theorem Ty.toNat_and_mask (type : Ty) (word : UInt16) :
    (word &&& type.mask).toNat = word.toNat % 2 ^ type.width := by
  rw [UInt16.toNat_and]
  cases type with
  | void | regs => exact (Nat.and_zero _).trans (Nat.mod_one _).symm
  | i1 => exact Nat.and_two_pow_sub_one_eq_mod word.toNat 1
  | i8 => exact Nat.and_two_pow_sub_one_eq_mod word.toNat 8
  | i16 => exact Nat.and_two_pow_sub_one_eq_mod word.toNat 16

theorem Ty.and_mask (type : Ty) (word : UInt16) :
    word &&& type.mask = ofBits (type.bits word) := by
  apply UInt16.toNat_inj.mp
  rw [toNat_ofBits type.width_le, Ty.toNat_bits, Ty.toNat_and_mask]

theorem Ty.bits_ofBits (type : Ty) (bits : BitVec type.width) :
    type.bits (ofBits bits) = bits := by
  apply BitVec.eq_of_toNat_eq
  rw [Ty.toNat_bits, toNat_ofBits type.width_le, Nat.mod_eq_of_lt bits.isLt]

theorem Ty.bits_and_mask (type : Ty) (word : UInt16) :
    type.bits (word &&& type.mask) = type.bits word := by
  rw [Ty.and_mask, Ty.bits_ofBits]

/-! Operations -/

def BinOp.eval (op : BinOp) (type : Ty) (lhs rhs : UInt16) : UInt16 :=
  ofBits (op.denote (type.bits lhs) (type.bits rhs))

def Predicate.eval (predicate : Predicate) (type : Ty) (lhs rhs : UInt16) : Bool :=
  predicate.denote (type.bits lhs) (type.bits rhs)

theorem BinOp.holds_eval (op : BinOp) (type : Ty) (lhs rhs : UInt16) :
    type.Holds (op.eval type lhs rhs) :=
  type.holds_ofBits _

theorem shl_bits {type : Ty} {amount : UInt16} (word : UInt16) (hamount : type.Holds amount) :
    type.bits (BinOp.apply .shl word amount) = type.bits word <<< type.bits amount := by
  -- Shifting all bits out leaves nothing, so that a shift by more than the width is one of 16
  -- bits too.
  rw [BitVec.shiftLeft_eq', Ty.toNat_bits_of_holds hamount]
  show type.bits (if amount < 16 then word <<< amount else 0) = _
  by_cases hsmall : amount < 16
  · have hlt : amount.toNat < 16 := hsmall
    rw [if_pos hsmall]
    unfold Ty.bits
    rw [UInt16.toBitVec_shiftLeft, BitVec.shiftLeft_eq', BitVec.toNat_umod,
      ← BitVec.setWidth_shiftLeft_of_le type.width_le]
    show (word.toBitVec <<< (amount.toNat % 16)).setWidth _ = _
    rw [Nat.mod_eq_of_lt hlt]
  · have hge : 16 ≤ amount.toNat := Nat.le_of_not_lt hsmall
    have hwidth := type.width_le
    rw [if_neg hsmall, BitVec.shiftLeft_eq_zero (by omega)]
    apply BitVec.eq_of_toNat_eq
    rw [Ty.toNat_bits]
    simp

theorem BinOp.bits_apply {type : Ty} (op : BinOp) {lhs rhs : UInt16} (hrhs : type.Holds rhs) :
    type.bits (op.apply lhs rhs) = op.denote (type.bits lhs) (type.bits rhs) := by
  cases op with
  | add => exact BitVec.setWidth_add lhs.toBitVec rhs.toBitVec type.width_le
  | sub =>
      have hneg : (-rhs.toBitVec).setWidth type.width = -(rhs.toBitVec.setWidth type.width) :=
        BitVec.setWidth_neg_of_le type.width_le
      show (lhs.toBitVec - rhs.toBitVec).setWidth type.width = _ - _
      rw [BitVec.sub_eq_add_neg, BitVec.setWidth_add _ _ type.width_le, hneg,
        ← BitVec.sub_eq_add_neg]
      rfl
  | and => exact BitVec.setWidth_and
  | or => exact BitVec.setWidth_or
  | xor => exact BitVec.setWidth_xor
  | shl => exact shl_bits lhs hrhs

/-- Folding two constants gives the result of the operation. -/
theorem BinOp.fold_eq_eval {type : Ty} (op : BinOp) {lhs rhs : UInt16}
    (hrhs : type.Holds rhs) :
    op.fold type lhs rhs = op.eval type lhs rhs := by
  unfold BinOp.fold BinOp.eval
  rw [Ty.and_mask, BinOp.bits_apply op hrhs]

theorem Ty.signed_eq {type : Ty} (hinteger : type.isInteger = true) (word : UInt16) :
    type.signed word = (type.bits word).toInt := by
  have hmasked := type.toNat_and_mask word
  have hbit : (word &&& type.mask) &&& type.signBit = 0 ↔
      2 * (word.toNat % 2 ^ type.width) < 2 ^ type.width := by
    rw [← UInt16.toNat_inj, UInt16.toNat_and, hmasked]
    cases type with
    | void | regs => cases hinteger
    | i1 => exact Nat.mod_and_two_pow_eq_zero_iff word.toNat 0
    | i8 => exact Nat.mod_and_two_pow_eq_zero_iff word.toNat 7
    | i16 => exact Nat.mod_and_two_pow_eq_zero_iff word.toNat 15
  have hmask : type.mask.toNat + 1 = 2 ^ type.width := by
    cases type with
    | void | regs => cases hinteger
    | i1 | i8 | i16 => rfl
  unfold Ty.signed
  rw [BitVec.toInt_eq_toNat_cond, Ty.toNat_bits]
  simp only [hbit]
  split
  · rw [hmasked]
  · rw [hmasked, ← hmask]
    simp

theorem Predicate.fold_eq_eval {type : Ty} (predicate : Predicate)
    (hinteger : type.isInteger = true) (lhs rhs : UInt16) :
    predicate.fold type lhs rhs = predicate.eval type lhs rhs := by
  have hinj : lhs &&& type.mask = rhs &&& type.mask ↔ type.bits lhs = type.bits rhs := by
    constructor
    · intro heq
      rw [← Ty.bits_and_mask type lhs, heq, Ty.bits_and_mask]
    · intro heq
      rw [Ty.and_mask, heq, ← Ty.and_mask]
  have htoNat (word : UInt16) : (word &&& type.mask).toNat = (type.bits word).toNat := by
    rw [Ty.and_mask, toNat_ofBits type.width_le]
  have hsigned (word : UInt16) : type.signed (word &&& type.mask) = (type.bits word).toInt := by
    rw [Ty.signed_eq hinteger, Ty.bits_and_mask]
  rw [Bool.eq_iff_iff]
  unfold Predicate.fold Predicate.eval Predicate.denote
  cases predicate with
  | eq => simp only [beq_iff_eq, hinj]
  | ne => simp only [bne_iff_ne, ne_eq, hinj]
  | slt => simp only [decide_eq_true_eq, hsigned, BitVec.slt]
  | uge => simp only [decide_eq_true_eq, UInt16.le_iff_toNat_le, htoNat, BitVec.ule]
  | ugt => simp only [decide_eq_true_eq, UInt16.lt_iff_toNat_lt, htoNat, BitVec.ult]

theorem ofBits_ofBool (flag : Bool) : ofBits (BitVec.ofBool flag) = flag.toUInt16 := by
  cases flag <;> rfl

theorem Ty.zext_eq {narrow wide : Ty} {word : UInt16} (hword : narrow.Holds word)
    (hwidth : narrow.width ≤ wide.width) :
    ofBits ((narrow.bits word).setWidth wide.width) = word := by
  apply UInt16.toNat_inj.mp
  rw [toNat_ofBits wide.width_le, BitVec.toNat_setWidth_of_le hwidth,
    Ty.toNat_bits_of_holds hword]

end Lift6502.Ssa
