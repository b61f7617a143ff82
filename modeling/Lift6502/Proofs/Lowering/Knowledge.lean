import Lift6502.Proofs.Lowering.Tracking
import Lift6502.Proofs.Lowering.Words
import Lift6502.Proofs.Ssa.Folding

/-! What follows from facts about values while integer operations are added to
a block. The code of flags and of arithmetic is made of such operations only,
so it leaves what the machine leaves in every sense of what a value holds that
the operations respect: the datum of a run, a constant, or a word under a
valuation. -/

namespace Lift6502

open Ssa

theorem holds_byte (byte : Byte) : Ty.i8.Holds byte.toUInt16 :=
  byte.toBitVec.isLt

/-- An operation on values that the facts describe gives a word of a type. -/
inductive Yields (facts : List Fact) : Ssa.Operation → Ty → UInt16 → Prop
  | byte (value : Byte) : Yields facts (.byte value) .i8 value.toUInt16
  | word (value : Address) : Yields facts (.word value) .i16 value
  | flag (value : Bool) : Yields facts (.flag value) .i1 value.toUInt16
  | binary {lhs rhs : ValueId} {type : Ty} {left right : UInt16} (op : BinOp)
      (hlhs : ⟨lhs, type, .word left⟩ ∈ facts) (hrhs : ⟨rhs, type, .word right⟩ ∈ facts) :
      Yields facts (.binary op lhs rhs) type (op.eval type left right)
  | compare {lhs rhs : ValueId} {type : Ty} {left right : UInt16} (predicate : Predicate)
      (hlhs : ⟨lhs, type, .word left⟩ ∈ facts) (hrhs : ⟨rhs, type, .word right⟩ ∈ facts) :
      Yields facts (.compare predicate lhs rhs) .i1 (predicate.eval type left right).toUInt16
  | zext {operand : ValueId} {narrow : Ty} {bits : UInt16}
      (hoperand : ⟨operand, narrow, .word bits⟩ ∈ facts)
      (hwidth : narrow.width < Ty.i16.width) : Yields facts (.zext operand .i16) .i16 bits
  | trunc {operand : ValueId} {bits : UInt16}
      (hoperand : ⟨operand, .i16, .word bits⟩ ∈ facts) :
      Yields facts (.trunc operand .i8) .i8 bits.toUInt8.toUInt16

/-! Operations where facts agree with the function -/

/-- The fact is about a value of its type, and says of a constant what it is. -/
structure Ssa.Function.Agrees (function : Function) (fact : Fact) : Prop where
  type? : function.type? fact.id = some fact.type
  constant? : ∀ bits, function.constant? fact.id = some bits → fact.datum = .word bits
  fits : fact.datum.Fits fact.type

section Append

variable {function : Function} {id : ValueId} {type : Ty}

theorem Ssa.Function.append_value_of_type? (block : BlockId) (code : List Value)
    (htype : function.type? id = some type) :
    (function.append block code).values[id.index]? = function.values[id.index]? := by
  obtain ⟨value, hvalue, _⟩ := Option.map_eq_some_iff.mp htype
  exact function.append_value_before block code (Array.getElem?_eq_some_iff.mp hvalue).1

theorem Ssa.Function.constant?_append (block : BlockId) (code : List Value)
    (htype : function.type? id = some type) :
    (function.append block code).constant? id = function.constant? id := by
  unfold Function.constant?
  rw [Function.append_value_of_type? block code htype]

theorem Ssa.Function.Agrees.append {fact : Fact} (hagrees : function.Agrees fact)
    (block : BlockId) (code : List Value) : (function.append block code).Agrees fact := by
  have hkept := Function.append_value_of_type? block code hagrees.type?
  refine ⟨(congrArg (Option.map Value.type) hkept).trans hagrees.type?, fun bits hbits => ?_,
    hagrees.fits⟩
  rw [Function.constant?_append block code hagrees.type?] at hbits
  exact hagrees.constant? bits hbits

end Append

namespace Yields

variable {facts : List Fact} {operation : Ssa.Operation} {type : Ty} {bits : UInt16}
  {function : Function} {block : BlockId}

theorem operand (hyields : Yields facts operation type bits) :
    ∀ operand ∈ operation.inst.operands, ∃ fact ∈ facts, fact.id = operand := by
  cases hyields with
  | byte | word | flag => simp [Ssa.Operation.inst, Inst.operands]
  | binary op hlhs hrhs | compare predicate hlhs hrhs =>
      simp only [Ssa.Operation.inst, Inst.operands, List.forall_mem_cons]
      exact ⟨⟨_, hlhs, rfl⟩, ⟨_, hrhs, rfl⟩, by simp⟩
  | zext hoperand | trunc hoperand =>
      simp only [Ssa.Operation.inst, Inst.operands, List.forall_mem_cons]
      exact ⟨⟨_, hoperand, rfl⟩, by simp⟩

theorem fits (hyields : Yields facts operation type bits)
    (hagrees : ∀ fact ∈ facts, function.Agrees fact) : (Datum.word bits).Fits type := by
  cases hyields with
  | byte value => exact ⟨rfl, holds_byte value⟩
  | word => exact ⟨rfl, bits.toBitVec.isLt⟩
  | flag value =>
      rw [← ofBits_ofBool]
      exact ⟨rfl, Ty.holds_ofBits .i1 _⟩
  | binary op hlhs hrhs => exact ⟨(hagrees _ hlhs).fits.1, op.holds_eval _ _ _⟩
  | compare predicate hlhs hrhs =>
      rw [← ofBits_ofBool]
      exact ⟨rfl, Ty.holds_ofBits .i1 _⟩
  | zext hoperand hwidth => exact ⟨rfl, bits.toBitVec.isLt⟩
  | trunc hoperand => exact ⟨rfl, holds_byte _⟩

theorem hasType (hyields : Yields facts operation type bits)
    (hagrees : ∀ fact ∈ facts, function.Agrees fact) : operation.HasType function type := by
  cases hyields with
  | byte | word | flag => rfl
  | binary op hlhs hrhs =>
      exact ⟨(hagrees _ hlhs).fits.1, (hagrees _ hlhs).type?, (hagrees _ hrhs).type?⟩
  | compare predicate hlhs hrhs =>
      exact ⟨rfl, _, (hagrees _ hlhs).fits.1, (hagrees _ hlhs).type?, (hagrees _ hrhs).type?⟩
  | zext hoperand hwidth =>
      exact ⟨rfl, rfl, _, (hagrees _ hoperand).fits.1, (hagrees _ hoperand).type?, hwidth.le⟩
  | trunc hoperand => exact ⟨rfl, rfl, .i16, rfl, (hagrees _ hoperand).type?, by decide⟩

theorem typed (hyields : Yields facts operation type bits)
    (hagrees : ∀ fact ∈ facts, function.Agrees fact)
    (hconstant : operation.inst.constant? = none) (Declares : String → List Ty → Ty → Prop) :
    operation.inst.Typed function.type? Declares type := by
  cases hyields with
  | byte | word | flag => cases hconstant
  | binary op hlhs hrhs =>
      exact ⟨(hagrees _ hlhs).fits.1, (hagrees _ hlhs).type?, (hagrees _ hrhs).type?⟩
  | compare predicate hlhs hrhs =>
      exact ⟨rfl, _, (hagrees _ hlhs).fits.1, (hagrees _ hlhs).type?, (hagrees _ hrhs).type?⟩
  | zext hoperand hwidth =>
      exact ⟨rfl, _, (hagrees _ hoperand).fits.1, (hagrees _ hoperand).type?, hwidth⟩
  | trunc hoperand => exact ⟨rfl, .i16, rfl, (hagrees _ hoperand).type?, by decide⟩

/-- The instruction of an operation computes what the facts on its operands
say. -/
theorem meaning (hyields : Yields facts operation type bits)
    (hagrees : ∀ fact ∈ facts, function.Agrees fact) (words : ValueId → UInt16)
    (hwords : ∀ fact ∈ facts, fact.id ∈ operation.inst.operands →
      fact.datum = .word (words fact.id)) (given : UInt16) :
    operation.inst.meaning function.typeOf words type given = bits := by
  have hword {id : ValueId} {type : Ty} {bits : UInt16} (hfact : ⟨id, type, .word bits⟩ ∈ facts)
      (hoperand : id ∈ operation.inst.operands) : words id = bits :=
    (Datum.word.inj (hwords _ hfact hoperand)).symm
  have htype {id : ValueId} {type : Ty} {bits : UInt16} (hfact : ⟨id, type, .word bits⟩ ∈ facts) :
      function.typeOf id = type := Ssa.Operation.typeOf_eq (hagrees _ hfact).type?
  cases hyields with
  | byte value =>
      exact UInt16.toNat_inj.mp
        ((Ty.toNat_and_mask .i8 _).trans (Nat.mod_eq_of_lt (holds_byte value)))
  | word =>
      exact UInt16.toNat_inj.mp
        ((Ty.toNat_and_mask .i16 _).trans (Nat.mod_eq_of_lt bits.toBitVec.isLt))
  | flag value => cases value <;> rfl
  | binary op hlhs hrhs =>
      rw [← hword hlhs (.head _), ← hword hrhs (.tail _ (.head _))]
      rfl
  | compare predicate hlhs hrhs =>
      rw [← hword hlhs (.head _), ← hword hrhs (.tail _ (.head _)), ← htype hlhs,
        ← ofBits_ofBool]
      rfl
  | zext hoperand hwidth =>
      have hholds := (hagrees _ hoperand).fits.2
      show ofBits (((function.typeOf _).bits (words _)).setWidth Ty.i16.width) = bits
      rw [htype hoperand, hword hoperand (.head _), Ty.zext_eq hholds hwidth.le]
  | trunc hoperand =>
      rw [← hword hoperand (.head _)]
      rfl

/-- An operation can be added wherever the facts agree with the function. It is
an instruction of its own unless it is a constant. -/
theorem build (hyields : Yields facts operation type bits)
    (hagrees : ∀ fact ∈ facts, function.Agrees fact)
    (hblock : block.index < function.blocks.size) :
    ∃ inst, operation.build block function =
        .ok (⟨function.values.size⟩, function.append block [⟨inst, type, none⟩]) ∧
      (inst = operation.inst ∧ inst.constant? = none ∨ inst = .const bits) ∧
      ∀ fact ∈ ⟨⟨function.values.size⟩, type, .word bits⟩ :: facts,
        (function.append block [⟨inst, type, none⟩]).Agrees fact := by
  have hconstants : ∀ operand ∈ operation.inst.operands, ∀ type bits,
      function.type? operand = some type → function.constant? operand = some bits →
        type.Holds bits := by
    intro operand hoperand type bits htype hbits
    obtain ⟨fact, hfact, rfl⟩ := hyields.operand operand hoperand
    have hfits := (hagrees fact hfact).fits
    rw [(hagrees fact hfact).constant? bits hbits] at hfits
    cases htype.symm.trans (hagrees fact hfact).type?
    exact hfits.2
  obtain ⟨inst, hbuild, hbecomes⟩ :=
    (hyields.hasType hagrees).builds_of_constants hblock hconstants
  have hinst : inst = operation.inst ∧ inst.constant? = none ∨ inst = .const bits := by
    rcases hbecomes with rfl | ⟨hoperands, hconst⟩
    · cases hconstant : operation.inst.constant? with
      | none => exact .inl ⟨rfl, rfl⟩
      | some found =>
          have hconst : operation.inst = .const found := Inst.eq_const_of_constant? hconstant
          have hmeaning := hyields.meaning hagrees (fun _ => 0)
            (fun _ _ hoperand => by rw [hconst] at hoperand; cases hoperand) 0
          rw [hconst] at hmeaning ⊢
          exact .inr (congrArg Inst.const hmeaning)
    · rw [hconst, hyields.meaning hagrees _ ?_]
      · exact .inr rfl
      · intro fact hfact hoperand
        obtain ⟨bits, hbits⟩ := Option.isSome_iff_exists.mp (hoperands fact.id hoperand)
        rw [hbits]
        exact (hagrees fact hfact).constant? bits hbits
  have hentry : (function.append block [⟨inst, type, none⟩]).values[function.values.size]? =
      some ⟨inst, type, none⟩ := function.append_value_within block _ 0
  refine ⟨inst, hbuild, hinst, List.forall_mem_cons.mpr ⟨⟨?_, ?_, hyields.fits hagrees⟩,
    fun fact hfact => (hagrees fact hfact).append block _⟩⟩
  · exact congrArg (Option.map Value.type) hentry
  · intro found hfound
    have hconstant : inst.constant? = some found := by
      unfold Function.constant? at hfound
      rwa [hentry] at hfound
    rcases hinst with ⟨_, hnone⟩ | rfl
    · cases hnone.symm.trans hconstant
    · cases hconstant
      rfl

end Yields

/-! Senses of knowing -/

/-- The step adds to the code, gives a result, and leaves the registers. -/
def Ssa.Function.Builds {α : Type} (start : Function) (block : BlockId) (step : Lowering α)
    (code : List Value) (result : α) (code' : List Value) : Prop :=
  ∀ values, step (start.frame block code values) = .ok (result, start.frame block code' values)

theorem Ssa.Function.Builds.of_build {α : Type} {start : Function} {block : BlockId}
    {step : BlockId → Builder α} {code code' : List Value} {result : α}
    (hstep : step block (start.append block code) = .ok (result, start.append block code')) :
    start.Builds block (Lowering.build step) code result code' := by
  intro values
  unfold Lowering.build Function.frame
  simp only [hstep]

/-- A sense in which facts are known of the values of a function to which code
has been added. -/
structure Knowledge (start : Function) (block : BlockId) where
  Knows : List Value → List Fact → Prop
  weaken : ∀ {code : List Value} {facts fewer : List Fact}, Knows code facts →
    (∀ fact ∈ fewer, fact ∈ facts) → Knows code fewer
  operate : ∀ {code : List Value} {facts : List Fact} {operation : Ssa.Operation} {type : Ty}
    {bits : UInt16}, Knows code facts → Yields facts operation type bits →
    ∃ id code', start.Builds block (Lowering.build operation.build) code id code' ∧
      Knows code' (⟨id, type, .word bits⟩ :: facts)

namespace Knowledge

variable {start : Function} {block : BlockId} {knowledge : Knowledge start block}
  {code : List Value} {facts : List Fact} {values : PerRegister ValueId}

/-! Steps -/

section Steps

variable (hknows : knowledge.Knows code facts)

include hknows

theorem byte (value : Byte) :
    ∃ id code', start.Builds block (Lowering.byte value) code id code' ∧
      knowledge.Knows code' (⟨id, .i8, .word value.toUInt16⟩ :: facts) :=
  knowledge.operate hknows (.byte value)

theorem word (value : Address) :
    ∃ id code', start.Builds block (Lowering.word value) code id code' ∧
      knowledge.Knows code' (⟨id, .i16, .word value⟩ :: facts) :=
  knowledge.operate hknows (.word value)

theorem flag (value : Bool) :
    ∃ id code', start.Builds block (Lowering.flag value) code id code' ∧
      knowledge.Knows code' (⟨id, .i1, .word value.toUInt16⟩ :: facts) :=
  knowledge.operate hknows (.flag value)

variable {lhs rhs operand : ValueId} {type narrow : Ty} {left right bits : UInt16}

theorem binary (op : BinOp) (hlhs : ⟨lhs, type, .word left⟩ ∈ facts)
    (hrhs : ⟨rhs, type, .word right⟩ ∈ facts) :
    ∃ id code', start.Builds block (Lowering.binary op lhs rhs) code id code' ∧
      knowledge.Knows code' (⟨id, type, .word (op.eval type left right)⟩ :: facts) :=
  knowledge.operate hknows (.binary op hlhs hrhs)

theorem compare (predicate : Predicate) (hlhs : ⟨lhs, type, .word left⟩ ∈ facts)
    (hrhs : ⟨rhs, type, .word right⟩ ∈ facts) :
    ∃ id code', start.Builds block (Lowering.compare predicate lhs rhs) code id code' ∧
      knowledge.Knows code'
        (⟨id, .i1, .word (predicate.eval type left right).toUInt16⟩ :: facts) :=
  knowledge.operate hknows (.compare predicate hlhs hrhs)

theorem zext (hoperand : ⟨operand, narrow, .word bits⟩ ∈ facts)
    (hwidth : narrow.width < Ty.i16.width) :
    ∃ id code', start.Builds block (Lowering.zext operand) code id code' ∧
      knowledge.Knows code' (⟨id, .i16, .word bits⟩ :: facts) :=
  knowledge.operate hknows (.zext hoperand hwidth)

theorem trunc (hoperand : ⟨operand, .i16, .word bits⟩ ∈ facts) :
    ∃ id code', start.Builds block (Lowering.trunc operand) code id code' ∧
      knowledge.Knows code' (⟨id, .i8, .word bits.toUInt8.toUInt16⟩ :: facts) :=
  knowledge.operate hknows (.trunc hoperand)

end Steps

theorem getByte_frame (register : ByteRegister) :
    Lowering.getByte register (start.frame block code values) =
      .ok (values.get (.byte register), start.frame block code values) := rfl

theorem getFlag_frame (flag : Flag) :
    Lowering.getFlag flag (start.frame block code values) =
      .ok (values.get (.flag flag), start.frame block code values) := rfl

theorem setByte_frame (register : ByteRegister) (id : ValueId) :
    Lowering.setByte register id (start.frame block code values) =
      .ok ((), start.frame block code (values.set (.byte register) id)) := rfl

theorem setFlag_frame (flag : Flag) (id : ValueId) :
    Lowering.setFlag flag id (start.frame block code values) =
      .ok ((), start.frame block code (values.set (.flag flag) id)) := rfl

/-! Flags and sums -/

theorem setNZ {id : ValueId} {content : Byte} (hknows : knowledge.Knows code facts)
    (hvalue : ⟨id, .i8, .word content.toUInt16⟩ ∈ facts) (values : PerRegister ValueId) :
    ∃ negative isZero code',
      Lowering.setNZ id (start.frame block code values) =
        .ok ((), start.frame block code' { values with n := negative, z := isZero }) ∧
      knowledge.Knows code' (⟨isZero, .i1, .word (decide (content = 0)).toUInt16⟩ ::
        ⟨negative, .i1, .word (decide (content.toInt8 < 0)).toUInt16⟩ :: facts) := by
  obtain ⟨zero, code₁, hzero, hknows₁⟩ := byte hknows 0
  obtain ⟨negative, code₂, hnegative, hknows₂⟩ := compare hknows₁ .slt (.tail _ hvalue) (.head _)
  obtain ⟨isZero, code₃, hisZero, hknows₃⟩ := compare hknows₂ .eq
    (.tail _ (.tail _ hvalue)) (.tail _ (.head _))
  rw [negative_byte, equal_byte] at hknows₃
  refine ⟨negative, isZero, code₃, ?_, knowledge.weaken hknows₃ ?_⟩
  · unfold Lowering.setNZ
    rw [StateT.bind_of_ok (hzero values), StateT.bind_of_ok (hnegative values),
      StateT.bind_of_ok (hisZero values), StateT.bind_of_ok (setFlag_frame .n negative)]
    rfl
  · simp only [List.forall_mem_cons]
    exact ⟨.head _, .tail _ (.head _), fun _ hfact => List.mem_append_right [_, _, _] hfact⟩

/-- The values that an addition puts into the registers. -/
structure Outputs where
  result : ValueId
  carry : ValueId
  overflow : ValueId
  negative : ValueId
  isZero : ValueId

namespace Outputs

def into (outputs : Outputs) (values : PerRegister ValueId) : PerRegister ValueId :=
  { values with
    a := outputs.result
    n := outputs.negative
    v := outputs.overflow
    z := outputs.isZero
    c := outputs.carry }

/-- What the outputs hold when the machine has `registers` after the addition. -/
def holding (outputs : Outputs) (registers : Registers) : List Fact :=
  [⟨outputs.isZero, .i1, .word registers.z.toUInt16⟩,
    ⟨outputs.negative, .i1, .word registers.n.toUInt16⟩,
    ⟨outputs.overflow, .i1, .word registers.v.toUInt16⟩,
    ⟨outputs.carry, .i1, .word registers.c.toUInt16⟩,
    ⟨outputs.result, .i8, .word registers.a.toUInt16⟩]

end Outputs

section Sums

variable {id : ValueId} {content : Byte} {registers : Registers}

theorem addWithCarry (hknows : knowledge.Knows code facts)
    (haccumulator : ⟨values.get (.byte .a), .i8, .word registers.a.toUInt16⟩ ∈ facts)
    (haddend : ⟨id, .i8, .word content.toUInt16⟩ ∈ facts)
    (hcarryIn : ⟨values.get (.flag .c), .i1, .word registers.c.toUInt16⟩ ∈ facts) :
    ∃ outputs : Outputs, ∃ code',
      Lowering.addWithCarry id (start.frame block code values) =
        .ok ((), start.frame block code' (outputs.into values)) ∧
      knowledge.Knows code' (outputs.holding (registers.addWithCarry content) ++ facts) := by
  obtain ⟨wideAccumulator, code₁, hwideAccumulator, hknows₁⟩ :=
    zext hknows haccumulator (by decide)
  obtain ⟨wideAddend, code₂, hwideAddend, hknows₂⟩ :=
    zext hknows₁ (.tail _ haddend) (by decide)
  obtain ⟨wideCarry, code₃, hwideCarry, hknows₃⟩ :=
    zext hknows₂ (.tail _ (.tail _ hcarryIn)) (by decide)
  obtain ⟨partialSum, code₄, hpartialSum, hknows₄⟩ :=
    binary hknows₃ .add (.tail _ (.tail _ (.head _))) (.tail _ (.head _))
  obtain ⟨sum, code₅, hsum, hknows₅⟩ := binary hknows₄ .add (.head _) (.tail _ (.head _))
  rw [eval_add_word, eval_add_word] at hknows₅
  obtain ⟨byteMax, code₆, hbyteMax, hknows₆⟩ := word hknows₅ 0xFF
  obtain ⟨carry, code₇, hcarry, hknows₇⟩ := compare hknows₆ .ugt (.tail _ (.head _)) (.head _)
  obtain ⟨result, code₈, hresult, hknows₈⟩ := trunc hknows₇ (.tail _ (.tail _ (.head _)))
  rw [sum_carries, sum_byte] at hknows₈
  -- Of what has been computed, only the result and the carry are used from here on.
  have hknows₈ := knowledge.weaken hknows₈
    (List.forall_mem_cons.mpr ⟨.head _, List.forall_mem_cons.mpr ⟨.tail _ (.head _),
      fun _ hfact => List.mem_append_right [_, _, _, _, _, _, _, _] hfact⟩⟩)
  obtain ⟨fromAccumulator, code₉, hfromAccumulator, hknows₉⟩ :=
    binary hknows₈ .xor (.tail _ (.tail _ haccumulator)) (.head _)
  obtain ⟨fromAddend, code₁₀, hfromAddend, hknows₁₀⟩ :=
    binary hknows₉ .xor (.tail _ (.tail _ (.tail _ haddend))) (.tail _ (.head _))
  obtain ⟨fromBoth, code₁₁, hfromBoth, hknows₁₁⟩ :=
    binary hknows₁₀ .and (.tail _ (.head _)) (.head _)
  obtain ⟨zero, code₁₂, hzero, hknows₁₂⟩ := byte hknows₁₁ 0
  obtain ⟨overflow, code₁₃, hoverflow, hknows₁₃⟩ :=
    compare hknows₁₂ .slt (.tail _ (.head _)) (.head _)
  rw [eval_xor_byte, eval_xor_byte, eval_and_byte, sum_overflows _ _ _ _ rfl] at hknows₁₃
  obtain ⟨negative, isZero, code', hsetNZ, hknows'⟩ := setNZ hknows₁₃
    (List.mem_append_right [_, _, _, _, _] (.head _))
    { values with a := result, v := overflow, c := carry }
  refine ⟨⟨result, carry, overflow, negative, isZero⟩, code', ?_, knowledge.weaken hknows' ?_⟩
  · unfold Lowering.addWithCarry
    rw [StateT.bind_of_ok (getByte_frame .a), StateT.bind_of_ok (hwideAccumulator values),
      StateT.bind_of_ok (hwideAddend values), StateT.bind_of_ok (getFlag_frame .c),
      StateT.bind_of_ok (hwideCarry values), StateT.bind_of_ok (hpartialSum values),
      StateT.bind_of_ok (hsum values), StateT.bind_of_ok (hbyteMax values),
      StateT.bind_of_ok (hcarry values), StateT.bind_of_ok (hresult values),
      StateT.bind_of_ok (hfromAccumulator values), StateT.bind_of_ok (hfromAddend values),
      StateT.bind_of_ok (hfromBoth values), StateT.bind_of_ok (hzero values),
      StateT.bind_of_ok (hoverflow values), StateT.bind_of_ok (setByte_frame .a result),
      StateT.bind_of_ok (setFlag_frame .c carry),
      StateT.bind_of_ok (setFlag_frame .v overflow)]
    exact hsetNZ
  · simp only [Outputs.holding, List.cons_append, List.nil_append, List.forall_mem_cons]
    exact ⟨.head _, .tail _ (.head _), List.mem_append_right [_, _] (.head _),
      List.mem_append_right [_, _, _, _, _, _, _, _] (.head _),
      List.mem_append_right [_, _, _, _, _, _, _] (.head _),
      fun _ hfact => List.mem_append_right [_, _, _, _, _, _, _, _, _] hfact⟩

theorem subtractWithCarry (hknows : knowledge.Knows code facts)
    (haccumulator : ⟨values.get (.byte .a), .i8, .word registers.a.toUInt16⟩ ∈ facts)
    (hsubtrahend : ⟨id, .i8, .word content.toUInt16⟩ ∈ facts)
    (hcarryIn : ⟨values.get (.flag .c), .i1, .word registers.c.toUInt16⟩ ∈ facts) :
    ∃ outputs : Outputs, ∃ code',
      Lowering.subtractWithCarry id (start.frame block code values) =
        .ok ((), start.frame block code' (outputs.into values)) ∧
      knowledge.Knows code'
        (outputs.holding (registers.subtractWithCarry content) ++ facts) := by
  obtain ⟨ones, code₁, hones, hknows₁⟩ := byte hknows 0xFF
  obtain ⟨complement, code₂, hcomplement, hknows₂⟩ :=
    binary hknows₁ .xor (.tail _ hsubtrahend) (.head _)
  rw [eval_xor_byte] at hknows₂
  obtain ⟨outputs, code', hadd, hknows'⟩ := addWithCarry hknows₂
    (.tail _ (.tail _ haccumulator)) (.head _) (.tail _ (.tail _ hcarryIn))
  rw [Registers.addWithCarry_complement] at hknows'
  refine ⟨outputs, code', ?_, knowledge.weaken hknows' fun fact hfact => ?_⟩
  · unfold Lowering.subtractWithCarry
    rw [StateT.bind_of_ok (hones values), StateT.bind_of_ok (hcomplement values)]
    exact hadd
  · rcases List.mem_append.mp hfact with hfact | hfact
    · exact List.mem_append_left _ hfact
    · exact List.mem_append_right _ (.tail _ (.tail _ hfact))

end Sums

end Knowledge

end Lift6502
