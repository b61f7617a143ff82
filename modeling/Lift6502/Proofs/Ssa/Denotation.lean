import Lift6502.Proofs.Ssa.Construction
import Lift6502.Proofs.Ssa.Typing

/-! The number that a value of a function stands for, given those of the values
that no integer operation computes. -/

namespace Lift6502.Ssa

/-! Operations on numbers -/

/-- The result of an operation on numbers of a width. -/
def BinOp.onNat (op : BinOp) (width lhs rhs : Nat) : Nat :=
  match op with
  | .add => (lhs + rhs) % 2 ^ width
  | .sub => (lhs + (2 ^ width - rhs)) % 2 ^ width
  | .and => lhs &&& rhs
  | .or => lhs ||| rhs
  | .xor => lhs ^^^ rhs
  | .shl => if rhs < width then lhs * 2 ^ rhs % 2 ^ width else 0

/-- The signed number with the bits of a number of a width. -/
def twosComplement (width number : Nat) : Int :=
  if 2 * number < 2 ^ width then number else number - 2 ^ width

/-- Whether a predicate holds of numbers of a width. -/
def Predicate.onNat (predicate : Predicate) (width lhs rhs : Nat) : Bool :=
  match predicate with
  | .eq => lhs = rhs
  | .ne => lhs ≠ rhs
  | .slt => twosComplement width lhs < twosComplement width rhs
  | .uge => rhs ≤ lhs
  | .ugt => rhs < lhs

namespace Ty

theorem holds_of_le_mask {type : Ty} {word : UInt16} (hle : word ≤ type.mask) :
    type.Holds word := by
  have hmask : type.mask.toNat < 2 ^ type.width := by cases type <;> decide
  exact Nat.lt_of_le_of_lt hle hmask

variable {type : Ty} {word : UInt16}

theorem toInt_bits_of_holds (hword : type.Holds word) :
    (type.bits word).toInt = twosComplement type.width word.toNat := by
  rw [BitVec.toInt_eq_toNat_cond, toNat_bits_of_holds hword]
  unfold twosComplement
  push_cast
  rfl

end Ty

section Numbers

variable {type : Ty} {lhs rhs : UInt16}

theorem BinOp.toNat_eval (op : BinOp) (hlhs : type.Holds lhs) (hrhs : type.Holds rhs) :
    (op.eval type lhs rhs).toNat = op.onNat type.width lhs.toNat rhs.toNat := by
  have hl := Ty.toNat_bits_of_holds hlhs
  have hr := Ty.toNat_bits_of_holds hrhs
  unfold BinOp.eval
  rw [toNat_ofBits type.width_le]
  cases op with
  | add => exact (BitVec.toNat_add _ _).trans (by rw [hl, hr]; rfl)
  | sub => exact (BitVec.toNat_sub' _ _).trans (by rw [hl, hr]; rfl)
  | and => exact (BitVec.toNat_and _ _).trans (by rw [hl, hr]; rfl)
  | or => exact (BitVec.toNat_or _ _).trans (by rw [hl, hr]; rfl)
  | xor => exact (BitVec.toNat_xor _ _).trans (by rw [hl, hr]; rfl)
  | shl =>
      have hshift : (BinOp.denote .shl (type.bits lhs) (type.bits rhs)).toNat =
          lhs.toNat * 2 ^ rhs.toNat % 2 ^ type.width := by
        show (type.bits lhs <<< type.bits rhs).toNat = _
        rw [BitVec.shiftLeft_eq', BitVec.toNat_shiftLeft, hl, hr, Nat.shiftLeft_eq]
      rw [hshift]
      show _ = if rhs.toNat < type.width then _ else 0
      split
      · rfl
      · next hwide =>
          exact Nat.mod_eq_zero_of_dvd
            (Nat.dvd_trans (Nat.pow_dvd_pow 2 (Nat.le_of_not_lt hwide)) (Nat.dvd_mul_left _ _))

theorem Predicate.eval_eq_onNat (predicate : Predicate) (hlhs : type.Holds lhs)
    (hrhs : type.Holds rhs) :
    predicate.eval type lhs rhs = predicate.onNat type.width lhs.toNat rhs.toNat := by
  have hl := Ty.toNat_bits_of_holds hlhs
  have hr := Ty.toNat_bits_of_holds hrhs
  have heq : type.bits lhs = type.bits rhs ↔ lhs.toNat = rhs.toNat := by
    rw [← BitVec.toNat_inj, hl, hr]
  rw [Bool.eq_iff_iff]
  unfold Predicate.eval Predicate.denote Predicate.onNat
  cases predicate with
  | eq => simp only [beq_iff_eq, decide_eq_true_eq, heq]
  | ne => simp only [bne_iff_ne, decide_eq_true_eq, ne_eq, heq]
  | slt =>
      simp only [BitVec.slt, decide_eq_true_eq, Ty.toInt_bits_of_holds hlhs,
        Ty.toInt_bits_of_holds hrhs]
  | uge => simp only [BitVec.ule, decide_eq_true_eq, hl, hr]
  | ugt => simp only [BitVec.ult, decide_eq_true_eq, hl, hr]

end Numbers

/-! The meaning of instructions -/

/-- The word that an instruction computes from those of its operands, or the
one that is given if it is no integer operation. -/
def Inst.meaning (typeOf : ValueId → Ty) (words : ValueId → UInt16) (type : Ty)
    (given : UInt16) : Inst → UInt16
  | .const bits => bits
  | .binary op lhs rhs => op.eval type (words lhs) (words rhs)
  | .compare predicate lhs rhs =>
      ofBits (BitVec.ofBool (predicate.eval (typeOf lhs) (words lhs) (words rhs)))
  | .zext operand => ofBits (((typeOf operand).bits (words operand)).setWidth type.width)
  | .trunc operand => ofBits (type.bits (words operand))
  | .param _ | .phi _ | .load .. | .store .. | .call .. | .makeRegs _ | .extractReg .. => given

section Meaning

variable {typeOf typeOf' : ValueId → Ty} {words words' : ValueId → UInt16} {type : Ty}
  {given given' : UInt16} {inst : Inst}

theorem Inst.meaning_of_isGiven (hgiven : inst.isGiven = true) :
    inst.meaning typeOf words type given = given := by
  cases inst <;> first | rfl | cases hgiven

theorem Inst.meaning_congr (hcomputed : inst.isGiven = false)
    (htypes : ∀ id ∈ inst.operands, typeOf id = typeOf' id)
    (hwords : ∀ id ∈ inst.operands, words id = words' id) :
    inst.meaning typeOf words type given = inst.meaning typeOf' words' type given' := by
  cases inst with
  | const bits => rfl
  | binary op lhs rhs =>
      simp only [operands, List.forall_mem_cons] at hwords
      simp only [meaning, hwords]
  | compare predicate lhs rhs =>
      simp only [operands, List.forall_mem_cons] at htypes hwords
      simp only [meaning, htypes, hwords]
  | zext operand =>
      simp only [operands, List.forall_mem_cons] at htypes hwords
      simp only [meaning, hwords]
      rw [htypes.1]
  | trunc operand =>
      simp only [operands, List.forall_mem_cons] at hwords
      simp only [meaning, hwords]
  | param | phi | load | store | call | makeRegs | extractReg => cases hcomputed

/-- A running function computes the meaning of the instruction. -/
theorem Activation.pure?_eq_meaning {activation : Activation} {locals : Locals}
    (hcomputed : inst.isGiven = false)
    (htypes : ∀ id ∈ inst.operands, activation.type? id = some (typeOf id))
    (hwords : ∀ id ∈ inst.operands, activation.word? locals id = some (words id))
    (hbinary : ∀ op lhs rhs, inst = .binary op lhs rhs → typeOf lhs = type) :
    activation.pure? locals type inst =
      some (.word (inst.meaning typeOf words type given)) := by
  cases inst with
  | const bits => rfl
  | binary op lhs rhs =>
      cases hbinary op lhs rhs rfl
      simp only [Inst.operands, List.forall_mem_cons] at htypes hwords
      simp [pure?, htypes, hwords, Inst.meaning, BinOp.eval]
  | compare predicate lhs rhs =>
      simp only [Inst.operands, List.forall_mem_cons] at htypes hwords
      simp [pure?, htypes, hwords, Inst.meaning, Predicate.eval]
  | zext operand =>
      simp only [Inst.operands, List.forall_mem_cons] at htypes hwords
      simp [pure?, htypes, hwords, Inst.meaning]
  | trunc operand =>
      simp only [Inst.operands, List.forall_mem_cons] at hwords
      simp [pure?, hwords, Inst.meaning]
  | param | phi | load | store | call | makeRegs | extractReg => cases hcomputed

end Meaning

namespace Function

def typeOf (function : Function) (id : ValueId) : Ty :=
  (function.type? id).getD .void

def width (function : Function) (id : ValueId) : Nat :=
  (function.typeOf id).width

def constant? (function : Function) (id : ValueId) : Option UInt16 :=
  function.values[id.index]?.bind fun value => value.inst.constant?

def word (function : Function) (given : ValueId → UInt16) (id : ValueId) : UInt16 :=
  match function.values[id.index]? with
  | none => given id
  | some value =>
      value.inst.meaning function.typeOf
        (fun operand => if operand.index < id.index then function.word given operand else 0)
        value.type (given id)
termination_by id.index

def number (function : Function) (given : ValueId → UInt16) (id : ValueId) : Nat :=
  (function.word given id).toNat

/-- The given words are ones of the types of their values. -/
def Fits (function : Function) (given : ValueId → UInt16) : Prop :=
  ∀ (id : ValueId) (value : Value), function.values[id.index]? = some value →
    value.inst.isGiven = true → value.type.isInteger = true → value.type.Holds (given id)

end Function

theorem Value.Computed.operand_lt {size : Nat} {value : Value} (hcomputed : value.Computed size) :
    ∀ operand ∈ value.inst.operands, operand.index < size := by
  obtain ⟨inst, type, name⟩ := value
  cases inst with
  | const bits => simp [Inst.operands]
  | binary op lhs rhs => simpa [Inst.operands, Value.Computed] using hcomputed
  | compare predicate lhs rhs => simpa [Inst.operands] using hcomputed.2
  | zext operand => simpa [Inst.operands, Value.Computed] using hcomputed
  | trunc operand => simpa [Inst.operands, Value.Computed] using hcomputed
  | param | phi | load | store | call | makeRegs | extractReg => cases hcomputed

theorem Value.Computed.isGiven_eq {size : Nat} {value : Value}
    (hcomputed : value.Computed size) : value.inst.isGiven = false := by
  obtain ⟨inst, type, name⟩ := value
  cases inst <;> first | rfl | cases hcomputed

theorem Value.Computed.holds_meaning {size : Nat} {value : Value}
    (hcomputed : value.Computed size) {typeOf : ValueId → Ty} {words : ValueId → UInt16}
    {given : UInt16} :
    value.type.Holds (value.inst.meaning typeOf words value.type given) := by
  obtain ⟨inst, type, name⟩ := value
  cases inst with
  | const bits => exact Ty.holds_of_le_mask hcomputed
  | binary op lhs rhs => exact op.holds_eval type _ _
  | compare predicate lhs rhs =>
      obtain ⟨rfl, _⟩ := hcomputed
      exact Ty.holds_ofBits .i1 _
  | zext operand => exact type.holds_ofBits _
  | trunc operand => exact type.holds_ofBits _
  | param | phi | load | store | call | makeRegs | extractReg => cases hcomputed

section Words

variable {function : Function} {given : ValueId → UInt16} {id : ValueId} {value : Value}

theorem Function.word_eq (hordered : function.Ordered)
    (hvalue : function.values[id.index]? = some value) :
    function.word given id =
      value.inst.meaning function.typeOf (function.word given) value.type (given id) := by
  rw [Function.word, hvalue]
  rcases hordered id.index value hvalue with hgiven | hcomputed
  · exact (Inst.meaning_of_isGiven hgiven).trans (Inst.meaning_of_isGiven hgiven).symm
  · refine Inst.meaning_congr hcomputed.isGiven_eq (fun _ _ => rfl) fun operand hoperand => ?_
    exact if_pos (hcomputed.operand_lt operand hoperand)

theorem Function.holds_word (hordered : function.Ordered)
    (hvalue : function.values[id.index]? = some value)
    (hgiven : value.inst.isGiven = true → value.type.Holds (given id)) :
    value.type.Holds (function.word given id) := by
  rw [Function.word_eq hordered hvalue]
  rcases hordered id.index value hvalue with hisGiven | hcomputed
  · rw [Inst.meaning_of_isGiven hisGiven]
    exact hgiven hisGiven
  · exact hcomputed.holds_meaning

theorem Function.Fits.holds_word {type : Ty} (hgiven : function.Fits given)
    (hordered : function.Ordered) (htype : function.type? id = some type)
    (hinteger : type.isInteger = true) : type.Holds (function.word given id) := by
  obtain ⟨value, hvalue, rfl⟩ := Option.map_eq_some_iff.mp htype
  exact Function.holds_word hordered hvalue fun hisGiven =>
    hgiven id value hvalue hisGiven hinteger

end Words

theorem Inst.eq_const_of_constant? {inst : Inst} {bits : UInt16}
    (hconstant : inst.constant? = some bits) : inst = .const bits := by
  cases inst <;> cases hconstant
  rfl

section Constants

variable {function : Function} {id : ValueId} {value : Value} {bits : UInt16}

theorem Function.constant?_eq (hvalue : function.values[id.index]? = some value)
    (hconstant : value.inst.constant? = some bits) : function.constant? id = some bits := by
  simp [Function.constant?, hvalue, hconstant]

theorem Function.exists_of_constant? (hconstant : (function.constant? id).isSome) :
    ∃ value bits, function.values[id.index]? = some value ∧
      value.inst.constant? = some bits := by
  obtain ⟨bits, hbits⟩ := Option.isSome_iff_exists.mp hconstant
  obtain ⟨value, hvalue, hfound⟩ := Option.bind_eq_some_iff.mp hbits
  exact ⟨value, bits, hvalue, hfound⟩

theorem Function.Ordered.le_mask (hordered : function.Ordered) {position : Nat}
    (hvalue : function.values[position]? = some value)
    (hconstant : value.inst.constant? = some bits) : bits ≤ value.type.mask := by
  obtain ⟨inst, type, name⟩ := value
  cases Inst.eq_const_of_constant? hconstant
  rcases hordered position _ hvalue with hgiven | hcomputed
  · cases hgiven
  · exact hcomputed

theorem Function.Ordered.holds_constant (hordered : function.Ordered) {position : Nat}
    (hvalue : function.values[position]? = some value)
    (hconstant : value.inst.constant? = some bits) : value.type.Holds bits :=
  Ty.holds_of_le_mask (hordered.le_mask hvalue hconstant)

theorem Function.Extends.type? {later : Function} {type : Ty} (hextends : function.Extends later)
    (htype : function.type? id = some type) : later.type? id = some type := by
  obtain ⟨value, hvalue, rfl⟩ := Option.map_eq_some_iff.mp htype
  obtain ⟨inst, hlater, _⟩ := hextends id.index value hvalue
  exact congrArg (Option.map Value.type) hlater

theorem Function.Extends.entry {later : Function} {position : Nat}
    (hextends : function.Extends later) (hvalue : function.values[position]? = some value)
    (hcomputed : value.inst.isGiven = false) : later.values[position]? = some value := by
  obtain ⟨inst, type, name⟩ := value
  obtain ⟨inst', hlater, rfl | ⟨hphi, _⟩⟩ := hextends position _ hvalue
  · exact hlater
  · cases inst with
    | phi => cases hcomputed
    | _ => cases hphi

theorem Function.Extends.word_constant {later : Function} {given : ValueId → UInt16}
    (hextends : function.Extends later) (hordered : later.Ordered)
    (hconstant : function.constant? id = some bits) : later.word given id = bits := by
  obtain ⟨value, hvalue, hbits⟩ := Option.bind_eq_some_iff.mp hconstant
  have hinst := Inst.eq_const_of_constant? hbits
  rw [Function.word_eq hordered (hextends.entry hvalue (by rw [hinst]; rfl)), hinst]
  rfl

end Constants

end Lift6502.Ssa
