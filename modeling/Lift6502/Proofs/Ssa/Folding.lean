import Lift6502.Proofs.Ssa.Denotation

/-! An operation on a function stands for the same number whether it is folded
or becomes an instruction. -/

namespace Lift6502.Ssa

theorem Builder.const_eq_of_holds {function : Function} {type : Ty} {bits : UInt16}
    {block : BlockId} (hbits : type.Holds bits) :
    Builder.const type bits function =
      .ok (⟨function.values.size⟩, function.append block [⟨.const bits, type, none⟩]) := by
  have hmask : bits &&& type.mask = bits := by
    apply UInt16.toNat_inj.mp
    rw [Ty.toNat_and_mask, Nat.mod_eq_of_lt hbits]
  rw [Builder.const_eq type bits, hmask]

namespace Operation

def inst : Operation → Inst
  | .const type bits => .const (bits &&& type.mask)
  | .byte value => .const (value.toUInt16 &&& Ty.i8.mask)
  | .word value => .const (value &&& Ty.i16.mask)
  | .flag value => .const ((if value then 1 else 0) &&& Ty.i1.mask)
  | .binary op lhs rhs => .binary op lhs rhs
  | .compare predicate lhs rhs => .compare predicate lhs rhs
  | .zext operand _ => .zext operand
  | .trunc operand _ => .trunc operand

/-- The operation may be applied in the function and gives a value of the
type. -/
def HasType (function : Function) : Operation → Ty → Prop
  | .const type _, result => result = type
  | .byte _, result => result = .i8
  | .word _, result => result = .i16
  | .flag _, result => result = .i1
  | .binary _ lhs rhs, result => result.isInteger = true ∧
      function.type? lhs = some result ∧ function.type? rhs = some result
  | .compare _ lhs rhs, result => result = .i1 ∧ ∃ compared : Ty, compared.isInteger = true ∧
      function.type? lhs = some compared ∧ function.type? rhs = some compared
  | .zext operand type, result => result = type ∧ type.isInteger = true ∧
      ∃ narrow : Ty, narrow.isInteger = true ∧ function.type? operand = some narrow ∧
        narrow.width ≤ type.width
  | .trunc operand type, result => result = type ∧ type.isInteger = true ∧
      ∃ wide : Ty, wide.isInteger = true ∧ function.type? operand = some wide ∧
        type.width ≤ wide.width

/-- The number that an operation gives, from the widths of values and the
numbers they stand for. -/
def result (width number : ValueId → Nat) : Operation → Nat
  | .const type bits => bits.toNat % 2 ^ type.width
  | .byte value => value.toNat
  | .word value => value.toNat
  | .flag value => value.toNat
  | .binary op lhs rhs => op.onNat (width lhs) (number lhs) (number rhs)
  | .compare predicate lhs rhs =>
      (predicate.onNat (width lhs) (number lhs) (number rhs)).toNat
  | .zext operand _ => number operand
  | .trunc operand type => number operand % 2 ^ type.width

def operands (operation : Operation) : List ValueId :=
  operation.inst.operands

variable {function function' : Function} {operation : Operation} {type : Ty} {block : BlockId}

theorem isGiven_inst (operation : Operation) : operation.inst.isGiven = false := by
  cases operation <;> rfl

theorem typeOf_eq {id : ValueId} (htype : function.type? id = some type) :
    function.typeOf id = type := by
  rw [Function.typeOf, htype]
  rfl

/-- The meaning of the instruction is the operation on numbers. -/
theorem toNat_meaning {words : ValueId → UInt16} {given : UInt16}
    (htype : operation.HasType function type)
    (hwords : ∀ id type, function.type? id = some type → type.isInteger = true →
      type.Holds (words id)) :
    (operation.inst.meaning function.typeOf words type given).toNat =
      operation.result function.width (fun id => (words id).toNat) := by
  cases operation with
  | const constant bits => exact constant.toNat_and_mask bits
  | byte value =>
      have hvalue := value.toNat_lt
      exact (Ty.toNat_and_mask .i8 _).trans (Nat.mod_eq_of_lt hvalue)
  | word value =>
      have hvalue := value.toNat_lt
      exact (Ty.toNat_and_mask .i16 _).trans (Nat.mod_eq_of_lt hvalue)
  | flag value => cases value <;> rfl
  | binary op lhs rhs =>
      obtain ⟨hinteger, hlhs, hrhs⟩ := htype
      show (op.eval type _ _).toNat = op.onNat (function.typeOf lhs).width _ _
      rw [typeOf_eq hlhs]
      exact op.toNat_eval (hwords lhs type hlhs hinteger) (hwords rhs type hrhs hinteger)
  | compare predicate lhs rhs =>
      obtain ⟨rfl, compared, hinteger, hlhs, hrhs⟩ := htype
      show (ofBits (BitVec.ofBool (predicate.eval (function.typeOf lhs) _ _))).toNat =
        (predicate.onNat (function.typeOf lhs).width _ _).toNat
      rw [typeOf_eq hlhs, ofBits_ofBool, predicate.eval_eq_onNat
        (hwords lhs compared hlhs hinteger) (hwords rhs compared hrhs hinteger)]
      cases predicate.onNat compared.width (words lhs).toNat (words rhs).toNat <;> rfl
  | zext operand wide =>
      obtain ⟨rfl, _, narrow, hinteger, hoperand, hwidth⟩ := htype
      show (ofBits (((function.typeOf operand).bits _).setWidth type.width)).toNat = _
      rw [typeOf_eq hoperand, Ty.zext_eq (hwords operand narrow hoperand hinteger) hwidth]
      rfl
  | trunc operand narrow =>
      obtain ⟨rfl, _⟩ := htype
      show (ofBits (type.bits _)).toNat = _
      rw [toNat_ofBits type.width_le, Ty.toNat_bits]
      rfl

/-- What an operation may become: its instruction, or its meaning if all its
operands are constants. -/
def Becomes (function : Function) (operation : Operation) (type : Ty) (inst : Inst) : Prop :=
  inst = operation.inst ∨
    (∀ operand ∈ operation.inst.operands, (function.constant? operand).isSome) ∧
      inst = .const (operation.inst.meaning function.typeOf
        (fun operand => (function.constant? operand).getD 0) type 0)

/-- The operation succeeds and appends what it becomes. -/
def Builds (function : Function) (block : BlockId) (operation : Operation) (type : Ty) : Prop :=
  ∃ inst, operation.build block function =
      .ok (⟨function.values.size⟩, function.append block [⟨inst, type, none⟩]) ∧
    operation.Becomes function type inst

theorem builds_of_emits (hblock : block.index < function.blocks.size)
    (hinst : operation.inst.constant? = none)
    (hemits : operation.build block function =
      Builder.emit block operation.inst type function) :
    operation.Builds function block type :=
  ⟨operation.inst, hemits.trans (Builder.emit_eq type hblock hinst), .inl rfl⟩

section Built

variable {lhs rhs operand : ValueId} (hblock : block.index < function.blocks.size)

include hblock

theorem builds_binary (op : BinOp) (hlhs : function.type? lhs = some type)
    (hrhs : function.type? rhs = some type)
    (hconstant : ∀ bits, function.constant? rhs = some bits → type.Holds bits) :
    (Operation.binary op lhs rhs).Builds function block type := by
  obtain ⟨left, hleft, rfl⟩ := Option.map_eq_some_iff.mp hlhs
  obtain ⟨right, hright, hsame⟩ := Option.map_eq_some_iff.mp hrhs
  rcases Builder.binary_cases op hleft hright hsame.symm with ⟨l, r, hl, hr, hfolds⟩ | ⟨_, hemits⟩
  · have hl' := Function.constant?_eq hleft hl
    have hr' := Function.constant?_eq hright hr
    rw [op.fold_eq_eval (hconstant r hr')] at hfolds
    refine ⟨.const (op.eval left.type l r),
      hfolds.trans (Builder.const_eq_of_holds (op.holds_eval left.type l r)), .inr ⟨?_, ?_⟩⟩
    · simp [inst, Inst.operands, hl', hr']
    · simp only [inst, Inst.meaning, hl', hr', Option.getD_some]
  · exact builds_of_emits hblock rfl hemits

theorem builds_compare (predicate : Predicate) (hinteger : type.isInteger = true)
    (hlhs : function.type? lhs = some type) (hrhs : function.type? rhs = some type) :
    (Operation.compare predicate lhs rhs).Builds function block .i1 := by
  obtain ⟨left, hleft, rfl⟩ := Option.map_eq_some_iff.mp hlhs
  obtain ⟨right, hright, _⟩ := Option.map_eq_some_iff.mp hrhs
  rcases Builder.compare_cases predicate hleft hright with ⟨l, r, hl, hr, hfolds⟩ | ⟨_, hemits⟩
  · have hl' := Function.constant?_eq hleft hl
    have hr' := Function.constant?_eq hright hr
    have hflag (flag : Bool) : Builder.flag flag = Builder.const .i1 flag.toUInt16 := by
      cases flag <;> rfl
    rw [predicate.fold_eq_eval hinteger, hflag, ← ofBits_ofBool] at hfolds
    refine ⟨_, hfolds.trans (Builder.const_eq_of_holds (Ty.holds_ofBits .i1 _)), .inr ⟨?_, ?_⟩⟩
    · simp [inst, Inst.operands, hl', hr']
    · simp only [inst, Inst.meaning, hl', hr', Option.getD_some, typeOf_eq hlhs]
  · exact builds_of_emits hblock rfl hemits

theorem builds_zext {narrow : Ty} (hoperand : function.type? operand = some narrow)
    (hwidth : narrow.width ≤ type.width)
    (hconstant : ∀ bits, function.constant? operand = some bits → narrow.Holds bits) :
    (Operation.zext operand type).Builds function block type := by
  obtain ⟨value, hvalue, rfl⟩ := Option.map_eq_some_iff.mp hoperand
  rcases Builder.zext_cases type hvalue with ⟨bits, hbits, hfolds⟩ | ⟨_, hemits⟩
  · have hbits' := Function.constant?_eq hvalue hbits
    have hholds := hconstant bits hbits'
    have hwide : type.Holds bits :=
      Nat.lt_of_lt_of_le hholds (Nat.pow_le_pow_right (by decide) hwidth)
    refine ⟨_, hfolds.trans (Builder.const_eq_of_holds hwide), .inr ⟨?_, ?_⟩⟩
    · simp [inst, Inst.operands, hbits']
    · simp only [inst, Inst.meaning, hbits', Option.getD_some]
      rw [typeOf_eq hoperand, Ty.zext_eq hholds hwidth]
  · exact builds_of_emits hblock rfl hemits

theorem builds_trunc {wide : Ty} (hoperand : function.type? operand = some wide) :
    (Operation.trunc operand type).Builds function block type := by
  obtain ⟨value, hvalue, rfl⟩ := Option.map_eq_some_iff.mp hoperand
  rcases Builder.trunc_cases type hvalue with ⟨bits, hbits, hfolds⟩ | ⟨_, hemits⟩
  · have hbits' := Function.constant?_eq hvalue hbits
    refine ⟨_, hfolds.trans (Builder.const_eq type bits), .inr ⟨?_, ?_⟩⟩
    · simp [inst, Inst.operands, hbits']
    · simp only [inst, Inst.meaning, hbits', Option.getD_some, Ty.and_mask]
  · exact builds_of_emits hblock rfl hemits

theorem HasType.builds_of_constants (htype : operation.HasType function type)
    (hconstants : ∀ operand ∈ operation.inst.operands, ∀ type bits,
      function.type? operand = some type → function.constant? operand = some bits →
        type.Holds bits) :
    operation.Builds function block type := by
  cases operation with
  | const constant bits =>
      cases htype
      exact ⟨_, Builder.const_eq _ bits, .inl rfl⟩
  | byte value =>
      cases htype
      exact ⟨_, Builder.const_eq .i8 value.toUInt16, .inl rfl⟩
  | word value =>
      cases htype
      exact ⟨_, Builder.const_eq .i16 value, .inl rfl⟩
  | flag value =>
      cases htype
      exact ⟨_, Builder.const_eq .i1 _, .inl rfl⟩
  | binary op lhs rhs =>
      obtain ⟨_, hlhs, hrhs⟩ := htype
      exact builds_binary hblock op hlhs hrhs fun bits =>
        hconstants rhs (.tail _ (.head _)) type bits hrhs
  | compare predicate lhs rhs =>
      obtain ⟨rfl, compared, hinteger, hlhs, hrhs⟩ := htype
      exact builds_compare hblock predicate hinteger hlhs hrhs
  | zext operand wide =>
      obtain ⟨rfl, _, narrow, _, hoperand, hwidth⟩ := htype
      exact builds_zext hblock hoperand hwidth fun bits =>
        hconstants operand (.head _) narrow bits hoperand
  | trunc operand narrow =>
      obtain ⟨rfl, _, wide, _, hoperand, _⟩ := htype
      exact builds_trunc hblock hoperand

end Built

theorem HasType.builds (hordered : function.Ordered)
    (hblock : block.index < function.blocks.size) (htype : operation.HasType function type) :
    operation.Builds function block type := by
  refine htype.builds_of_constants hblock fun operand _ found bits hfound hbits => ?_
  obtain ⟨value, hvalue, rfl⟩ := Option.map_eq_some_iff.mp hfound
  obtain ⟨value', hvalue', hconstant⟩ := Option.bind_eq_some_iff.mp hbits
  cases hvalue.symm.trans hvalue'
  exact hordered.holds_constant hvalue hconstant

theorem Becomes.isGiven_eq {inst : Inst} (hbecomes : operation.Becomes function type inst) :
    inst.isGiven = false := by
  rcases hbecomes with rfl | ⟨_, rfl⟩
  · exact operation.isGiven_inst
  · rfl

theorem HasType.operand (htype : operation.HasType function type) :
    ∀ operand ∈ operation.inst.operands, ∃ type, function.type? operand = some type := by
  cases operation with
  | const | byte | word | flag => simp [inst, Inst.operands]
  | binary op lhs rhs =>
      obtain ⟨_, hlhs, hrhs⟩ := htype
      simp [inst, Inst.operands, hlhs, hrhs]
  | compare predicate lhs rhs =>
      obtain ⟨_, _, _, hlhs, hrhs⟩ := htype
      simp [inst, Inst.operands, hlhs, hrhs]
  | zext operand wide =>
      obtain ⟨_, _, _, _, hoperand, _⟩ := htype
      simp [inst, Inst.operands, hoperand]
  | trunc operand narrow =>
      obtain ⟨_, _, _, _, hoperand, _⟩ := htype
      simp [inst, Inst.operands, hoperand]

/-- However the operation was built, its value has the meaning of its
instruction from then on. -/
theorem Becomes.word_eq {inst : Inst} {id : ValueId} {later : Function} {name : Option String}
    {given : ValueId → UInt16} (hbecomes : operation.Becomes function type inst)
    (htype : operation.HasType function type) (hextends : function.Extends later)
    (hordered : later.Ordered) (hvalue : later.values[id.index]? = some ⟨inst, type, name⟩) :
    later.word given id =
      operation.inst.meaning function.typeOf (later.word given) type (given id) := by
  have htypes : ∀ operand ∈ operation.inst.operands,
      later.typeOf operand = function.typeOf operand := by
    intro operand hoperand
    obtain ⟨found, hfound⟩ := htype.operand operand hoperand
    rw [typeOf_eq hfound, typeOf_eq (hextends.type? hfound)]
  rw [Function.word_eq hordered hvalue]
  rcases hbecomes with rfl | ⟨hconstants, rfl⟩
  · exact Inst.meaning_congr operation.isGiven_inst htypes fun _ _ => rfl
  · refine Inst.meaning_congr operation.isGiven_inst (fun _ _ => rfl) fun operand hoperand => ?_
    obtain ⟨bits, hbits⟩ := Option.isSome_iff_exists.mp (hconstants operand hoperand)
    rw [hbits, hextends.word_constant hordered hbits]
    rfl

theorem evolves_of_build {id : ValueId}
    (hbuild : operation.build block function = .ok (id, function')) :
    function.Evolves function' := by
  obtain ⟨value, hvalues, hvalue⟩ := build_ok hbuild
  exact .push hvalues (.inr hvalue)

theorem constant?_build {id : ValueId} (hrun : operation.build block function = .ok (id, function'))
    (hconstants : ∀ operand ∈ operation.inst.operands, (function.constant? operand).isSome) :
    (function'.constant? id).isSome ∧ function'.blocks = function.blocks := by
  have hconst {type : Ty} {bits : UInt16}
      (hrun : Builder.const type bits function = .ok (id, function')) :
      (function'.constant? id).isSome ∧ function'.blocks = function.blocks := by
    cases hrun
    simp [Function.constant?, Inst.constant?]
  cases operation with
  | const | byte | word | flag => exact hconst hrun
  | binary op lhs rhs =>
      simp only [inst, Inst.operands, List.forall_mem_cons] at hconstants
      obtain ⟨left, l, hleft, hl⟩ := Function.exists_of_constant? hconstants.1
      obtain ⟨right, r, hright, hr⟩ := Function.exists_of_constant? hconstants.2.1
      obtain ⟨_, _, hlhs, hrhs, htype⟩ := Builder.binary_operands hrun
      cases hleft.symm.trans hlhs
      cases hright.symm.trans hrhs
      exact hconst ((Builder.binary_eq_const op hleft hright htype hl hr).symm.trans hrun)
  | compare predicate lhs rhs =>
      simp only [inst, Inst.operands, List.forall_mem_cons] at hconstants
      obtain ⟨left, l, hleft, hl⟩ := Function.exists_of_constant? hconstants.1
      obtain ⟨right, r, hright, hr⟩ := Function.exists_of_constant? hconstants.2.1
      exact hconst ((Builder.compare_eq_flag predicate hleft hright hl hr).symm.trans hrun)
  | zext operand wide =>
      simp only [inst, Inst.operands, List.forall_mem_cons] at hconstants
      obtain ⟨value, bits, hvalue, hbits⟩ := Function.exists_of_constant? hconstants.1
      exact hconst ((Builder.zext_eq_const wide hvalue hbits).symm.trans hrun)
  | trunc operand narrow =>
      simp only [inst, Inst.operands, List.forall_mem_cons] at hconstants
      obtain ⟨value, bits, hvalue, hbits⟩ := Function.exists_of_constant? hconstants.1
      exact hconst ((Builder.trunc_eq_const narrow hvalue hbits).symm.trans hrun)

/-- Every function that can be built has only constants that fit their types,
and an operation on it stands for its result from then on, folded or not. It
adds an instruction only if some operand is not a constant. -/
theorem number_build {steps : List Step} {name : String} {linkage : Linkage}
    {params : List (String × Ty)} {result : Ty}
    (hrun : steps.forM Step.run (Function.declare name linkage params result) =
      .ok ((), function)) :
    (∀ (position : Nat) (value : Value) (bits : UInt16),
      function.values[position]? = some value → value.inst = .const bits →
        bits ≤ value.type.mask) ∧
    ∀ (block : BlockId) (operation : Operation),
      (∀ id function', operation.build block function = .ok (id, function') →
        (∀ operand ∈ operation.operands, (function.constant? operand).isSome) →
          (function'.constant? id).isSome ∧ function'.blocks = function.blocks) ∧
      ∀ type, block.index < function.blocks.size → operation.HasType function type →
        ∃ id function', operation.build block function = .ok (id, function') ∧
          function'.type? id = some type ∧
          ∀ (more : List Step) (later : Function) (given : ValueId → UInt16),
            more.forM Step.run function' = .ok ((), later) → later.Fits given →
              later.number given id < 2 ^ type.width ∧
                later.number given id =
                  operation.result function.width (later.number given) := by
  have hordered := (Function.ordered_declare name linkage params result).run hrun
  refine ⟨fun position value bits hvalue hconst => ?_, fun block operation => ⟨?_, ?_⟩⟩
  · exact hordered.le_mask hvalue (by rw [hconst]; rfl)
  · intro id function' hbuild hconstants
    exact constant?_build hbuild hconstants
  · intro type hblock htype
    obtain ⟨inst, hbuild, hbecomes⟩ := HasType.builds hordered hblock htype
    have hentry : (function.append block [⟨inst, type, none⟩]).values[function.values.size]? =
        some ⟨inst, type, none⟩ := function.append_value_within block _ 0
    refine ⟨_, _, hbuild, congrArg (Option.map Value.type) hentry, ?_⟩
    intro more later given hmore hgiven
    have hevolves := evolves_of_build hbuild
    have hordered := (hevolves.ordered hordered).run hmore
    have hvalue := (extends_run hmore).entry hentry hbecomes.isGiven_eq
    have hextends := hevolves.extends.trans (extends_run hmore)
    refine ⟨Function.holds_word hordered hvalue fun hisGiven => ?_, ?_⟩
    · cases hbecomes.isGiven_eq.symm.trans hisGiven
    · have hword : later.word given ⟨function.values.size⟩ = _ :=
        hbecomes.word_eq htype hextends hordered hvalue
      unfold Function.number
      rw [hword]
      exact toNat_meaning htype fun operand found hfound hinteger =>
        hgiven.holds_word hordered (hextends.type? hfound) hinteger

/-- Shifts all bits out of a constant, and adds the argument to it. -/
def mixed : List Step := [
  .addBlock "entry",
  .operate ⟨0⟩ (.byte 0xF0),
  .operate ⟨0⟩ (.byte 9),
  .operate ⟨0⟩ (.binary .shl ⟨1⟩ ⟨2⟩),
  .operate ⟨0⟩ (.binary .add ⟨0⟩ ⟨1⟩)]

def mixedFunction : Function where
  name := "mixed"
  linkage := .internal
  params := [⟨0⟩]
  result := .i8
  values := #[⟨.param 0, .i8, some "a"⟩, ⟨.const 0xF0, .i8, none⟩, ⟨.const 9, .i8, none⟩,
    ⟨.const 0, .i8, none⟩, ⟨.binary .add ⟨0⟩ ⟨1⟩, .i8, none⟩]
  blocks := #[{ label := "entry", insts := #[⟨4⟩] }]

/-- For the argument 0x90 the sum is negative, and so less than what the shift
leaves. -/
theorem number_build_mixed :
    mixed.forM Step.run (Function.declare "mixed" .internal [("a", .i8)] .i8) =
      .ok ((), mixedFunction) ∧
    ∃ id function', (Operation.compare .slt ⟨4⟩ ⟨3⟩).build ⟨0⟩ mixedFunction =
        .ok (id, function') ∧
      function'.Fits (fun _ => 0x90) ∧ function'.number (fun _ => 0x90) id = 1 := by
  have hrun : mixed.forM Step.run (Function.declare "mixed" .internal [("a", .i8)] .i8) =
      .ok ((), mixedFunction) := rfl
  obtain ⟨id, function', hbuild, _, hnumber⟩ :=
    ((number_build hrun).2 ⟨0⟩ (.compare .slt ⟨4⟩ ⟨3⟩)).2 .i1 (by decide)
      ⟨rfl, .i8, rfl, rfl, rfl⟩
  have hgiven : function'.Fits fun _ => 0x90 := by
    have hentries : ∀ value ∈ function'.values.toList,
        value.inst.isGiven = true → value.type = .i8 := by
      cases hbuild
      decide
    intro id value hvalue hisGiven _
    have hmem := Array.mem_toList_iff.mpr (Array.mem_of_getElem? hvalue)
    rw [hentries value hmem hisGiven]
    show (0x90 : UInt16).toNat < 2 ^ Ty.i8.width
    decide
  refine ⟨hrun, id, function', hbuild, hgiven, ?_⟩
  rw [(hnumber [] function' _ rfl hgiven).2]
  cases hbuild
  decide +kernel

end Operation

end Lift6502.Ssa
