import Lift6502.Proofs.Lowering.Knowledge

/-! Addition and subtraction with carry on integers. Whatever of the
accumulator, the operand and the carry is constant, the values that the code
puts into the registers stand for the byte of the exact result and for the
flags that follow from it. -/

namespace Lift6502

open Ssa

/-! Words from given ones -/

/-- The word that a value stands for, when those before `base` stand for given
words. -/
def Ssa.Function.wordFrom (function : Function) (base : Nat) (given : ValueId → UInt16)
    (id : ValueId) : UInt16 :=
  if id.index < base then given id
  else
    match function.values[id.index]? with
    | none => given id
    | some value =>
        value.inst.meaning function.typeOf
          (fun operand => if operand.index < id.index then function.wordFrom base given operand
            else 0)
          value.type (given id)
termination_by id.index

section WordFrom

variable {function : Function} {base : Nat} {given : ValueId → UInt16} {id : ValueId}
  {value : Value}

theorem Ssa.Function.wordFrom_before (hid : id.index < base) :
    function.wordFrom base given id = given id := by
  rw [Function.wordFrom, if_pos hid]

theorem Ssa.Function.wordFrom_eq (id : ValueId) (hid : base ≤ id.index)
    (hvalue : function.values[id.index]? = some value) (hcomputed : value.inst.isGiven = false)
    (hoperands : ∀ operand ∈ value.inst.operands, operand.index < id.index) :
    function.wordFrom base given id =
      value.inst.meaning function.typeOf (function.wordFrom base given) value.type
        (given id) := by
  rw [Function.wordFrom, if_neg (Nat.not_lt.mpr hid), hvalue]
  exact Inst.meaning_congr hcomputed (fun _ _ => rfl) fun operand hoperand =>
    if_pos (hoperands operand hoperand)

/-- What values stand for in the whole function is what they stand for from
any of them on. -/
theorem Ssa.Function.wordFrom_word (hordered : function.Ordered) (id : ValueId) :
    function.wordFrom base (function.word given) id = function.word given id := by
  by_cases hid : id.index < base
  · exact Function.wordFrom_before hid
  cases hvalue : function.values[id.index]? with
  | none =>
      rw [Function.wordFrom, if_neg hid, hvalue]
  | some value =>
      rcases hordered id.index value hvalue with hgiven | hcomputed
      · rw [Function.wordFrom, if_neg hid, hvalue]
        exact Inst.meaning_of_isGiven hgiven
      · rw [Function.wordFrom_eq id (Nat.not_lt.mp hid) hvalue hcomputed.isGiven_eq
          hcomputed.operand_lt, Function.word_eq hordered hvalue]
        refine Inst.meaning_congr hcomputed.isGiven_eq (fun _ _ => rfl) fun operand hoperand => ?_
        have hlt := hcomputed.operand_lt operand hoperand
        exact Function.wordFrom_word hordered operand
termination_by id.index

end WordFrom

namespace Knowledge

/-- What values stand for in the function, and in every one that it grows
into, when the values of `start` stand for given words. -/
def given (start : Function) (block : BlockId) (hblock : block.index < start.blocks.size)
    (given : ValueId → UInt16) : Knowledge start block where
  Knows code facts := (∀ fact ∈ facts, (start.append block code).Agrees fact) ∧
    ∀ later, (start.append block code).Extends later →
      ∀ fact ∈ facts, fact.datum = .word (later.wordFrom start.values.size given fact.id)
  weaken hknows hsubset := ⟨fun fact hfact => hknows.1 fact (hsubset fact hfact),
    fun later hextends fact hfact => hknows.2 later hextends fact (hsubset fact hfact)⟩
  operate {code facts operation type bits} hknows hyields := by
    obtain ⟨hagrees, hwords⟩ := hknows
    have hblock' : block.index < (start.append block code).blocks.size := by
      rw [Function.append_blocks_size]
      exact hblock
    obtain ⟨inst, hbuild, hinst, hagrees'⟩ := hyields.build hagrees hblock'
    have hgrows := (Ssa.Operation.evolves_of_build hbuild).extends
    have hentry : ((start.append block code).append block [⟨inst, type, none⟩]).values[
        (start.append block code).values.size]? = some ⟨inst, type, none⟩ :=
      (start.append block code).append_value_within block [⟨inst, type, none⟩] 0
    rw [Function.append_append] at hbuild hgrows hentry hagrees'
    refine ⟨_, _, .of_build hbuild, hagrees', fun later hextends => ?_⟩
    have hknown := hwords later (hgrows.trans hextends)
    refine List.forall_mem_cons.mpr ⟨congrArg Datum.word (Eq.symm ?_), hknown⟩
    have hafter : start.values.size ≤ (start.append block code).values.size := by
      rw [Function.append_values_size]
      exact Nat.le_add_right _ _
    rcases hinst with ⟨rfl, _⟩ | rfl
    · have hoperands : ∀ operand ∈ operation.inst.operands,
          operand.index < (start.append block code).values.size ∧
            later.typeOf operand = (start.append block code).typeOf operand := by
        intro operand hoperand
        obtain ⟨fact, hfact, rfl⟩ := hyields.operand operand hoperand
        have htype := (hagrees fact hfact).type?
        obtain ⟨value, hvalue, _⟩ := Option.map_eq_some_iff.mp htype
        refine ⟨(Array.getElem?_eq_some_iff.mp hvalue).1, ?_⟩
        rw [Ssa.Operation.typeOf_eq htype,
          Ssa.Operation.typeOf_eq ((hgrows.trans hextends).type? htype)]
      have hlater := hextends.entry hentry operation.isGiven_inst
      refine (Function.wordFrom_eq ⟨_⟩ hafter hlater operation.isGiven_inst
        fun operand hoperand => (hoperands operand hoperand).1).trans ?_
      exact (Inst.meaning_congr operation.isGiven_inst
        (fun operand hoperand => (hoperands operand hoperand).2) fun _ _ => rfl).trans
        (hyields.meaning hagrees _ (fun fact hfact _ => hknown fact hfact) 0)
    · exact Function.wordFrom_eq ⟨_⟩ hafter (hextends.entry hentry rfl) rfl
        (by simp [Inst.operands])

end Knowledge

/-! Integers -/

/-- There is a value of a type, and if it is a constant, it is a word of the
type. -/
structure Ssa.Function.HasValue (function : Function) (id : ValueId) (type : Ty) : Prop where
  type? : function.type? id = some type
  holds : ∀ bits, function.constant? id = some bits → type.Holds bits

/-- What words say of the registers after an operation on the accumulator that
has an exact result, one on signed numbers, and a carry. -/
structure Settles (words : ValueId → UInt16) (registers : PerRegister ValueId)
    (exact signed : Int) (carry : Bool) : Prop where
  accumulator : ((words registers.a).toNat : Int) = exact % 256
  carry : words registers.c = carry.toUInt16
  overflow : words registers.v = (decide (signed < -128 ∨ 127 < signed)).toUInt16
  negative : words registers.n = (decide (128 ≤ (words registers.a).toNat)).toUInt16
  zero : words registers.z = (decide ((words registers.a).toNat = 0)).toUInt16

theorem twosComplement_byte (byte : Byte) :
    byte.toInt8.toInt = twosComplement 8 byte.toNat := by
  rw [toInt8_toInt]
  unfold twosComplement
  split <;> split <;> omega

namespace Knowledge.Outputs

variable {outputs : Outputs} {words : ValueId → UInt16} {values : PerRegister ValueId}
  {registers : Registers} {content : Byte}

theorem settles {exact signed : Int} {carry : Bool} {result : Byte}
    (hwords : ∀ fact ∈ outputs.holding
      ({ registers with c := carry, v := Registers.overflows signed }.setWithNZ .a result),
      fact.datum = .word (words fact.id))
    (hresult : (result.toNat : Int) = exact % 256) :
    Settles words (outputs.into values) exact signed carry := by
  simp only [holding, List.forall_mem_cons, Datum.word.injEq] at hwords
  obtain ⟨hzero, hnegative, hoverflow, hcarry, haccumulator, _⟩ := hwords
  have hbyte : (words outputs.result).toNat = result.toNat := by
    rw [← haccumulator]
    rfl
  refine ⟨?_, hcarry.symm, hoverflow.symm, ?_, ?_⟩
  · exact (congrArg Nat.cast hbyte).trans hresult
  · refine hnegative.symm.trans (congrArg Bool.toUInt16 (decide_eq_decide.mpr ?_))
    exact (negative_iff result).trans (by rw [← hbyte]; rfl)
  · refine hzero.symm.trans (congrArg Bool.toUInt16 (decide_eq_decide.mpr ?_))
    show result = 0 ↔ (words outputs.result).toNat = 0
    rw [hbyte, ← UInt8.toNat_inj]
    rfl

theorem settles_addWithCarry
    (hwords : ∀ fact ∈ outputs.holding (registers.addWithCarry content),
      fact.datum = .word (words fact.id)) :
    Settles words (outputs.into values) (registers.a.toNat + content.toNat + registers.c.toNat)
      (twosComplement 8 registers.a.toNat + twosComplement 8 content.toNat + registers.c.toNat)
      (decide (256 ≤ registers.a.toNat + content.toNat + registers.c.toNat)) := by
  rw [← twosComplement_byte, ← twosComplement_byte]
  refine settles hwords ?_
  rw [UInt8.toNat_ofNat']
  omega

theorem settles_subtractWithCarry
    (hwords : ∀ fact ∈ outputs.holding (registers.subtractWithCarry content),
      fact.datum = .word (words fact.id)) :
    Settles words (outputs.into values)
      (registers.a.toNat - content.toNat - (1 - registers.c.toNat))
      (twosComplement 8 registers.a.toNat - twosComplement 8 content.toNat -
        (1 - registers.c.toNat))
      (decide (content.toNat + (1 - registers.c.toNat) ≤ registers.a.toNat)) := by
  have hborrow : (!registers.c).toNat = 1 - registers.c.toNat := by
    cases registers.c <;> rfl
  have hborrowed : (((!registers.c).toNat : Nat) : Int) = 1 - registers.c.toNat := by
    cases registers.c <;> rfl
  rw [← twosComplement_byte, ← twosComplement_byte, ← hborrow, ← hborrowed]
  refine settles hwords ?_
  have hresult (value : Int) : ((UInt8.ofInt value).toNat : Int) = value % 256 := by
    unfold UInt8.ofInt
    rw [UInt8.toNat_ofNat']
    omega
  rw [hresult]
  congr 1
  omega

end Knowledge.Outputs

namespace Lowering

variable {frame : Frame} {operand : ValueId} {given : ValueId → UInt16} {accumulator content : Byte}
  {carry : Bool}

/-- Given words are `accumulator`, `content` and `carry` for the accumulator,
an operand and the carry of a frame. Constants stand for themselves. -/
structure Supplies (given : ValueId → UInt16) (frame : Frame) (operand : ValueId)
    (accumulator content : Byte) (carry : Bool) : Prop where
  constant : ∀ id ∈ [frame.registers.a, operand, frame.registers.c], ∀ bits,
    frame.function.constant? id = some bits → given id = bits
  accumulator : given frame.registers.a = accumulator.toUInt16
  operand : given operand = content.toUInt16
  carry : given frame.registers.c = carry.toUInt16

/-- The values that an operation on the accumulator works on. -/
structure Ready (frame : Frame) (operand : ValueId) : Prop where
  block : frame.block.index < frame.function.blocks.size
  accumulator : frame.function.HasValue frame.registers.a .i8
  operand : frame.function.HasValue operand .i8
  carry : frame.function.HasValue frame.registers.c .i1

/-- What is known of the inputs before any code is added. -/
def inputs (frame : Frame) (operand : ValueId) (accumulator content : Byte) (carry : Bool) :
    List Fact :=
  [⟨frame.registers.a, .i8, .word accumulator.toUInt16⟩, ⟨operand, .i8, .word content.toUInt16⟩,
    ⟨frame.registers.c, .i1, .word carry.toUInt16⟩]

theorem Supplies.knows (hsupplies : Supplies given frame operand accumulator content carry)
    (hready : Ready frame operand) :
    (Knowledge.given frame.function frame.block hready.block given).Knows []
      (inputs frame operand accumulator content carry) := by
  have hinput {id : ValueId} {type : Ty} {bits : UInt16} (hbits : given id = bits)
      (htype : frame.function.type? id = some type) (hfits : (Datum.word bits).Fits type)
      (hid : id ∈ [frame.registers.a, operand, frame.registers.c]) :
      (frame.function.append frame.block []).Agrees ⟨id, type, .word bits⟩ ∧
        ∀ later, (frame.function.append frame.block []).Extends later →
          Datum.word bits = .word (later.wordFrom frame.function.values.size given id) := by
    subst hbits
    rw [Function.append_nil]
    obtain ⟨value, hvalue, _⟩ := Option.map_eq_some_iff.mp htype
    exact ⟨⟨htype, fun bits hbits => congrArg Datum.word (hsupplies.constant id hid bits hbits),
      hfits⟩, fun later _ => congrArg Datum.word
        (Function.wordFrom_before (Array.getElem?_eq_some_iff.mp hvalue).1).symm⟩
  have hflag : (Datum.word carry.toUInt16).Fits .i1 := by
    rw [← ofBits_ofBool]
    exact ⟨rfl, Ty.holds_ofBits .i1 _⟩
  obtain ⟨haccumulator, haccumulators⟩ := hinput hsupplies.accumulator hready.accumulator.type?
    ⟨rfl, holds_byte accumulator⟩ (.head _)
  obtain ⟨hoperand, hoperands⟩ := hinput hsupplies.operand hready.operand.type?
    ⟨rfl, holds_byte content⟩ (.tail _ (.head _))
  obtain ⟨hcarry, hcarries⟩ := hinput hsupplies.carry hready.carry.type? hflag
    (.tail _ (.tail _ (.head _)))
  refine ⟨?_, fun later hextends => ?_⟩
  · simp only [inputs, List.forall_mem_cons]
    exact ⟨haccumulator, hoperand, hcarry, by simp⟩
  · simp only [inputs, List.forall_mem_cons]
    exact ⟨haccumulators later hextends, hoperands later hextends, hcarries later hextends,
      by simp⟩

/-- There are words for the inputs: those of constants, and any others. -/
theorem Ready.exists_supplies (hready : Ready frame operand) :
    ∃ given accumulator content carry,
      Supplies given frame operand accumulator content carry := by
  have hword {id : ValueId} {type : Ty} (hvalue : frame.function.HasValue id type) :
      type.Holds ((frame.function.constant? id).getD 0) := by
    cases hconstant : frame.function.constant? id with
    | none => exact Nat.two_pow_pos _
    | some bits => exact hvalue.holds bits hconstant
  have hbyte {word : UInt16} (hword : Ty.i8.Holds word) : word = word.toUInt8.toUInt16 := by
    apply UInt16.toNat_inj.mp
    exact (Nat.mod_eq_of_lt hword).symm
  have hflag {word : UInt16} (hword : Ty.i1.Holds word) : word = (decide (word = 1)).toUInt16 := by
    have hlt : word.toNat < 2 := hword
    by_cases hone : word = 1
    · rw [hone]
      rfl
    · rw [decide_eq_false hone]
      apply UInt16.toNat_inj.mp
      have hne : word.toNat ≠ 1 := fun heq => hone (UInt16.toNat_inj.mp heq)
      show word.toNat = 0
      omega
  refine ⟨fun id => (frame.function.constant? id).getD 0, _, _, _, fun id _ bits hbits => ?_,
    hbyte (hword hready.accumulator), hbyte (hword hready.operand), hflag (hword hready.carry)⟩
  rw [hbits]
  rfl

/-- The code of an operation on the accumulator leads from a frame in which
its operand is known to another, with the same index registers. -/
structure Leads (step : ValueId → Lowering Unit) (operation : Operation) (frame : Frame)
    (operand : ValueId) (frame' : Frame) : Prop where
  run : step operand frame = .ok ((), frame')
  lower : ∀ (platform : Platform) (sites : Sites) (instruction : Instruction) (before : Frame),
    instruction.operation = operation →
    Lowering.operand platform instruction before = .ok (operand, frame) →
    Lowering.lower platform sites instruction before = .ok ((), frame')
  x : frame'.registers.x = frame.registers.x
  y : frame'.registers.y = frame.registers.y

theorem exists_leads {step : ValueId → Lowering Unit} (operation : Operation)
    {compute : Registers → Byte → Registers} (hready : Ready frame operand)
    (hlower : ∀ (platform : Platform) (sites : Sites) (instruction : Instruction),
      instruction.operation = operation → Lowering.lower platform sites instruction =
        (do step (← Lowering.operand platform instruction)))
    (hstep : ∀ (knowledge : Knowledge frame.function frame.block) (facts : List Fact)
      (registers : Registers) (content : Byte), knowledge.Knows [] facts →
      ⟨frame.registers.get (.byte .a), .i8, .word registers.a.toUInt16⟩ ∈ facts →
      ⟨operand, .i8, .word content.toUInt16⟩ ∈ facts →
      ⟨frame.registers.get (.flag .c), .i1, .word registers.c.toUInt16⟩ ∈ facts →
      ∃ outputs : Knowledge.Outputs, ∃ code,
        step operand (frame.function.frame frame.block [] frame.registers) =
          .ok ((), frame.function.frame frame.block code (outputs.into frame.registers)) ∧
        knowledge.Knows code (outputs.holding (compute registers content) ++ facts)) :
    ∃ frame', Leads step operation frame operand frame' ∧
      ∀ given accumulator content carry, Supplies given frame operand accumulator content carry →
        ∀ later, frame'.function.Extends later →
          ∃ outputs : Knowledge.Outputs, frame'.registers = outputs.into frame.registers ∧
            ∀ fact ∈ outputs.holding
                (compute ⟨accumulator, 0, 0, false, false, false, carry⟩ content),
              fact.datum = .word (later.wordFrom frame.function.values.size given fact.id) := by
  have hsupplied {given : ValueId → UInt16} {accumulator content : Byte} {carry : Bool}
      (hsupplies : Supplies given frame operand accumulator content carry) :=
    hstep (Knowledge.given frame.function frame.block hready.block given) _
      ⟨accumulator, 0, 0, false, false, false, carry⟩ _ (hsupplies.knows hready)
      (.head _) (.tail _ (.head _)) (.tail _ (.tail _ (.head _)))
  rw [Frame.frame_self] at hsupplied
  obtain ⟨_, _, _, _, hsupplies⟩ := hready.exists_supplies
  obtain ⟨outputs, code, hrun, _⟩ := hsupplied hsupplies
  refine ⟨_, ⟨hrun, ?_, rfl, rfl⟩, ?_⟩
  · intro platform sites instruction before hoperation hoperand
    rw [hlower platform sites instruction hoperation]
    exact (StateT.bind_of_ok hoperand).trans hrun
  · intro given accumulator content carry hsupplies later hextends
    obtain ⟨outputs', code', hrun', hknows⟩ := hsupplied hsupplies
    have hframe := (Prod.mk.inj (Except.ok.inj (hrun.symm.trans hrun'))).2
    rw [hframe] at hextends ⊢
    refine ⟨outputs', rfl, fun fact hfact => ?_⟩
    exact hknows.2 later hextends fact (List.mem_append_left _ hfact)

/-- Addition and subtraction with carry are those of integers, whatever of the
accumulator, the operand and the carry is constant. -/
theorem arithmetic_settles (hready : Ready frame operand) :
    (∃ sum, Leads addWithCarry .addWithCarry frame operand sum ∧
      ∀ (given : ValueId → UInt16) (a m : Byte) (c : Bool), Supplies given frame operand a m c →
        ∀ later, sum.function.Extends later →
          Settles (later.wordFrom frame.function.values.size given) sum.registers
            (a.toNat + m.toNat + c.toNat)
            (twosComplement 8 a.toNat + twosComplement 8 m.toNat + c.toNat)
            (decide (256 ≤ a.toNat + m.toNat + c.toNat))) ∧
    ∃ difference, Leads subtractWithCarry .subtractWithCarry frame operand difference ∧
      ∀ (given : ValueId → UInt16) (a m : Byte) (c : Bool), Supplies given frame operand a m c →
        ∀ later, difference.function.Extends later →
          Settles (later.wordFrom frame.function.values.size given) difference.registers
            (a.toNat - m.toNat - (1 - c.toNat))
            (twosComplement 8 a.toNat - twosComplement 8 m.toNat - (1 - c.toNat))
            (decide (m.toNat + (1 - c.toNat) ≤ a.toNat)) := by
  constructor
  · obtain ⟨sum, hleads, hholding⟩ := exists_leads .addWithCarry hready
      (fun platform sites instruction hoperation => by unfold Lowering.lower; rw [hoperation])
      fun knowledge _ _ _ => Knowledge.addWithCarry
    refine ⟨sum, hleads, fun given a m c hsupplies later hextends => ?_⟩
    obtain ⟨outputs, hregisters, hwords⟩ := hholding given a m c hsupplies later hextends
    rw [hregisters]
    exact Knowledge.Outputs.settles_addWithCarry hwords
  · obtain ⟨difference, hleads, hholding⟩ := exists_leads .subtractWithCarry hready
      (fun platform sites instruction hoperation => by unfold Lowering.lower; rw [hoperation])
      fun knowledge _ _ _ => Knowledge.subtractWithCarry
    refine ⟨difference, hleads, fun given a m c hsupplies later hextends => ?_⟩
    obtain ⟨outputs, hregisters, hwords⟩ := hholding given a m c hsupplies later hextends
    rw [hregisters]
    exact Knowledge.Outputs.settles_subtractWithCarry hwords

/-- The accumulator and the carry are parameters, the operand is a constant. -/
def halfKnown : Frame where
  function := {
    name := "half_known"
    linkage := .internal
    params := [⟨0⟩, ⟨1⟩]
    result := .void
    values := #[⟨.param 0, .i8, some "a"⟩, ⟨.param 1, .i1, some "c"⟩, ⟨.const 0x50, .i8, none⟩]
    blocks := #[{ label := "entry" }] }
  block := ⟨0⟩
  registers := { a := ⟨0⟩, x := ⟨2⟩, y := ⟨2⟩, n := ⟨1⟩, v := ⟨1⟩, z := ⟨1⟩, c := ⟨1⟩ }

/-- 80 and 80 are 160, which is no signed byte; 80 less 80 and the borrow is
255, with a borrow. -/
theorem arithmetic_settles_halfKnown :
    ∃ given sum difference, Supplies given halfKnown ⟨2⟩ 80 80 false ∧
      addWithCarry ⟨2⟩ halfKnown = .ok ((), sum) ∧
      subtractWithCarry ⟨2⟩ halfKnown = .ok ((), difference) ∧
      (sum.function.wordFrom 3 given sum.registers.a).toNat = 160 ∧
      sum.function.wordFrom 3 given sum.registers.v = 1 ∧
      (difference.function.wordFrom 3 given difference.registers.a).toNat = 255 ∧
      difference.function.wordFrom 3 given difference.registers.c = 0 := by
  have hready : Ready halfKnown ⟨2⟩ := by
    refine ⟨by decide, ⟨rfl, ?_⟩, ⟨rfl, ?_⟩, ⟨rfl, ?_⟩⟩
    · intro bits hbits
      cases hbits
    · intro bits hbits
      cases hbits
      show (0x50 : UInt16).toNat < 2 ^ Ty.i8.width
      decide
    · intro bits hbits
      cases hbits
  have hsupplies : Supplies (fun id => if id.index = 1 then 0 else 80) halfKnown ⟨2⟩ 80 80
      false := by
    refine ⟨?_, rfl, rfl, rfl⟩
    intro id hid bits hbits
    simp only [List.mem_cons, List.not_mem_nil, or_false] at hid
    rcases hid with rfl | rfl | rfl <;> cases hbits
    rfl
  obtain ⟨⟨sum, hsum, hsettles⟩, difference, hdifference, hsettles'⟩ := arithmetic_settles hready
  have hsettled := hsettles _ _ _ _ hsupplies _ (.refl _)
  have hsettled' := hsettles' _ _ _ _ hsupplies _ (.refl _)
  exact ⟨_, sum, difference, hsupplies, hsum.run, hdifference.run,
    Int.ofNat_inj.mp hsettled.accumulator, hsettled.overflow,
    Int.ofNat_inj.mp hsettled'.accumulator, hsettled'.carry⟩

end Lowering

end Lift6502
