import Lift6502.Proofs.Lowering.Calls

/-! Constant registers. Instructions that work on registers alone leave
constants where they find constants, so they add nothing to any block. -/

namespace Lift6502

open Ssa

namespace Machine

variable {σ : Type}

/-- Executes instructions one after another, while each goes on to the next. -/
def executeAll (host : Host σ) : List Instruction → Registers → Host.Access σ Registers
  | [], registers => return registers
  | instruction :: rest, registers => do
      match ← execute host instruction registers with
      | (registers, .next) => executeAll host rest registers
      | _ => failure

theorem executeAll_cons {host : Host σ} {instruction : Instruction} {rest : List Instruction}
    {registers registers' : Registers} {state state' : σ}
    (hexecute : execute host instruction registers state = some ((registers', .next), state')) :
    executeAll host (instruction :: rest) registers state =
      executeAll host rest registers' state' := by
  simp only [executeAll, bind, StateT.bind]
  rw [hexecute]
  rfl

end Machine

namespace Instruction

/-- The instruction has been decoded, has no operand in memory, and goes on to
the next. -/
structure Internal (instruction : Instruction) : Prop where
  decoded : ∃ (decoder : Decoder) (location : Address),
    decoder.instruction? location = some instruction
  operand : ∀ operand, instruction.operand = some operand → ∃ value, operand = .immediate value
  straight : instruction.transfers = false

theorem Internal.takes_mode {instruction : Instruction} (hinternal : instruction.Internal) :
    instruction.operation.takes instruction.mode = true := by
  obtain ⟨decoder, location, hdecoded⟩ := hinternal.decoded
  exact (Decoder.placedAt_of_instruction? hdecoded).takes_mode

end Instruction

theorem Operation.readsByte_of_takes_immediate {operation : Operation}
    (htakes : operation.takes .immediate = true) : operation.readsByte = true := by
  cases operation <;> first | rfl | cases htakes

/-- The registers are constants of their types. -/
def Frame.IsConstant (frame : Frame) (registers : Registers) : Prop :=
  ∀ register : Register,
    frame.function.type? (frame.registers.get register) = some register.type ∧
    frame.function.constant? (frame.registers.get register) =
      some (registers.words.get register)

namespace Knowledge

/-- Facts about constants, in a function whose blocks are still those of
`start`. -/
def constants (start : Function) (block : BlockId) (hblock : block.index < start.blocks.size) :
    Knowledge start block where
  Knows code facts := (start.append block code).blocks = start.blocks ∧
    ∀ fact ∈ facts, (start.append block code).Agrees fact ∧
      ((start.append block code).constant? fact.id).isSome
  weaken hknows hsubset := ⟨hknows.1, fun fact hfact => hknows.2 fact (hsubset fact hfact)⟩
  operate {code facts operation type bits} hknows hyields := by
    obtain ⟨hblocks, hfacts⟩ := hknows
    obtain ⟨inst, hbuild, _, hagrees⟩ := hyields.build (fun fact hfact => (hfacts fact hfact).1)
      (by rw [hblocks]; exact hblock)
    have hconstants : ∀ operand ∈ operation.inst.operands,
        ((start.append block code).constant? operand).isSome := by
      intro operand hoperand
      obtain ⟨fact, hfact, rfl⟩ := hyields.operand operand hoperand
      exact (hfacts fact hfact).2
    obtain ⟨hconstant, hsame⟩ := Ssa.Operation.constant?_build hbuild hconstants
    have hkept : ∀ fact ∈ facts, (((start.append block code).append block
        [⟨inst, type, none⟩]).constant? fact.id).isSome := by
      intro fact hfact
      rw [Function.constant?_append _ _ (hfacts fact hfact).1.type?]
      exact (hfacts fact hfact).2
    have hall : ∀ fact ∈ ⟨⟨(start.append block code).values.size⟩, type, .word bits⟩ :: facts,
        (((start.append block code).append block [⟨inst, type, none⟩]).constant? fact.id).isSome :=
      List.forall_mem_cons.mpr ⟨hconstant, hkept⟩
    rw [Function.append_append] at hbuild hagrees hsame hall
    exact ⟨_, _, .of_build hbuild, hsame.trans hblocks,
      fun fact hfact => ⟨hagrees fact hfact, hall fact hfact⟩⟩

variable {start : Function} {block : BlockId} {hblock : block.index < start.blocks.size}
  {code : List Value} {facts : List Fact} {values : PerRegister ValueId} {registers : Registers}

theorem Carries.isConstant
    (hcarries : (constants start block hblock).Carries code values facts registers) :
    (start.frame block code values).IsConstant registers := by
  intro register
  obtain ⟨hagrees, hconstant⟩ := hcarries.knows.2 _ (hcarries.carried register)
  obtain ⟨bits, hbits⟩ := Option.isSome_iff_exists.mp hconstant
  refine ⟨hagrees.type?, hbits.trans (congrArg some ?_)⟩
  exact (Datum.word.inj (hagrees.constant? bits hbits)).symm

theorem carries_of_isConstant {frame : Frame}
    (hblock : frame.block.index < frame.function.blocks.size)
    (hconstant : frame.IsConstant registers) :
    (constants frame.function frame.block hblock).Carries [] frame.registers
      (Register.all.map fun register => ⟨frame.registers.get register, register.type,
        .word (registers.words.get register)⟩) registers := by
  refine ⟨⟨by rw [Function.append_nil], ?_⟩, fun register =>
    List.mem_map.mpr ⟨register, Register.mem_all register, rfl⟩⟩
  intro fact hfact
  obtain ⟨register, _, rfl⟩ := List.mem_map.mp hfact
  obtain ⟨htype, hbits⟩ := hconstant register
  rw [Function.append_nil]
  refine ⟨⟨htype, fun bits hother => ?_, register.isInteger_type,
    registers.holds_words register⟩, ?_⟩
  · rw [hbits] at hother
    rw [Option.some.inj hother]
  · rw [hbits]
    rfl

/-- The code of an instruction on constants is made of constants. -/
theorem Carries.lower_internal
    (hcarries : (constants start block hblock).Carries code values facts registers)
    {instruction : Instruction} (hinternal : instruction.Internal) (platform : Platform)
    (sites : Sites) :
    ∃ registers',
      (constants start block hblock).Leaves (Lowering.lower platform sites instruction) code values
        registers' ∧
      ∀ {σ : Type} (host : Host σ) (state : σ),
        Machine.execute host instruction registers state =
          some ((registers', .next), state) := by
  have htakes := hinternal.takes_mode
  unfold Instruction.mode at htakes
  cases hoperand : instruction.operand with
  | none =>
      rw [hoperand] at htakes
      exact hcarries.lower_implied platform sites htakes hinternal.straight
  | some operand =>
      obtain ⟨content, rfl⟩ := hinternal.operand operand hoperand
      rw [hoperand] at htakes
      obtain ⟨id, code₁, hbyte, hknows₁⟩ := byte hcarries.knows content
      have hcarries₁ : (constants start block hblock).Carries code₁ values _ registers :=
        ⟨hknows₁, hcarries.carried.cons⟩
      have hvalue : Lowering.operand platform instruction (start.frame block code values) =
          .ok (id, start.frame block code₁ values) := by
        unfold Lowering.operand
        rw [hoperand]
        exact hbyte values
      obtain ⟨registers', hleaves, hexecute⟩ := hcarries₁.lower_value (.head _) sites
        (Operation.readsByte_of_takes_immediate htakes) hvalue
      refine ⟨registers', hleaves, fun host state => hexecute host state state ?_⟩
      rw [hoperand]
      rfl

theorem Carries.lower_all
    (hcarries : (constants start block hblock).Carries code values facts registers)
    (platform : Platform) (sites : Sites) {instructions : List Instruction}
    (hinternal : ∀ instruction ∈ instructions, instruction.Internal) :
    ∃ registers',
      (constants start block hblock).Leaves
        (instructions.forM (Lowering.lower platform sites)) code values registers' ∧
      ∀ {σ : Type} (host : Host σ) (state : σ),
        Machine.executeAll host instructions registers state = some (registers', state) := by
  induction instructions generalizing code values facts registers with
  | nil => exact ⟨registers, ⟨code, values, facts, rfl, hcarries⟩, fun _ _ => rfl⟩
  | cons instruction rest ih =>
      obtain ⟨hfirst, hrest⟩ := List.forall_mem_cons.mp hinternal
      obtain ⟨registers₁, ⟨code₁, values₁, facts₁, hlower, hcarries₁⟩, hexecute⟩ :=
        hcarries.lower_internal hfirst platform sites
      obtain ⟨registers', ⟨code', values', facts', hlowers, hcarries'⟩, hexecutes⟩ :=
        ih hcarries₁ hrest
      refine ⟨registers', ⟨code', values', facts', ?_, hcarries'⟩, fun host state => ?_⟩
      · exact (StateT.bind_of_ok hlower).trans hlowers
      · rw [Machine.executeAll_cons (hexecute host state)]
        exact hexecutes host state

end Knowledge

namespace Lowering

/-- Lowering instructions that work on registers alone turns constant registers
into the constants the machine computes, and no block gets an instruction. -/
theorem constants_propagate {frame : Frame} {registers : Registers}
    (hblock : frame.block.index < frame.function.blocks.size)
    (hconstant : frame.IsConstant registers) (platform : Platform) (sites : Sites)
    {instructions : List Instruction}
    (hinternal : ∀ instruction ∈ instructions, instruction.Internal) :
    ∃ frame' registers',
      instructions.forM (lower platform sites) frame = .ok ((), frame') ∧
      frame'.function.blocks = frame.function.blocks ∧
      frame'.IsConstant registers' ∧
      ∀ {σ : Type} (host : Host σ) (state : σ),
        Machine.executeAll host instructions registers state = some (registers', state) := by
  obtain ⟨registers', ⟨code, values, facts, hlower, hcarries⟩, hexecute⟩ :=
    (Knowledge.carries_of_isConstant hblock hconstant).lower_all platform sites hinternal
  rw [Frame.frame_self] at hlower
  exact ⟨_, registers', hlower, hcarries.knows.1, hcarries.isConstant, hexecute⟩

/-- All registers are zero. -/
def cleared : Frame where
  function := {
    name := "cleared"
    linkage := .internal
    params := []
    result := .void
    values := #[⟨.const 0, .i8, none⟩, ⟨.const 0, .i1, none⟩]
    blocks := #[{ label := "entry" }] }
  block := ⟨0⟩
  registers := { a := ⟨0⟩, x := ⟨0⟩, y := ⟨0⟩, n := ⟨1⟩, v := ⟨1⟩, z := ⟨1⟩, c := ⟨1⟩ }

/-- Sets the carry, adds 1 to 127 with it, and increments X. -/
def carryIntoSign : Decoder where
  space := Image.space { base := 0x10, bytes := #[0x38, 0xA9, 0x7F, 0x69, 0x01, 0xE8] }

theorem constants_propagate_cleared :
    ∃ (instructions : List Instruction) (frame' : Frame),
      [0x10, 0x11, 0x13, 0x15].map carryIntoSign.instruction? = instructions.map some ∧
      instructions.forM (lower .flat ∅) cleared = .ok ((), frame') ∧
      frame'.function.blocks = cleared.function.blocks ∧
      frame'.IsConstant
        { a := 0x81, x := 1, y := 0, n := false, v := true, z := false, c := false } := by
  have hset : carryIntoSign.instruction? 0x10 = some ⟨0x10, .sec, none, none⟩ := rfl
  have hload : carryIntoSign.instruction? 0x11 =
      some ⟨0x11, .lda, some (.immediate 0x7F), none⟩ := rfl
  have hadd : carryIntoSign.instruction? 0x13 =
      some ⟨0x13, .adc, some (.immediate 0x01), none⟩ := rfl
  have hincrement : carryIntoSign.instruction? 0x15 = some ⟨0x15, .inx, none, none⟩ := rfl
  have hconstant : cleared.IsConstant ⟨0, 0, 0, false, false, false, false⟩ := by
    rintro (register | flag)
    · cases register <;> exact ⟨rfl, rfl⟩
    · cases flag <;> exact ⟨rfl, rfl⟩
  have hinternal : ∀ instruction ∈ ([_, _, _, _] : List Instruction), instruction.Internal :=
    List.forall_mem_cons.mpr ⟨⟨⟨_, _, hset⟩, by simp, rfl⟩,
    List.forall_mem_cons.mpr ⟨⟨⟨_, _, hload⟩, by simp, rfl⟩,
    List.forall_mem_cons.mpr ⟨⟨⟨_, _, hadd⟩, by simp, rfl⟩,
    List.forall_mem_cons.mpr ⟨⟨⟨_, _, hincrement⟩, by simp, rfl⟩, by simp⟩⟩⟩⟩
  obtain ⟨frame', registers', hlower, hblocks, hfinal, hexecute⟩ :=
    constants_propagate (by decide) hconstant .flat ∅ hinternal
  have hregisters := hexecute (σ := Unit) ⟨fun _ state => (0, state), fun _ _ state => state⟩ ()
  have hcomputed : (_, ()) = (registers', ()) := Option.some.inj hregisters
  cases hcomputed
  exact ⟨_, frame', by simp [hset, hload, hadd, hincrement], hlower, hblocks, hfinal⟩

end Lowering

end Lift6502
