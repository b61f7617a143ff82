import Lift6502.Proofs.Lowering.Stretches
import Lift6502.Proofs.Ssa.Construction

/-! The symbols that lifted code refers to. Accesses name the global or the
imports of the platform, and every other call names a routine that an
instruction of the code calls. -/

namespace Lift6502

open Ssa

variable {platform : Platform} {callable : Address → Prop}

/-- The symbols of an instruction are those of the platform and of routines
that may be called. -/
def Platform.Names (platform : Platform) (callable : Address → Prop) : Inst → Prop
  | .call callee _ =>
      (∃ target, callable target ∧ callee = routineName target) ∨
        platform = .nes ∧ (callee = Platform.hostRead ∨ callee = Platform.hostWrite)
  | .load global _ | .store global _ _ => platform = .flat ∧ global = Platform.ram
  | .param _ | .const _ | .phi _ | .binary .. | .compare .. | .zext _ | .trunc _ | .makeRegs _
  | .extractReg .. => True

/-- All instructions of a function name known symbols. -/
def Ssa.Function.Names (platform : Platform) (callable : Address → Prop) (function : Function) :
    Prop :=
  function.Each fun _ value => platform.Names callable value.inst

theorem Ssa.Value.Computed.names {position : Nat} {value : Value}
    (hcomputed : value.Computed position) : platform.Names callable value.inst := by
  obtain ⟨inst, type, name⟩ := value
  cases inst with
  | load | store | call => exact hcomputed.elim
  | _ => trivial

namespace Lowering

def Names {α : Type} (platform : Platform) (callable : Address → Prop) (step : Lowering α) :
    Prop :=
  Keeps (fun frame => frame.function.Names platform callable) step

variable {α β : Type}

theorem Names.pure (result : α) : Names platform callable (pure result) :=
  Keeps.pure result

theorem Names.throw (error : LiftError) : Names platform callable (throw error : Lowering α) :=
  Keeps.throw error

theorem Names.bind {step : Lowering α} {next : α → Lowering β}
    (hstep : Names platform callable step)
    (hnext : ∀ result, Names platform callable (next result)) :
    Names platform callable (step >>= next) :=
  Keeps.bind hstep hnext

/-! Steps of construction -/

theorem names_build {step : BlockId → Builder α}
    (hstep : ∀ block, Keeps (Function.Names platform callable) (step block)) :
    Names platform callable (build step) := by
  rintro ⟨function, block, registers⟩ result frame' hrun hnames
  simp only [build] at hrun
  cases hbuilt : step block function with
  | error fault =>
      rw [hbuilt] at hrun
      cases hrun
  | ok reached =>
      rw [hbuilt] at hrun
      cases hrun
      exact hstep block _ _ _ hbuilt hnames

theorem names_byte (value : Byte) : Names platform callable (byte value) :=
  names_build fun _ => Builder.keeps_const (fun _ _ => Value.Computed.names) _ _

theorem names_word (value : Address) : Names platform callable (word value) :=
  names_build fun _ => Builder.keeps_const (fun _ _ => Value.Computed.names) _ _

theorem names_flag (value : Bool) : Names platform callable (flag value) :=
  names_build fun _ => Builder.keeps_const (fun _ _ => Value.Computed.names) _ _

theorem names_binary (op : BinOp) (lhs rhs : ValueId) :
    Names platform callable (binary op lhs rhs) :=
  names_build fun block => Builder.keeps_binary (fun _ _ => Value.Computed.names) block op lhs rhs

theorem names_compare (predicate : Predicate) (lhs rhs : ValueId) :
    Names platform callable (compare predicate lhs rhs) :=
  names_build fun block =>
    Builder.keeps_compare (fun _ _ => Value.Computed.names) block predicate lhs rhs

theorem names_zext (value : ValueId) : Names platform callable (zext value) :=
  names_build fun block => Builder.keeps_zext (fun _ _ => Value.Computed.names) block value .i16

theorem names_trunc (value : ValueId) : Names platform callable (trunc value) :=
  names_build fun block => Builder.keeps_trunc (fun _ _ => Value.Computed.names) block value .i8

theorem names_setRegister (register : Register) (value : ValueId) :
    Names platform callable (setRegister register value) := by
  intro frame result frame' hrun hnames
  cases hrun
  exact hnames

theorem names_getByte (register : ByteRegister) : Names platform callable (getByte register) := by
  intro frame result frame' hrun hnames
  cases hrun
  exact hnames

theorem names_getFlag (flag : Flag) : Names platform callable (getFlag flag) := by
  intro frame result frame' hrun hnames
  cases hrun
  exact hnames

theorem names_allRegisters : Names platform callable allRegisters := by
  intro frame result frame' hrun hnames
  cases hrun
  exact hnames

/-! Memory operands -/

theorem keeps_loadComputed (block : BlockId) (address : ValueId) :
    Keeps (Function.Names platform callable) (platform.loadComputed block address) := by
  cases platform with
  | flat => exact Builder.keeps_emit block fun _ => ⟨rfl, rfl⟩
  | nes => exact Builder.keeps_emit block fun _ => .inr ⟨rfl, .inl rfl⟩

theorem keeps_storeComputed (block : BlockId) (address value : ValueId) :
    Keeps (Function.Names platform callable) (platform.storeComputed block address value) := by
  cases platform with
  | flat => exact .bind (Builder.keeps_emit block fun _ => ⟨rfl, rfl⟩) fun _ => .pure ()
  | nes =>
      exact .bind (Builder.keeps_emit block fun _ => .inr ⟨rfl, .inr rfl⟩) fun _ => .pure ()

theorem names_loadFixed (address : Address) :
    Names platform callable (loadFixed platform address) := by
  refine names_build fun block => ?_
  exact .bind (Builder.keeps_const (fun _ _ => Value.Computed.names) _ _) fun index =>
    keeps_loadComputed block index

theorem names_load (place : Place) : Names platform callable (load platform place) := by
  cases place with
  | fixed address => exact names_loadFixed address
  | computed address => exact names_build fun block => keeps_loadComputed block address

theorem names_store (place : Place) (value : ValueId) :
    Names platform callable (store platform place value) := by
  cases place with
  | fixed address =>
      show Names platform callable (build fun block => platform.store block address value)
      refine names_build fun block => ?_
      exact .bind (Builder.keeps_const (fun _ _ => Value.Computed.names) _ _) fun index =>
        keeps_storeComputed block index value
  | computed address => exact names_build fun block => keeps_storeComputed block address value

theorem names_indexed (base : Address) (register : ByteRegister) :
    Names platform callable (indexed base register) :=
  .bind (names_getByte register) fun _ => .bind (names_zext _) fun _ => .bind (names_word base)
    fun _ => names_binary _ _ _

theorem names_indirectIndexed (pointer : Byte) :
    Names platform callable (indirectIndexed platform pointer) :=
  .bind (names_loadFixed _) fun _ => .bind (names_loadFixed _) fun _ => .bind (names_zext _)
    fun _ => .bind (names_zext _) fun _ => .bind (names_word 8) fun _ => .bind (names_binary _ _ _)
    fun _ => .bind (names_binary _ _ _) fun _ => .bind (names_getByte .y) fun _ =>
      .bind (names_zext _) fun _ => names_binary _ _ _

theorem names_place (instruction : Instruction) :
    Names platform callable (place platform instruction) := by
  unfold place
  split
  · exact .pure _
  · exact .pure _
  · exact .bind (names_indexed _ _) fun _ => .pure _
  · exact .bind (names_indexed _ _) fun _ => .pure _
  · exact .bind (names_indirectIndexed _) fun _ => .pure _
  · exact .throw _
  · exact .throw _
  · exact .throw _

theorem names_operand (instruction : Instruction) :
    Names platform callable (operand platform instruction) := by
  unfold operand
  split
  · exact names_byte _
  · exact .bind (names_place instruction) names_load

/-! Instructions that go on -/

theorem names_setNZ (value : ValueId) : Names platform callable (setNZ value) :=
  .bind (names_byte 0) fun _ => .bind (names_compare _ _ _) fun _ => .bind (names_compare _ _ _)
    fun _ => .bind (names_setRegister _ _) fun _ => names_setRegister _ _

theorem names_setWithNZ (register : ByteRegister) (value : ValueId) :
    Names platform callable (setWithNZ register value) :=
  .bind (names_setRegister _ _) fun _ => names_setNZ value

theorem names_addWithCarry (addend : ValueId) :
    Names platform callable (addWithCarry addend) :=
  .bind (names_getByte .a) fun _ => .bind (names_zext _) fun _ => .bind (names_zext _) fun _ =>
    .bind (names_getFlag .c) fun _ => .bind (names_zext _) fun _ => .bind (names_binary _ _ _)
    fun _ => .bind (names_binary _ _ _) fun _ => .bind (names_word _) fun _ =>
    .bind (names_compare _ _ _) fun _ => .bind (names_trunc _) fun _ => .bind (names_binary _ _ _)
    fun _ => .bind (names_binary _ _ _) fun _ => .bind (names_binary _ _ _) fun _ =>
    .bind (names_byte 0) fun _ => .bind (names_compare _ _ _) fun _ =>
    .bind (names_setRegister _ _) fun _ => .bind (names_setRegister _ _) fun _ =>
    .bind (names_setRegister _ _) fun _ => names_setNZ _

theorem names_subtractWithCarry (subtrahend : ValueId) :
    Names platform callable (subtractWithCarry subtrahend) :=
  .bind (names_byte _) fun _ => .bind (names_binary _ _ _) names_addWithCarry

theorem names_compareRegister (register : ByteRegister) (instruction : Instruction) :
    Names platform callable (compareRegister register platform instruction) :=
  .bind (names_getByte register) fun _ => .bind (names_operand instruction) fun _ =>
    .bind (names_binary _ _ _) fun _ => .bind (names_setNZ _) fun _ =>
    .bind (names_compare _ _ _) fun _ => names_setRegister _ _

theorem names_stepRegister (op : BinOp) (register : ByteRegister) :
    Names platform callable (stepRegister op register) :=
  .bind (names_byte 1) fun _ => .bind (names_getByte register) fun _ =>
    .bind (names_binary _ _ _) fun _ => names_setWithNZ register _

theorem names_stepMemory (op : BinOp) (instruction : Instruction) :
    Names platform callable (stepMemory op platform instruction) :=
  .bind (names_place instruction) fun place => .bind (names_load place) fun _ =>
    .bind (names_byte 1) fun _ => .bind (names_binary _ _ _) fun _ =>
    .bind (names_store place _) fun _ => names_setNZ _

theorem names_bitTest (value : ValueId) : Names platform callable (bitTest value) :=
  .bind (names_byte 0) fun _ => .bind (names_byte _) fun _ => .bind (names_compare _ _ _) fun _ =>
    .bind (names_binary _ _ _) fun _ => .bind (names_compare _ _ _) fun _ =>
    .bind (names_getByte .a) fun _ => .bind (names_binary _ _ _) fun _ =>
    .bind (names_compare _ _ _) fun _ => .bind (names_setRegister _ _) fun _ =>
    .bind (names_setRegister _ _) fun _ => names_setRegister _ _

theorem names_call {instruction : Instruction}
    (hcallable : ∀ target, instruction.callTarget? = some target → callable target) :
    Names platform callable (call instruction) := by
  have hcall (target : Address) (htarget : instruction.callTarget? = some target)
      (args : List ValueId) : Names platform callable
        (build fun block => Builder.call block (routineName target) .regs args) :=
    names_build fun block =>
      Builder.keeps_emit block fun _ => .inl ⟨target, hcallable target htarget, rfl⟩
  unfold call
  cases htarget : instruction.callTarget? with
  | none =>
      intro frame result frame' hrun
      cases hrun
  | some target =>
      simp only [Lowering.target, pure_bind]
      refine .bind names_allRegisters fun _ => .bind (hcall target htarget _) fun _ => ?_
      refine Keeps.forM _ fun register _ => ?_
      refine Keeps.bind (names_build fun block => ?_) fun _ => names_setRegister register _
      exact Builder.keeps_emit block fun _ => trivial

theorem names_lower {instruction : Instruction} (sites : Sites)
    (hstraight : instruction.transfers = false)
    (hcallable : ∀ target, instruction.callTarget? = some target → callable target) :
    Names platform callable (lower platform sites instruction) := by
  unfold lower
  cases hoperation : instruction.operation with
  | load register =>
      exact .bind (names_operand instruction) fun _ => names_setWithNZ register _
  | store register =>
      exact .bind (names_place instruction) fun place => .bind (names_getByte register) fun _ =>
        names_store place _
  | compare register => exact names_compareRegister register instruction
  | increment register => exact names_stepRegister .add register
  | decrement register => exact names_stepRegister .sub register
  | incrementMemory => exact names_stepMemory .add instruction
  | decrementMemory => exact names_stepMemory .sub instruction
  | logic op =>
      exact .bind (names_getByte .a) fun _ => .bind (names_operand instruction) fun _ =>
        .bind (names_binary _ _ _) fun _ => names_setWithNZ .a _
  | bitTest => exact .bind (names_operand instruction) names_bitTest
  | addWithCarry => exact .bind (names_operand instruction) names_addWithCarry
  | subtractWithCarry => exact .bind (names_operand instruction) names_subtractWithCarry
  | transfer source target =>
      exact .bind (names_getByte source) fun _ => names_setWithNZ target _
  | setFlag which value => exact .bind (names_flag value) fun _ => names_setRegister _ _
  | call => exact names_call hcallable
  | idle => exact .pure ()
  | branch | jump | ret =>
      simp [Instruction.transfers, Instruction.isBranch, Instruction.isTerminal, hoperation]
        at hstraight

end Lowering

theorem Decoder.Passes.straight {decoder : Decoder} {address final : Address}
    {instructions : List Instruction} (hpasses : decoder.Passes address instructions final) :
    ∀ instruction ∈ instructions, instruction.transfers = false := by
  induction hpasses with
  | nil => exact fun _ hmem => nomatch hmem
  | cons hdecoded hstraight hrest ih => exact List.forall_mem_cons.mpr ⟨hstraight, ih⟩

/-- The code of instructions that control passes names the platform's symbols
and the routines that they call. -/
theorem Lowers.names {sites : Sites} {start : Function} {block : BlockId}
    {instructions : List Instruction} {code : List Value} {values values' : PerRegister ValueId}
    {decoder : Decoder} {address final : Address}
    (hlowers : Lowers platform sites start block instructions [] values code values')
    (hpasses : decoder.Passes address instructions final)
    (hcallable : ∀ instruction ∈ instructions, ∀ target,
      instruction.callTarget? = some target → callable target)
    (hstart : start.Names platform callable) :
    (start.append block code).Names platform callable := by
  have hnames : Lowering.Names platform callable
      (instructions.forM (Lowering.lower platform sites)) :=
    Keeps.forM instructions fun instruction hmem => Lowering.names_lower sites
      (hpasses.straight instruction hmem) (hcallable instruction hmem)
  refine hnames _ _ _ hlowers.forM_eq ?_
  rwa [Function.append_nil]

end Lift6502
