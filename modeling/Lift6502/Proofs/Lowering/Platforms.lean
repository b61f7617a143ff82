import Lift6502.Proofs.Lowering.Counterparts
import Lift6502.Proofs.Routine.Blocks

/-! The code of instructions on the two platforms. The steps of lowering stay
together, since the constants that differ are operands of accesses only. -/

namespace Lift6502

open Ssa

/-! Accesses of instructions -/

/-- The address of a memory operand that is fixed when code is lifted. -/
def Operand.address? : Operand → Option Address
  | .absolute address => some address
  | .zeroPage address => some address.toUInt16
  | .absoluteX _ | .absoluteY _ | .immediate _ | .indirectY _ | .relative _ => none

/-- The bytes of the pointer that leads to a memory operand. -/
def Operand.pointer : Operand → List (Option Address)
  | .indirectY pointer => [some pointer.toUInt16, some (pointer + 1).toUInt16]
  | _ => []

/-- How often an operation accesses its memory operand. -/
def Operation.uses : Operation → Nat
  | .load _ | .store _ | .compare _ | .logic _ | .bitTest | .addWithCarry
  | .subtractWithCarry => 1
  | .incrementMemory | .decrementMemory => 2
  | .increment _ | .decrement _ | .transfer .. | .setFlag .. | .branch .. | .jump | .call | .ret
  | .idle => 0

/-- The accesses that an instruction makes, in their order: each by its
address, or by nothing if the address is computed when the code runs. -/
def Instruction.accesses (instruction : Instruction) : List (Option Address) :=
  match instruction.operation.uses, instruction.operand with
  | 0, _ | _, none | _, some (.immediate _) => []
  | uses, some operand => operand.pointer ++ List.replicate uses operand.address?

/-! Steps of lowering -/

/-- Two functions under construction for the same code, at a point where the
registers hold the same values. -/
structure Twins (sites : Sites) (accesses : List (Option Address))
    (registers : PerRegister ValueId) (flat nes : Function) : Prop where
  functions : flat.Matches accesses nes
  registers : ∀ register, flat.Agree nes (registers.get register)
  phis : ∀ (target : Address) (site : Site), sites[target]? = some site → ∀ register,
    flat.IsPhi (site.registers.phi register)

namespace Lowering

variable {α β : Type} {sites : Sites} {given : List ValueId} {accesses more : List (Option Address)}
  {known : α → List ValueId} {known' : β → List ValueId}

/-- Two steps of lowering stay together, as steps of construction do. -/
def InStep (sites : Sites) (given : List ValueId) (flat nes : Lowering α)
    (more : List (Option Address)) (known : α → List ValueId) : Prop :=
  ∀ (accesses : List (Option Address)) (registers : PerRegister ValueId) (block : BlockId)
    (function other : Function),
    Twins sites accesses registers function other → (∀ id ∈ given, function.Agree other id) →
      (∃ error, flat ⟨function, block, registers⟩ = .error error ∧
        nes ⟨other, block, registers⟩ = .error error) ∨
      ∃ result registers' function' other',
        flat ⟨function, block, registers⟩ = .ok (result, ⟨function', block, registers'⟩) ∧
        nes ⟨other, block, registers⟩ = .ok (result, ⟨other', block, registers'⟩) ∧
        Twins sites (accesses ++ more) registers' function' other' ∧
        function.Extends function' ∧ other.Extends other' ∧
        ∀ id ∈ known result, function'.Agree other' id

theorem inStep_pure {result : α} (hknown : ∀ id ∈ known result, id ∈ given) :
    InStep sites given (pure result) (pure result) [] known := by
  intro accesses registers block flat nes htwins hgiven
  refine .inr ⟨_, _, _, _, rfl, rfl, ?_, .refl _, .refl _, fun id hid => hgiven id (hknown id hid)⟩
  rwa [List.append_nil]

theorem inStep_throw (error : LiftError) :
    InStep sites given (throw error : Lowering α) (throw error) more known :=
  fun _ _ _ _ _ _ _ => .inl ⟨error, rfl, rfl⟩

theorem InStep.bind {flat nes : Lowering α} {next next' : α → Lowering β}
    (hstep : InStep sites given flat nes accesses known)
    (hnext : ∀ result, InStep sites (known result ++ given) (next result) (next' result) more
      known') :
    InStep sites given (flat >>= next) (nes >>= next') (accesses ++ more) known' := by
  intro before registers block function other htwins hgiven
  rcases hstep before registers block function other htwins hgiven with
    ⟨error, hflat, hnes⟩ |
    ⟨result, registers₁, function₁, other₁, hflat, hnes, htwins₁, hextends₁, hextends₁', hknown⟩
  · exact .inl ⟨error, StateT.bind_of_error hflat, StateT.bind_of_error hnes⟩
  · have hboth : ∀ id ∈ known result ++ given, function₁.Agree other₁ id := by
      intro id hid
      rcases List.mem_append.mp hid with hid | hid
      · exact hknown id hid
      · exact (hgiven id hid).extends hextends₁ hextends₁'
    rw [StateT.bind_of_ok hflat, StateT.bind_of_ok hnes]
    rcases hnext result _ registers₁ block function₁ other₁ htwins₁ hboth with
      hfails | ⟨final, registers₂, function₂, other₂, hflat₂, hnes₂, htwins₂, hextends₂,
        hextends₂', hknown₂⟩
    · exact .inl hfails
    · rw [List.append_assoc] at htwins₂
      exact .inr ⟨final, registers₂, function₂, other₂, hflat₂, hnes₂, htwins₂,
        hextends₁.trans hextends₂, hextends₁'.trans hextends₂', hknown₂⟩

theorem InStep.next {flat nes : Lowering α} {next next' : α → Lowering β}
    (hstep : InStep sites given flat nes [] known)
    (hnext : ∀ result, InStep sites (known result ++ given) (next result) (next' result) more
      known') :
    InStep sites given (flat >>= next) (nes >>= next') more known' :=
  .bind hstep hnext

theorem inStep_build {flat nes : BlockId → Builder α}
    (hstep : ∀ block, Builder.InStep given (flat block) (nes block) more known) :
    InStep sites given (build flat) (build nes) more known := by
  intro accesses registers block function other htwins hgiven
  rcases hstep block accesses function other htwins.functions hgiven with
    ⟨fault, hflat, hnes⟩ |
    ⟨result, function', other', hflat, hnes, hmatches, hextends, hextends', hknown⟩
  · exact .inl ⟨.fault fault, by simp only [build, hflat], by simp only [build, hnes]⟩
  · refine .inr ⟨result, registers, function', other', by simp only [build, hflat],
      by simp only [build, hnes], ⟨hmatches, ?_, ?_⟩, hextends, hextends', hknown⟩
    · exact fun register => (htwins.registers register).extends hextends hextends'
    · exact fun target site hsite register =>
        (htwins.phis target site hsite register).extends hextends

theorem inStep_byte (value : Byte) :
    InStep sites given (byte value) (byte value) [] fun id => [id] :=
  inStep_build fun _ => Builder.inStep_const _ _

theorem inStep_word (value : Address) :
    InStep sites given (word value) (word value) [] fun id => [id] :=
  inStep_build fun _ => Builder.inStep_const _ _

theorem inStep_flag (value : Bool) :
    InStep sites given (flag value) (flag value) [] fun id => [id] :=
  inStep_build fun _ => Builder.inStep_const _ _

theorem inStep_binary (op : BinOp) {lhs rhs : ValueId} (hlhs : lhs ∈ given) (hrhs : rhs ∈ given) :
    InStep sites given (binary op lhs rhs) (binary op lhs rhs) [] fun id => [id] :=
  inStep_build fun _ => Builder.inStep_binary op hlhs hrhs

theorem inStep_compare (predicate : Predicate) {lhs rhs : ValueId} (hlhs : lhs ∈ given)
    (hrhs : rhs ∈ given) :
    InStep sites given (compare predicate lhs rhs) (compare predicate lhs rhs) []
      fun id => [id] :=
  inStep_build fun _ => Builder.inStep_compare predicate hlhs hrhs

theorem inStep_zext {value : ValueId} (hvalue : value ∈ given) :
    InStep sites given (zext value) (zext value) [] fun id => [id] :=
  inStep_build fun _ => Builder.inStep_zext .i16 hvalue

theorem inStep_trunc {value : ValueId} (hvalue : value ∈ given) :
    InStep sites given (trunc value) (trunc value) [] fun id => [id] :=
  inStep_build fun _ => Builder.inStep_trunc .i8 hvalue

theorem inStep_terminate (terminator : Terminator) :
    InStep sites given (terminate terminator) (terminate terminator) [] fun _ => [] :=
  inStep_build fun _ => Builder.inStep_terminate terminator

theorem inStep_registers (look : PerRegister ValueId → α)
    (hknown : ∀ registers, ∀ id ∈ known (look registers), ∃ register,
      id = registers.get register) :
    InStep sites given (fun frame => .ok (look frame.registers, frame))
      (fun frame => .ok (look frame.registers, frame)) [] known := by
  intro accesses registers block flat nes htwins _
  refine .inr ⟨_, registers, flat, nes, rfl, rfl, ?_, .refl _, .refl _, ?_⟩
  · rwa [List.append_nil]
  · intro id hid
    obtain ⟨register, rfl⟩ := hknown registers id hid
    exact htwins.registers register

theorem inStep_getByte (register : ByteRegister) :
    InStep sites given (getByte register) (getByte register) [] fun id => [id] :=
  inStep_registers (fun registers => registers.get (.byte register)) fun _ _ hid =>
    ⟨.byte register, List.mem_singleton.mp hid⟩

theorem inStep_getFlag (flag : Flag) :
    InStep sites given (getFlag flag) (getFlag flag) [] fun id => [id] :=
  inStep_registers (fun registers => registers.get (.flag flag)) fun _ _ hid =>
    ⟨.flag flag, List.mem_singleton.mp hid⟩

theorem inStep_allRegisters :
    InStep sites given allRegisters allRegisters [] fun _ => [] :=
  inStep_registers id fun _ _ hid => nomatch hid

theorem inStep_setRegister (register : Register) {value : ValueId} (hvalue : value ∈ given) :
    InStep sites given (setRegister register value) (setRegister register value) []
      fun _ => [] := by
  intro accesses registers block flat nes htwins hgiven
  refine .inr ⟨(), registers.set register value, flat, nes, rfl, rfl, ?_, .refl _, .refl _, ?_⟩
  · rw [List.append_nil]
    refine ⟨htwins.functions, fun other => ?_, htwins.phis⟩
    by_cases heq : other = register
    · subst heq
      rw [PerRegister.get_set_self]
      exact hgiven value hvalue
    · rw [PerRegister.get_set_ne _ _ heq]
      exact htwins.registers other
  · intro id hid
    cases hid

/-! Memory operands -/

def Place.address? : Place → Option Address
  | .fixed address => some address
  | .computed _ => none

theorem inStep_loadFixed (address : Address) :
    InStep sites given (loadFixed .flat address) (loadFixed .nes address) [some address]
      fun id => [id] :=
  inStep_build fun _ => Builder.inStep_load address

theorem inStep_load (place : Place) :
    InStep sites given (load .flat place) (load .nes place) [place.address?] fun id => [id] := by
  cases place with
  | fixed address => exact inStep_loadFixed address
  | computed index => exact inStep_build fun _ => Builder.inStep_loadComputed index

theorem inStep_store (place : Place) (value : ValueId) :
    InStep sites given (store .flat place value) (store .nes place value) [place.address?]
      fun _ => [] := by
  cases place with
  | fixed address => exact inStep_build fun _ => Builder.inStep_store address value
  | computed index => exact inStep_build fun _ => Builder.inStep_storeComputed index value

theorem inStep_indexed (base : Address) (register : ByteRegister) :
    InStep sites given (indexed base register) (indexed base register) [] fun id => [id] :=
  .next (inStep_getByte register) fun _ => .next (inStep_zext (by simp)) fun _ =>
    .next (inStep_word base) fun _ => inStep_binary .add (by simp) (by simp)

theorem inStep_indirectIndexed (pointer : Byte) :
    InStep sites given (indirectIndexed .flat pointer) (indirectIndexed .nes pointer)
      [some pointer.toUInt16, some (pointer + 1).toUInt16] fun id => [id] := by
  refine .bind (inStep_loadFixed _) fun _ => .bind (inStep_loadFixed _) fun _ => ?_
  exact .next (inStep_zext (by simp)) fun _ => .next (inStep_zext (by simp)) fun _ =>
    .next (inStep_word 8) fun _ => .next (inStep_binary .shl (by simp) (by simp)) fun _ =>
    .next (inStep_binary .or (by simp) (by simp)) fun _ => .next (inStep_getByte .y) fun _ =>
    .next (inStep_zext (by simp)) fun _ => inStep_binary .add (by simp) (by simp)

/-- What is done with the place of a memory operand, some times an access. -/
theorem inStep_place {instruction : Instruction} {next next' : Place → Lowering α} {uses : Nat}
    (huses : instruction.operation.uses = uses + 1)
    (hnext : ∀ place more, InStep sites (more ++ given) (next place) (next' place)
      (List.replicate (uses + 1) place.address?) known) :
    InStep sites given (place .flat instruction >>= next) (place .nes instruction >>= next')
      instruction.accesses known := by
  unfold Instruction.accesses
  rw [huses]
  unfold place
  cases hoperand : instruction.operand with
  | none => exact inStep_throw _
  | some operand =>
      cases operand with
      | absolute address =>
          simp only [pure_bind]
          exact hnext (.fixed address) []
      | zeroPage address =>
          simp only [pure_bind]
          exact hnext (.fixed address.toUInt16) []
      | absoluteX base | absoluteY base =>
          simp only [bind_assoc, pure_bind]
          exact .next (inStep_indexed base _) fun index => hnext (.computed index) _
      | indirectY pointer =>
          simp only [bind_assoc, pure_bind]
          exact .bind (inStep_indirectIndexed pointer) fun index => hnext (.computed index) _
      | immediate | relative => exact inStep_throw _

theorem inStep_operand {instruction : Instruction} (huses : instruction.operation.uses = 1) :
    InStep sites given (operand .flat instruction) (operand .nes instruction)
      instruction.accesses fun id => [id] := by
  unfold operand
  split
  · next value hoperand =>
      have hnone : instruction.accesses = [] := by
        simp [Instruction.accesses, huses, hoperand]
      rw [hnone]
      exact inStep_byte value
  · exact inStep_place huses fun place _ => inStep_load place

/-! Instructions that go on -/

theorem inStep_setNZ {value : ValueId} (hvalue : value ∈ given) :
    InStep sites given (setNZ value) (setNZ value) [] fun _ => [] :=
  .next (inStep_byte 0) fun _ => .next (inStep_compare .slt (by simp [hvalue]) (by simp)) fun _ =>
    .next (inStep_compare .eq (by simp [hvalue]) (by simp)) fun _ =>
    .next (inStep_setRegister _ (by simp)) fun _ => inStep_setRegister _ (by simp)

theorem inStep_setWithNZ (register : ByteRegister) {value : ValueId} (hvalue : value ∈ given) :
    InStep sites given (setWithNZ register value) (setWithNZ register value) [] fun _ => [] :=
  .next (inStep_setRegister _ hvalue) fun _ => inStep_setNZ hvalue

theorem inStep_addWithCarry {addend : ValueId} (haddend : addend ∈ given) :
    InStep sites given (addWithCarry addend) (addWithCarry addend) [] fun _ => [] :=
  .next (inStep_getByte .a) fun _ => .next (inStep_zext (by simp)) fun _ =>
    .next (inStep_zext (by simp [haddend])) fun _ => .next (inStep_getFlag .c) fun _ =>
    .next (inStep_zext (by simp)) fun _ => .next (inStep_binary .add (by simp) (by simp)) fun _ =>
    .next (inStep_binary .add (by simp) (by simp)) fun _ => .next (inStep_word 0xFF) fun _ =>
    .next (inStep_compare .ugt (by simp) (by simp)) fun _ => .next (inStep_trunc (by simp)) fun _ =>
    .next (inStep_binary .xor (by simp) (by simp)) fun _ =>
    .next (inStep_binary .xor (by simp [haddend]) (by simp)) fun _ =>
    .next (inStep_binary .and (by simp) (by simp)) fun _ => .next (inStep_byte 0) fun _ =>
    .next (inStep_compare .slt (by simp) (by simp)) fun _ =>
    .next (inStep_setRegister _ (by simp)) fun _ => .next (inStep_setRegister _ (by simp)) fun _ =>
    .next (inStep_setRegister _ (by simp)) fun _ => inStep_setNZ (by simp)

theorem inStep_subtractWithCarry {subtrahend : ValueId} (hsubtrahend : subtrahend ∈ given) :
    InStep sites given (subtractWithCarry subtrahend) (subtractWithCarry subtrahend) []
      fun _ => [] :=
  .next (inStep_byte 0xFF) fun _ =>
    .next (inStep_binary .xor (by simp [hsubtrahend]) (by simp)) fun _ =>
    inStep_addWithCarry (by simp)

theorem inStep_bitTest {value : ValueId} (hvalue : value ∈ given) :
    InStep sites given (bitTest value) (bitTest value) [] fun _ => [] :=
  .next (inStep_byte 0) fun _ => .next (inStep_byte 0x40) fun _ =>
    .next (inStep_compare .slt (by simp [hvalue]) (by simp)) fun _ =>
    .next (inStep_binary .and (by simp [hvalue]) (by simp)) fun _ =>
    .next (inStep_compare .ne (by simp) (by simp)) fun _ => .next (inStep_getByte .a) fun _ =>
    .next (inStep_binary .and (by simp) (by simp [hvalue])) fun _ =>
    .next (inStep_compare .eq (by simp) (by simp)) fun _ =>
    .next (inStep_setRegister _ (by simp)) fun _ => .next (inStep_setRegister _ (by simp)) fun _ =>
    inStep_setRegister _ (by simp)

theorem inStep_stepRegister (op : BinOp) (register : ByteRegister) :
    InStep sites given (stepRegister op register) (stepRegister op register) [] fun _ => [] :=
  .next (inStep_byte 1) fun _ => .next (inStep_getByte register) fun _ =>
    .next (inStep_binary op (by simp) (by simp)) fun _ => inStep_setWithNZ register (by simp)

theorem inStep_compareRegister (register : ByteRegister) {instruction : Instruction}
    (huses : instruction.operation.uses = 1) :
    InStep sites given (compareRegister register .flat instruction)
      (compareRegister register .nes instruction) instruction.accesses fun _ => [] := by
  rw [← List.append_nil instruction.accesses]
  exact .next (inStep_getByte register) fun _ => .bind (inStep_operand huses) fun _ =>
    .next (inStep_binary .sub (by simp) (by simp)) fun _ => .next (inStep_setNZ (by simp)) fun _ =>
    .next (inStep_compare .uge (by simp) (by simp)) fun _ => inStep_setRegister _ (by simp)

/-- The place is accessed twice, at the same address. -/
theorem inStep_stepMemory (op : BinOp) {instruction : Instruction}
    (huses : instruction.operation.uses = 2) :
    InStep sites given (stepMemory op .flat instruction) (stepMemory op .nes instruction)
      instruction.accesses fun _ => [] := by
  refine inStep_place huses fun place more => ?_
  show InStep _ _ _ _ ([place.address?] ++ ([place.address?] ++ [])) _
  exact .bind (inStep_load place) fun _ => .next (inStep_byte 1) fun _ =>
    .next (inStep_binary op (by simp) (by simp)) fun _ => .bind (inStep_store place _) fun _ =>
    inStep_setNZ (by simp)

/-! Calls and transfers of control -/

theorem inStep_target (location : Address) (target? : Option Address) :
    InStep sites given (target location target?) (target location target?) [] fun _ => [] := by
  cases target? with
  | none => exact inStep_throw _
  | some target => exact inStep_pure fun _ hid => nomatch hid

theorem inStep_forM {flat nes : Register → Lowering Unit} (registers : List Register)
    (hstep : ∀ register, InStep sites given (flat register) (nes register) [] fun _ => []) :
    InStep sites given (registers.forM flat) (registers.forM nes) [] fun _ => [] := by
  induction registers with
  | nil => exact inStep_pure fun _ hid => nomatch hid
  | cons register rest ih => exact .next (hstep register) fun _ => ih

theorem inStep_call (instruction : Instruction) :
    InStep sites given (call instruction) (call instruction) [] fun _ => [] := by
  have hcall (target : Address) (args : List ValueId) :
      (Inst.call (routineName target) args).isNeutral = true := by
    simp [Inst.isNeutral, routineName_ne_hostRead, routineName_ne_hostWrite]
  refine .next (inStep_target _ _) fun target => .next inStep_allRegisters fun values => ?_
  refine .next (inStep_build fun _ => Builder.inStep_emit_same rfl (hcall target _)) fun regs => ?_
  refine inStep_forM _ fun register => ?_
  exact .next (inStep_build fun _ => Builder.inStep_emit_same rfl rfl) fun _ =>
    inStep_setRegister register (by simp)

theorem inStep_ret : InStep sites given ret ret [] fun _ => [] :=
  .next inStep_allRegisters fun _ =>
    .next (inStep_build fun _ => Builder.inStep_emit_same rfl rfl) fun _ => inStep_terminate _

theorem inStep_receive {target : Address} {site : Site} (hsite : sites[target]? = some site)
    (values : PerRegister ValueId) :
    InStep sites given (build fun block => site.registers.receive values block)
      (build fun block => site.registers.receive values block) [] fun _ => [] := by
  intro accesses registers block function other htwins _
  obtain ⟨function', other', hflat, hnes, hmatches, hextends, hextends'⟩ :=
    htwins.functions.receive (htwins.phis target site hsite) values block
  refine .inr ⟨(), registers, function', other', by simp only [build, hflat],
    by simp only [build, hnes], ⟨?_, ?_, ?_⟩, hextends, hextends', fun _ hid => nomatch hid⟩
  · rwa [List.append_nil]
  · exact fun register => (htwins.registers register).extends hextends hextends'
  · exact fun target site hsite register =>
      (htwins.phis target site hsite register).extends hextends

theorem inStep_edge (location target : Address) :
    InStep sites given (edge sites location target) (edge sites location target) []
      fun _ => [] := by
  unfold edge
  cases hsite : sites[target]? with
  | none => exact inStep_throw _
  | some site =>
      exact .next inStep_allRegisters fun values => .next (inStep_receive hsite values) fun _ =>
        inStep_pure fun _ hid => nomatch hid

theorem inStep_goTo (location target : Address) :
    InStep sites given (goTo sites location target) (goTo sites location target) [] fun _ => [] :=
  .next (inStep_edge location target) fun _ => inStep_terminate _

theorem inStep_branch (instruction : Instruction) (flag : Flag) (inverse : Bool) :
    InStep sites given (branch sites instruction flag inverse)
      (branch sites instruction flag inverse) [] fun _ => [] :=
  .next (inStep_target _ _) fun _ => .next (inStep_edge _ _) fun _ =>
    .next (inStep_edge _ _) fun _ => .next (inStep_getFlag flag) fun _ => inStep_terminate _

theorem inStep_jump (instruction : Instruction) :
    InStep sites given (jump sites instruction) (jump sites instruction) [] fun _ => [] :=
  .next (inStep_target _ _) fun _ => inStep_goTo _ _

theorem inStep_lower (instruction : Instruction) :
    InStep sites [] (lower .flat sites instruction) (lower .nes sites instruction)
      instruction.accesses fun _ => [] := by
  have hnone (huses : instruction.operation.uses = 0) : instruction.accesses = [] := by
    simp [Instruction.accesses, huses]
  have hoperand {next : ValueId → Lowering Unit} (huses : instruction.operation.uses = 1)
      (hnext : ∀ id, InStep sites ([id] ++ []) (next id) (next id) [] fun _ => []) :
      InStep sites [] (operand .flat instruction >>= next) (operand .nes instruction >>= next)
        instruction.accesses fun _ => [] := by
    rw [← List.append_nil instruction.accesses]
    exact .bind (inStep_operand huses) hnext
  unfold lower
  cases hoperation : instruction.operation with
  | load register =>
      exact hoperand (by rw [hoperation]; rfl) fun _ => inStep_setWithNZ register (by simp)
  | store register =>
      refine inStep_place (by rw [hoperation]; rfl) fun place _ => ?_
      exact .next (inStep_getByte register) fun _ => inStep_store place _
  | compare register => exact inStep_compareRegister register (by rw [hoperation]; rfl)
  | increment register =>
      rw [hnone (by rw [hoperation]; rfl)]
      exact inStep_stepRegister .add register
  | decrement register =>
      rw [hnone (by rw [hoperation]; rfl)]
      exact inStep_stepRegister .sub register
  | incrementMemory => exact inStep_stepMemory .add (by rw [hoperation]; rfl)
  | decrementMemory => exact inStep_stepMemory .sub (by rw [hoperation]; rfl)
  | logic op =>
      rw [← List.append_nil instruction.accesses]
      exact .next (inStep_getByte .a) fun _ =>
        .bind (inStep_operand (by rw [hoperation]; rfl)) fun _ =>
        .next (inStep_binary op.binOp (by simp) (by simp)) fun _ => inStep_setWithNZ .a (by simp)
  | bitTest => exact hoperand (by rw [hoperation]; rfl) fun _ => inStep_bitTest (by simp)
  | addWithCarry =>
      exact hoperand (by rw [hoperation]; rfl) fun _ => inStep_addWithCarry (by simp)
  | subtractWithCarry =>
      exact hoperand (by rw [hoperation]; rfl) fun _ => inStep_subtractWithCarry (by simp)
  | transfer source target =>
      rw [hnone (by rw [hoperation]; rfl)]
      exact .next (inStep_getByte source) fun _ => inStep_setWithNZ target (by simp)
  | setFlag which value =>
      rw [hnone (by rw [hoperation]; rfl)]
      exact .next (inStep_flag value) fun _ => inStep_setRegister _ (by simp)
  | branch flag inverse =>
      rw [hnone (by rw [hoperation]; rfl)]
      exact inStep_branch instruction flag inverse
  | jump =>
      rw [hnone (by rw [hoperation]; rfl)]
      exact inStep_jump instruction
  | call =>
      rw [hnone (by rw [hoperation]; rfl)]
      exact inStep_call instruction
  | ret =>
      rw [hnone (by rw [hoperation]; rfl)]
      exact inStep_ret
  | idle =>
      rw [hnone (by rw [hoperation]; rfl)]
      exact inStep_pure fun _ hid => nomatch hid

end Lowering

end Lift6502
