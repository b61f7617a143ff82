import Lift6502.Proofs.Lowering.Instructions

/-! Calls and returns: all registers go to the callee as arguments and come
back as one aggregate. -/

namespace Lift6502

open Ssa

theorem Register.isInteger_type (register : Register) : register.type.isInteger = true := by
  rcases register with holder | condition <;> rfl

theorem PerRegister.getElem?_index {α : Type} (family : PerRegister α) (register : Register) :
    family.toList[register.index]? = some (family.get register) := by
  rcases register with holder | condition
  · cases holder <;> rfl
  · cases condition <;> rfl

theorem holds_flag (bit : Bool) : Ty.i1.Holds bit.toUInt16 := by
  unfold Ty.Holds
  cases bit <;> decide

theorem Registers.holds_words (registers : Registers) (register : Register) :
    register.type.Holds (registers.words.get register) := by
  rcases register with holder | condition
  · cases holder <;> exact holds_byte _
  · cases condition <;> exact holds_flag _

theorem Registers.datum_fits (registers : Registers) : registers.datum.Fits .regs :=
  ⟨rfl, registers.holds_words⟩

namespace Scene

variable {σ : Type} {scene : Scene σ} {code code' : List Value} {facts : List Fact} {state : σ}
  {values values' : PerRegister ValueId} {registers registers' : Registers}

theorem frame_inj (heq : scene.frame code values = scene.frame code' values') :
    code = code' ∧ values = values' := by
  have harena : (scene.start.values ++ code.toArray).toList =
      (scene.start.values ++ code'.toArray).toList :=
    congrArg (fun frame => frame.function.values.toList) heq
  refine ⟨?_, congrArg Frame.registers heq⟩
  rw [Array.toList_append, Array.toList_append] at harena
  exact List.append_cancel_left harena

/-! Returns -/

theorem Carried.datum {locals : Locals} (hcarried : Carried facts values registers)
    (hshows : ∀ fact ∈ facts, scene.Shows locals fact) (register : Register) :
    scene.activation.datum? locals (values.get register) =
      some (.word (registers.words.get register)) :=
  (hshows _ (hcarried register)).datum

theorem Carried.word {locals : Locals} (hcarried : Carried facts values registers)
    (hshows : ∀ fact ∈ facts, scene.Shows locals fact) (register : Register) :
    scene.activation.word? locals (values.get register) =
      some (registers.words.get register) :=
  (hshows _ (hcarried register)).word?

theorem Carried.operands (hcarried : Carried facts values registers) :
    ∀ id ∈ values.toList, ∃ fact ∈ facts, fact.id = id := by
  intro id hid
  rw [PerRegister.toList_eq_map_all] at hid
  obtain ⟨register, _, rfl⟩ := List.mem_map.mp hid
  exact ⟨_, hcarried register, rfl⟩

theorem Carries.type? (hcarries : scene.Carries code values facts registers state)
    (register : Register) :
    (scene.function code).type? (values.get register) = some register.type :=
  (hcarries.tracks.known _ (hcarries.carried register)).type?

theorem Carries.makeRegs (hcarries : scene.Carries code values facts registers state) :
    scene.Tracks (code ++ [⟨.makeRegs values, .regs, none⟩])
      (⟨⟨scene.base + code.length⟩, .regs, registers.datum⟩ :: facts) state := by
  refine hcarries.tracks.snoc (.makeRegs values) .regs registers.datum state rfl rfl
    (fun _ hparam => by cases hparam) hcarries.carried.operands ⟨rfl, hcarries.type?⟩
    registers.datum_fits ?_
  intro locals id hshows hvalue
  have hword := hcarries.carried.word hshows
  have ha := hword (.byte .a)
  have hx := hword (.byte .x)
  have hy := hword (.byte .y)
  have hn := hword (.flag .n)
  have hv := hword (.flag .v)
  have hz := hword (.flag .z)
  have hc := hword (.flag .c)
  simp only [PerRegister.get] at ha hx hy hn hv hz hc
  simp [Activation.compute, Activation.pure?, hvalue, ha, hx, hy, hn, hv, hz, hc,
    Registers.datum]

/-! Calls -/

/-- Takes a register from the aggregate that a call has left. -/
def takeRegister (regs : ValueId) (register : Register) : Lowering Unit := do
  Lowering.setRegister register (← Lowering.build fun block =>
    Builder.extractReg block regs register.index register.type)

theorem setRegister_frame (register : Register) (id : ValueId) :
    Lowering.setRegister register id (scene.frame code values) =
      .ok ((), scene.frame code (values.set register id)) := rfl

theorem takeRegister_frame (regs : ValueId) (register : Register) :
    takeRegister regs register (scene.frame code values) =
      .ok ((), scene.frame (code ++ [⟨.extractReg regs register.index, register.type, none⟩])
        (values.set register ⟨scene.base + code.length⟩)) := by
  have hbuilds : scene.start.Builds scene.block (Lowering.build fun block =>
      Builder.extractReg block regs register.index register.type) code _ _ :=
    .of_build (emit_function register.type rfl)
  exact (StateT.bind_of_ok (hbuilds values)).trans (setRegister_frame register _)

theorem takeRegisters_frame (scene : Scene σ) (regs : ValueId) (taken : List Register)
    (code : List Value) (values : PerRegister ValueId) :
    ∃ more values', taken.forM (takeRegister regs) (scene.frame code values) =
      .ok ((), scene.frame (code ++ more) values') := by
  induction taken generalizing code values with
  | nil => exact ⟨[], values, by rw [List.append_nil]; rfl⟩
  | cons register rest ih =>
      obtain ⟨more, values', hrest⟩ := ih
        (code ++ [⟨.extractReg regs register.index, register.type, none⟩])
        (values.set register ⟨scene.base + code.length⟩)
      rw [List.append_assoc] at hrest
      exact ⟨_, values', (StateT.bind_of_ok (takeRegister_frame regs register)).trans hrest⟩

theorem Tracks.takeRegister {regs : ValueId} (htracks : scene.Tracks code facts state)
    (hregs : ⟨regs, .regs, registers.datum⟩ ∈ facts) (register : Register) :
    scene.Tracks (code ++ [⟨.extractReg regs register.index, register.type, none⟩])
      (⟨⟨scene.base + code.length⟩, register.type, .word (registers.words.get register)⟩ :: facts)
      state := by
  refine htracks.snoc (.extractReg regs register.index) register.type _ state rfl rfl
    (fun _ hparam => by cases hparam) ?_ ⟨(htracks.known _ hregs).type?, register, rfl, rfl⟩
    ⟨register.isInteger_type, registers.holds_words register⟩ ?_
  · intro id hid
    cases List.mem_singleton.mp hid
    exact ⟨_, hregs, rfl⟩
  · intro locals id hshows hvalue
    have hdatum := (hshows _ hregs).datum
    simp [Activation.compute, Activation.pure?, hvalue, hdatum, Registers.datum, Datum.regs?,
      PerRegister.getElem?_index]

theorem Tracks.takeRegisters {regs : ValueId} (values : PerRegister ValueId)
    (before taken : List Register) (htracks : scene.Tracks code facts state)
    (hregs : ⟨regs, .regs, registers.datum⟩ ∈ facts)
    (hbefore : ∀ register ∈ before,
      ⟨values.get register, register.type, .word (registers.words.get register)⟩ ∈ facts) :
    ∃ code' values' facts', taken.forM (Scene.takeRegister regs) (scene.frame code values) =
        .ok ((), scene.frame code' values') ∧
      scene.Tracks code' facts' state ∧
      ∀ register, register ∈ before ∨ register ∈ taken →
        ⟨values'.get register, register.type, .word (registers.words.get register)⟩ ∈ facts' := by
  induction taken generalizing code values facts before with
  | nil =>
      refine ⟨code, values, facts, rfl, htracks, fun register hregister => ?_⟩
      exact hbefore register (hregister.resolve_right List.not_mem_nil)
  | cons register rest ih =>
      have htaken : ∀ member ∈ register :: before,
          ⟨(values.set register ⟨scene.base + code.length⟩).get member, member.type,
            .word (registers.words.get member)⟩ ∈
          (⟨⟨scene.base + code.length⟩, register.type, .word (registers.words.get register)⟩ ::
            facts : List Fact) := by
        intro member hmember
        by_cases heq : member = register
        · subst member
          rw [PerRegister.get_set_self]
          exact List.mem_cons_self
        · rw [PerRegister.get_set_ne _ _ heq]
          exact List.mem_cons_of_mem _
            (hbefore member ((List.mem_cons.mp hmember).resolve_left heq))
      obtain ⟨code', values', facts', hrest, htracks', hcarried⟩ :=
        ih _ _ (htracks.takeRegister hregs register) (List.mem_cons_of_mem _ hregs) htaken
      refine ⟨code', values', facts', ?_, htracks', ?_⟩
      · exact (StateT.bind_of_ok (takeRegister_frame regs register)).trans hrest
      · intro member hmember
        refine hcarried member ?_
        rcases hmember with hbefore | htaken
        · exact .inl (List.mem_cons_of_mem _ hbefore)
        · rcases List.mem_cons.mp htaken with rfl | hrest
          · exact .inl List.mem_cons_self
          · exact .inr hrest

theorem allRegisters_frame :
    Lowering.allRegisters (scene.frame code values) = .ok (values, scene.frame code values) := rfl

theorem Carried.args {locals : Locals} (hcarried : Carried facts values registers)
    (hshows : ∀ fact ∈ facts, scene.Shows locals fact) :
    values.toList.mapM (scene.activation.datum? locals) = some registers.args := by
  have hdatum := hcarried.datum hshows
  unfold Registers.args
  rw [PerRegister.toList_eq_map_all, PerRegister.toList_eq_map_all]
  induction Register.all with
  | nil => rfl
  | cons register rest ih =>
      simp only [List.map_cons, List.mapM_cons, hdatum, ih]
      rfl

/-! Calls. The registers are the arguments, and what the callee leaves is taken
up as the registers of the caller. -/

def callEntry (target : Address) (values : PerRegister ValueId) : Value :=
  ⟨.call (routineName target) values.toList, .regs, none⟩

theorem Carried.compute_call {locals : Locals} {id : ValueId} {target : Address}
    (hcarried : Carried facts values registers) (hshows : ∀ fact ∈ facts, scene.Shows locals fact)
    (hvalue : scene.activation.function.values[id.index]? = some (callEntry target values)) :
    scene.activation.compute scene.environment locals id state =
      (scene.environment.call (routineName target) registers.args state).map fun result =>
        (locals.set id result.1, result.2) := by
  simp only [Activation.compute, hvalue, Option.bind_eq_bind, Option.bind_some, callEntry,
    hcarried.args hshows]
  cases scene.environment.call (routineName target) registers.args state <;> rfl

theorem Carries.tracks_call (hcarries : scene.Carries code values facts registers state)
    {target : Address} {registers' : Registers} {state' : σ}
    (hcall : scene.environment.call (routineName target) registers.args state =
      some (registers'.datum, state')) :
    scene.Tracks (code ++ [callEntry target values])
      (⟨⟨scene.base + code.length⟩, .regs, registers'.datum⟩ :: facts) state' := by
  refine hcarries.tracks.snoc (.call (routineName target) values.toList) .regs
    registers'.datum state' rfl rfl (fun _ hparam => by cases hparam)
    hcarries.carried.operands ⟨_, .routine target, ?_⟩ registers'.datum_fits ?_
  · rw [PerRegister.toList_eq_map_all, List.map_map, List.map_map]
    exact List.map_congr_left fun register _ => hcarries.type? register
  · intro locals id hshows hvalue
    rw [hcarries.carried.compute_call hshows hvalue, hcall]
    rfl

theorem Carries.exists_result (hcarries : scene.Carries code values facts registers state)
    {target : Address} {more : List Value}
    (hhosts : scene.Hosts (code ++ [callEntry target values] ++ more)) {reached : Locals × σ}
    (hreached : scene.activation.computeAll scene.environment
      (placed scene.base (code ++ [callEntry target values] ++ more)) scene.locals scene.state =
        some reached) :
    ∃ result, scene.environment.call (routineName target) registers.args state =
      some result := by
  have hhostsCall : scene.Hosts (code ++ [callEntry target values]) := hhosts.of_append
  obtain ⟨locals, hlocals, hshows⟩ := hcarries.tracks.computed hhostsCall.of_append
  have hplaced : placed (scene.base + code.length) [callEntry target values] =
      [⟨scene.base + code.length⟩] := placed_instruction rfl
  rw [placed_append, placed_append, hplaced, Activation.computeAll_append,
    Activation.computeAll_append, hlocals] at hreached
  simp only [Option.bind_some, Activation.computeAll_singleton,
    hcarries.carried.compute_call hshows hhostsCall.last] at hreached
  cases hcall : scene.environment.call (routineName target) registers.args state with
  | some result => exact ⟨result, rfl⟩
  | none =>
      rw [hcall] at hreached
      cases hreached

theorem Carries.call (hcarries : scene.Carries code values facts registers state)
    {instruction : Instruction} {target : Address}
    (htarget : instruction.callTarget? = some target) :
    ∃ more values',
      Lowering.call instruction (scene.frame code values) =
        .ok ((), scene.frame (code ++ more) values') ∧
      (∀ registers' state',
        scene.environment.call (routineName target) registers.args state =
            some (registers'.datum, state') →
          ∃ facts', scene.Carries (code ++ more) values' facts' registers' state') ∧
      (scene.Hosts (code ++ more) → ∀ reached,
        scene.activation.computeAll scene.environment (placed scene.base (code ++ more))
            scene.locals scene.state = some reached →
          ∃ result, scene.environment.call (routineName target) registers.args state =
            some result) := by
  have hemit : scene.start.Builds scene.block (Lowering.build fun block =>
      Builder.call block (routineName target) .regs values.toList) code
      ⟨scene.base + code.length⟩ (code ++ [callEntry target values]) :=
    .of_build (emit_function .regs rfl)
  obtain ⟨more, values', htake⟩ := takeRegisters_frame scene ⟨scene.base + code.length⟩
    Register.all (code ++ [callEntry target values]) values
  refine ⟨[callEntry target values] ++ more, values', ?_⟩
  rw [← List.append_assoc]
  refine ⟨?_, ?_, fun hhosts reached => hcarries.exists_result hhosts⟩
  · have htargetStep : Lowering.target instruction.location (some target)
        (scene.frame code values) = .ok (target, scene.frame code values) := rfl
    unfold Lowering.call
    rw [htarget, StateT.bind_of_ok htargetStep, StateT.bind_of_ok allRegisters_frame,
      StateT.bind_of_ok (hemit values)]
    exact htake
  · intro registers' state' hcall
    obtain ⟨_, _, facts', htake', htracks', htaken⟩ :=
      Tracks.takeRegisters values [] Register.all (hcarries.tracks_call hcall)
        List.mem_cons_self (fun register hregister => by cases hregister)
    obtain ⟨rfl, rfl⟩ := frame_inj (congrArg Prod.snd (Except.ok.inj (htake.symm.trans htake')))
    exact ⟨facts', htracks', fun register => htaken register (.inr (Register.mem_all register))⟩

end Scene

end Lift6502
