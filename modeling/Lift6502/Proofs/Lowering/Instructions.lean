import Lift6502.Proofs.ControlFlow
import Lift6502.Proofs.Lowering.Accesses

/-! The code of single instructions. It leaves in the registers what the
machine leaves there, and does to the host what the machine does. -/

namespace Lift6502

open Ssa

/-! Registers -/

namespace Scene.Carried

variable {facts : List Fact} {values : PerRegister ValueId} {registers : Registers}
  {id : ValueId}

theorem setByte (hcarried : Carried facts values registers) (register : ByteRegister)
    {content : Byte} (hvalue : ⟨id, .i8, .word content.toUInt16⟩ ∈ facts) :
    Carried facts (values.set (.byte register) id) (registers.setByte register content) := by
  intro other
  by_cases hother : other = .byte register
  · subst other
    cases register <;> exact hvalue
  · rw [PerRegister.get_set_ne _ _ hother]
    have hkept : (registers.setByte register content).words.get other =
        registers.words.get other := by
      rcases other with other | other <;> cases register <;> cases other <;> simp_all <;> rfl
    rw [hkept]
    exact hcarried other

theorem setFlag (hcarried : Carried facts values registers) (flag : Flag) {bit : Bool}
    (hvalue : ⟨id, .i1, .word bit.toUInt16⟩ ∈ facts) :
    Carried facts (values.set (.flag flag) id) (registers.setFlag flag bit) := by
  intro other
  by_cases hother : other = .flag flag
  · subst other
    cases flag <;> exact hvalue
  · rw [PerRegister.get_set_ne _ _ hother]
    have hkept : (registers.setFlag flag bit).words.get other = registers.words.get other := by
      rcases other with other | other <;> cases flag <;> cases other <;> simp_all <;> rfl
    rw [hkept]
    exact hcarried other

theorem into (hcarried : Carried facts values registers) (outputs : Knowledge.Outputs)
    {registers' : Registers} (hx : registers'.x = registers.x) (hy : registers'.y = registers.y) :
    Carried (outputs.holding registers' ++ facts) (outputs.into values) registers' := by
  intro register
  rcases register with register | flag
  · cases register with
    | a => exact List.mem_append_left _ (List.mem_append_right [_, _, _, _] (.head _))
    | x =>
        have hindex := hcarried.byte .x
        rw [Registers.byte, ← hx] at hindex
        exact List.mem_append_right _ hindex
    | y =>
        have hindex := hcarried.byte .y
        rw [Registers.byte, ← hy] at hindex
        exact List.mem_append_right _ hindex
  · refine List.mem_append_left _ ?_
    cases flag with
    | z => exact .head _
    | n => exact .tail _ (.head _)
    | v => exact List.mem_append_right [_, _] (.head _)
    | c => exact List.mem_append_right [_, _, _] (.head _)

end Scene.Carried

/-! Instructions on registers -/

/-- The operation works on the byte that its operand stands for. -/
def Operation.readsByte : Operation → Bool
  | .load _ | .compare _ | .logic _ | .bitTest | .addWithCarry | .subtractWithCarry => true
  | _ => false

theorem Instruction.mode_of_readsByte (instruction : Instruction)
    (htakes : instruction.operation.takes instruction.mode = true)
    (hreads : instruction.operation.readsByte = true) :
    instruction.mode ≠ .implied ∧ instruction.mode ≠ .relative := by
  cases hoperation : instruction.operation with
  | load | compare | logic | bitTest | addWithCarry | subtractWithCarry =>
      rw [hoperation] at htakes
      exact Mode.of_takes_value htakes
  | _ =>
      rw [hoperation] at hreads
      cases hreads

namespace Knowledge

variable {start : Function} {block : BlockId} {knowledge : Knowledge start block}
  {code : List Value} {facts : List Fact} {values : PerRegister ValueId}
  {registers : Registers} {id : ValueId} {content : Byte}

/-- The values of the frame are known to hold `registers`. -/
structure Carries (knowledge : Knowledge start block) (code : List Value)
    (values : PerRegister ValueId) (facts : List Fact) (registers : Registers) : Prop where
  knows : knowledge.Knows code facts
  carried : Scene.Carried facts values registers

/-- A step from a frame leaves `registers` in the frame it ends with. -/
def Leaves (knowledge : Knowledge start block) (step : Lowering Unit) (code : List Value)
    (values : PerRegister ValueId) (registers : Registers) : Prop :=
  ∃ code' values' facts',
    step (start.frame block code values) = .ok ((), start.frame block code' values') ∧
    knowledge.Carries code' values' facts' registers

namespace Carries

theorem putByte (hcarries : knowledge.Carries code values facts registers)
    (register : ByteRegister) (hvalue : ⟨id, .i8, .word content.toUInt16⟩ ∈ facts) :
    knowledge.Carries code (values.set (.byte register) id) facts
      (registers.setByte register content) :=
  ⟨hcarries.knows, hcarries.carried.setByte register hvalue⟩

theorem putFlag (hcarries : knowledge.Carries code values facts registers)
    (flag : Flag) {bit : Bool} (hvalue : ⟨id, .i1, .word bit.toUInt16⟩ ∈ facts) :
    knowledge.Carries code (values.set (.flag flag) id) facts (registers.setFlag flag bit) :=
  ⟨hcarries.knows, hcarries.carried.setFlag flag hvalue⟩

theorem setNZ (hcarries : knowledge.Carries code values facts registers)
    (hvalue : ⟨id, .i8, .word content.toUInt16⟩ ∈ facts) :
    ∃ code' values' facts',
      Lowering.setNZ id (start.frame block code values) =
        .ok ((), start.frame block code' values') ∧
      (∀ fact ∈ facts, fact ∈ facts') ∧
      knowledge.Carries code' values' facts' (registers.setNZ content) := by
  obtain ⟨negative, isZero, code', hsetNZ, hknows'⟩ :=
    Knowledge.setNZ hcarries.knows hvalue values
  have hcarries' : knowledge.Carries code' values _ registers :=
    ⟨hknows', hcarries.carried.cons.cons⟩
  exact ⟨code', _, _, hsetNZ, fun _ hfact => .tail _ (.tail _ hfact),
    (hcarries'.putFlag .n (.tail _ (.head _))).putFlag .z (.head _)⟩

theorem setWithNZ (hcarries : knowledge.Carries code values facts registers)
    (register : ByteRegister) (hvalue : ⟨id, .i8, .word content.toUInt16⟩ ∈ facts) :
    knowledge.Leaves (Lowering.setWithNZ register id) code values
      (registers.setWithNZ register content) := by
  obtain ⟨code', values', facts', hsetNZ, _, hcarries'⟩ :=
    (hcarries.putByte register hvalue).setNZ hvalue
  refine ⟨code', values', facts', ?_, hcarries'⟩
  unfold Lowering.setWithNZ
  rw [StateT.bind_of_ok (setByte_frame register id)]
  exact hsetNZ

theorem addWithCarry (hcarries : knowledge.Carries code values facts registers)
    (haddend : ⟨id, .i8, .word content.toUInt16⟩ ∈ facts) :
    knowledge.Leaves (Lowering.addWithCarry id) code values (registers.addWithCarry content) := by
  obtain ⟨outputs, code', hadd, hknows'⟩ := Knowledge.addWithCarry hcarries.knows
    (hcarries.carried.byte .a) haddend (hcarries.carried.flag .c)
  exact ⟨code', _, _, hadd, hknows', hcarries.carried.into outputs rfl rfl⟩

theorem subtractWithCarry (hcarries : knowledge.Carries code values facts registers)
    (hsubtrahend : ⟨id, .i8, .word content.toUInt16⟩ ∈ facts) :
    knowledge.Leaves (Lowering.subtractWithCarry id) code values
      (registers.subtractWithCarry content) := by
  obtain ⟨outputs, code', hsubtract, hknows'⟩ := Knowledge.subtractWithCarry hcarries.knows
    (hcarries.carried.byte .a) hsubtrahend (hcarries.carried.flag .c)
  exact ⟨code', _, _, hsubtract, hknows', hcarries.carried.into outputs rfl rfl⟩

theorem bitTest (hcarries : knowledge.Carries code values facts registers)
    (hvalue : ⟨id, .i8, .word content.toUInt16⟩ ∈ facts) :
    knowledge.Leaves (Lowering.bitTest id) code values (registers.bitTest content) := by
  obtain ⟨zero, code₁, hzero, hknows₁⟩ := Knowledge.byte hcarries.knows 0
  obtain ⟨bitSix, code₂, hbitSix, hknows₂⟩ := Knowledge.byte hknows₁ 0x40
  obtain ⟨negative, code₃, hnegative, hknows₃⟩ := Knowledge.compare hknows₂ .slt
    (.tail _ (.tail _ hvalue)) (.tail _ (.head _))
  obtain ⟨masked, code₄, hmasked, hknows₄⟩ := Knowledge.binary hknows₃ .and
    (.tail _ (.tail _ (.tail _ hvalue))) (.tail _ (.head _))
  rw [negative_byte, testBit_seven, eval_and_byte] at hknows₄
  obtain ⟨overflow, code₅, hoverflow, hknows₅⟩ := Knowledge.compare hknows₄ .ne (.head _)
    (List.mem_append_right [_, _, _] (.head _))
  rw [different_byte, testBit_six] at hknows₅
  obtain ⟨tested, code₆, htested, hknows₆⟩ := Knowledge.binary hknows₅ .and
    (List.mem_append_right [_, _, _, _, _] (hcarries.carried.byte .a))
    (List.mem_append_right [_, _, _, _, _] hvalue)
  obtain ⟨isZero, code₇, hisZero, hknows₇⟩ := Knowledge.compare hknows₆ .eq (.head _)
    (List.mem_append_right [_, _, _, _, _] (.head _))
  rw [eval_and_byte, equal_byte] at hknows₇
  have hcarries₇ : knowledge.Carries code₇ values _ registers :=
    ⟨hknows₇, hcarries.carried.mono fun fact hfact =>
      List.mem_append_right [_, _, _, _, _, _, _] hfact⟩
  have hput := ((hcarries₇.putFlag .n (List.mem_append_right [_, _, _, _] (.head _))).putFlag
    .v (.tail _ (.tail _ (.head _)))).putFlag .z (.head _)
  refine ⟨code₇, _, _, ?_, hput⟩
  unfold Lowering.bitTest
  rw [StateT.bind_of_ok (hzero values), StateT.bind_of_ok (hbitSix values),
    StateT.bind_of_ok (hnegative values), StateT.bind_of_ok (hmasked values),
    StateT.bind_of_ok (hoverflow values), StateT.bind_of_ok (getByte_frame .a),
    StateT.bind_of_ok (htested values), StateT.bind_of_ok (hisZero values),
    StateT.bind_of_ok (setFlag_frame .n negative),
    StateT.bind_of_ok (setFlag_frame .v overflow)]
  exact setFlag_frame .z isZero

theorem stepRegister {op : BinOp} {change : Byte → Byte}
    (hchange : ∀ old : Byte,
      op.eval .i8 old.toUInt16 (1 : Byte).toUInt16 = (change old).toUInt16)
    (hcarries : knowledge.Carries code values facts registers) (register : ByteRegister) :
    knowledge.Leaves (Lowering.stepRegister op register) code values
      (registers.setWithNZ register (change (registers.byte register))) := by
  obtain ⟨one, code₁, hone, hknows₁⟩ := Knowledge.byte hcarries.knows 1
  obtain ⟨new, code₂, hnew, hknows₂⟩ := Knowledge.binary hknows₁ op
    (.tail _ (hcarries.carried.byte register)) (.head _)
  rw [hchange] at hknows₂
  have hcarries₂ : knowledge.Carries code₂ values _ registers :=
    ⟨hknows₂, hcarries.carried.cons.cons⟩
  obtain ⟨code', values', facts', hset, hcarries'⟩ := hcarries₂.setWithNZ register (.head _)
  refine ⟨code', values', facts', ?_, hcarries'⟩
  unfold Lowering.stepRegister
  rw [StateT.bind_of_ok (hone values), StateT.bind_of_ok (getByte_frame register),
    StateT.bind_of_ok (hnew values)]
  exact hset

theorem compareRegister (hcarries : knowledge.Carries code values facts registers)
    (hvalue : ⟨id, .i8, .word content.toUInt16⟩ ∈ facts) (register : ByteRegister)
    {platform : Platform} {instruction : Instruction} {before : List Value}
    (hoperand : Lowering.operand platform instruction (start.frame block before values) =
      .ok (id, start.frame block code values)) :
    knowledge.Leaves (Lowering.compareRegister register platform instruction) before values
      (registers.compare register content) := by
  have hregister := hcarries.carried.byte register
  obtain ⟨difference, code₁, hdifference, hknows₁⟩ :=
    Knowledge.binary hcarries.knows .sub hregister hvalue
  rw [eval_sub_byte] at hknows₁
  have hcarries₁ : knowledge.Carries code₁ values _ registers :=
    ⟨hknows₁, hcarries.carried.cons⟩
  obtain ⟨code₂, values₂, facts₂, hsetNZ, hsubset, hcarries₂⟩ := hcarries₁.setNZ (.head _)
  obtain ⟨carry, code₃, hcarry, hknows₃⟩ := Knowledge.compare hcarries₂.knows .uge
    (hsubset _ (.tail _ hregister)) (hsubset _ (.tail _ hvalue))
  rw [at_least_byte] at hknows₃
  have hcarries₃ : knowledge.Carries code₃ values₂ _ _ := ⟨hknows₃, hcarries₂.carried.cons⟩
  refine ⟨code₃, _, _, ?_, hcarries₃.putFlag .c (.head _)⟩
  unfold Lowering.compareRegister
  rw [StateT.bind_of_ok (getByte_frame register), StateT.bind_of_ok hoperand,
    StateT.bind_of_ok (hdifference values), StateT.bind_of_ok hsetNZ,
    StateT.bind_of_ok (hcarry values₂)]
  exact setFlag_frame .c carry

/-- The code of an instruction on registers alone leaves what the machine
leaves, whatever the host. -/
theorem lower_implied (hcarries : knowledge.Carries code values facts registers)
    {instruction : Instruction} (platform : Platform) (sites : Sites)
    (htakes : instruction.operation.takes .implied = true)
    (hstraight : instruction.transfers = false) :
    ∃ registers', knowledge.Leaves (Lowering.lower platform sites instruction) code values
        registers' ∧
      ∀ {σ : Type} (host : Host σ) (state : σ),
        Machine.execute host instruction registers state = some ((registers', .next), state) := by
  unfold Lowering.lower
  simp only [Machine.execute_eq_perform, Machine.perform]
  cases hoperation : instruction.operation with
  | increment register =>
      exact ⟨_, hcarries.stepRegister (fun old => eval_add_byte old 1) register,
        fun _ _ => rfl⟩
  | decrement register =>
      exact ⟨_, hcarries.stepRegister (fun old => eval_sub_byte old 1) register,
        fun _ _ => rfl⟩
  | transfer source target =>
      obtain ⟨code', values', facts', hset, hcarries'⟩ :=
        hcarries.setWithNZ target (hcarries.carried.byte source)
      exact ⟨_, ⟨code', values', facts',
        (StateT.bind_of_ok (getByte_frame source)).trans hset, hcarries'⟩, fun _ _ => rfl⟩
  | setFlag flag bit =>
      obtain ⟨id, code₁, hflag, hknows₁⟩ := Knowledge.flag hcarries.knows bit
      have hcarries₁ : knowledge.Carries code₁ values _ registers :=
        ⟨hknows₁, hcarries.carried.cons⟩
      exact ⟨_, ⟨code₁, _, _,
        (StateT.bind_of_ok (hflag values)).trans (setFlag_frame flag id),
        hcarries₁.putFlag flag (.head _)⟩, fun _ _ => rfl⟩
  | idle => exact ⟨registers, ⟨code, values, facts, rfl, hcarries⟩, fun _ _ => rfl⟩
  | ret => simp [Instruction.transfers, Instruction.isTerminal, hoperation] at hstraight
  | _ =>
      rw [hoperation] at htakes
      cases htakes

/-- Once its operand is known, the code of an instruction that reads a byte
leaves what the machine leaves for that byte. -/
theorem lower_value (hcarries : knowledge.Carries code values facts registers)
    (hvalue : ⟨id, .i8, .word content.toUInt16⟩ ∈ facts) {instruction : Instruction}
    {platform : Platform} (sites : Sites) (hreads : instruction.operation.readsByte = true)
    {before : List Value}
    (hoperand : Lowering.operand platform instruction (start.frame block before values) =
      .ok (id, start.frame block code values)) :
    ∃ registers', knowledge.Leaves (Lowering.lower platform sites instruction) before values
        registers' ∧
      ∀ {σ : Type} (host : Host σ) (state state' : σ),
        Machine.value host registers instruction.operand state = some (content, state') →
        Machine.execute host instruction registers state =
          some ((registers', .next), state') := by
  have after {act : ValueId → Lowering Unit} {registers' : Registers}
      (hact : knowledge.Leaves (act id) code values registers') :
      knowledge.Leaves (Lowering.operand platform instruction >>= act) before values
        registers' := by
    obtain ⟨code', values', facts', hdone, hcarries'⟩ := hact
    exact ⟨code', values', facts', (StateT.bind_of_ok hoperand).trans hdone, hcarries'⟩
  unfold Lowering.lower
  simp only [Machine.execute_eq_perform, Machine.perform]
  cases hoperation : instruction.operation with
  | load register =>
      exact ⟨_, after (hcarries.setWithNZ register hvalue), fun _ _ _ => Machine.onValue_eq⟩
  | compare register =>
      exact ⟨_, hcarries.compareRegister hvalue register hoperand,
        fun _ _ _ => Machine.onValue_eq⟩
  | logic op =>
      obtain ⟨result, code₁, hresult, hknows₁⟩ :=
        Knowledge.binary hcarries.knows op.binOp (hcarries.carried.byte .a) hvalue
      rw [eval_logic] at hknows₁
      have hcarries₁ : knowledge.Carries code₁ values _ registers :=
        ⟨hknows₁, hcarries.carried.cons⟩
      obtain ⟨code', values', facts', hset, hcarries'⟩ := hcarries₁.setWithNZ .a (.head _)
      refine ⟨_, ⟨code', values', facts', ?_, hcarries'⟩, fun _ _ _ => Machine.onValue_eq⟩
      simp only
      rw [StateT.bind_of_ok (getByte_frame .a), StateT.bind_of_ok hoperand,
        StateT.bind_of_ok (hresult values)]
      exact hset
  | bitTest => exact ⟨_, after (hcarries.bitTest hvalue), fun _ _ _ => Machine.onValue_eq⟩
  | addWithCarry =>
      exact ⟨_, after (hcarries.addWithCarry hvalue), fun _ _ _ => Machine.onValue_eq⟩
  | subtractWithCarry =>
      exact ⟨_, after (hcarries.subtractWithCarry hvalue), fun _ _ _ => Machine.onValue_eq⟩
  | _ =>
      rw [hoperation] at hreads
      cases hreads

end Carries

end Knowledge

namespace Scene

variable {σ : Type} {scene : Scene σ} {code : List Value} {facts : List Fact} {state : σ}
  {values : PerRegister ValueId} {registers : Registers}

/-! Instructions that go on to the next -/

/-- The code leaves `registers` in the values of the frame. -/
structure Carries (scene : Scene σ) (code : List Value) (values : PerRegister ValueId)
    (facts : List Fact) (registers : Registers) (state : σ) : Prop where
  tracks : scene.Tracks code facts state
  carried : Carried facts values registers

theorem Carries.known (hcarries : scene.Carries code values facts registers state) :
    (scene.knowledge state).Carries code values facts registers :=
  ⟨hcarries.tracks, hcarries.carried⟩

theorem Carries.of_leaves {step : Lowering Unit}
    (hleaves : (scene.knowledge state).Leaves step code values registers) :
    ∃ code' values' facts',
      step (scene.frame code values) = .ok ((), scene.frame code' values') ∧
      scene.Carries code' values' facts' registers state := by
  obtain ⟨code', values', facts', hstep, hcarries'⟩ := hleaves
  exact ⟨code', values', facts', hstep, hcarries'.knows, hcarries'.carried⟩

theorem Carries.stepMemory {op : BinOp} {change : Byte → Byte}
    (hchange : ∀ old : Byte,
      op.eval .i8 old.toUInt16 (1 : Byte).toUInt16 = (change old).toUInt16)
    (hcarries : scene.Carries code values facts registers state)
    {instruction : Instruction} (himplied : instruction.mode ≠ .implied)
    (hrelative : instruction.mode ≠ .relative) (himmediate : instruction.mode ≠ .immediate) :
    ∃ code' values' facts', ∃ registers' state',
      Lowering.stepMemory op scene.platform instruction (scene.frame code values) =
        .ok ((), scene.frame code' values') ∧
      Machine.modifyMemory scene.host registers instruction.operand change state =
        some (registers', state') ∧
      scene.Carries code' values' facts' registers' state' := by
  obtain ⟨place, code₁, address, state₁, facts₁, hplace, haddress, hlocates, hsubset, htracks₁⟩ :=
    hcarries.tracks.place hcarries.carried himplied hrelative himmediate
  obtain ⟨old, code₂, hold, htracks₂⟩ := htracks₁.load hlocates
  obtain ⟨one, code₃, hone, hknows₃⟩ := Knowledge.byte htracks₂.knows 1
  obtain ⟨new, code₄, hnew, hknows₄⟩ :=
    Knowledge.binary hknows₃ op (.tail _ (.head _)) (.head _)
  rw [hchange] at hknows₄
  have htracks₄ : scene.Tracks code₄ _ _ := hknows₄
  obtain ⟨code₅, hstore, htracks₅⟩ := htracks₄.store hlocates.cons.cons.cons (.head _)
  have hcarries₅ : scene.Carries code₅ values _ registers _ :=
    ⟨htracks₅, (hcarries.carried.mono hsubset).cons.cons.cons⟩
  obtain ⟨code', values', facts', hsetNZ, _, hcarries'⟩ := hcarries₅.known.setNZ (.head _)
  refine ⟨code', values', facts', _, _, ?_, ?_, hcarries'.knows, hcarries'.carried⟩
  · unfold Lowering.stepMemory
    rw [StateT.bind_of_ok hplace, StateT.bind_of_ok (hold values),
      StateT.bind_of_ok (hone values), StateT.bind_of_ok (hnew values),
      StateT.bind_of_ok (hstore values)]
    exact hsetNZ
  · unfold Machine.modifyMemory
    show StateT.bind _ _ _ = _
    unfold StateT.bind
    rw [haddress]
    rfl

/-- The code of an instruction that neither transfers control nor calls does
what the machine does on it. -/
theorem Carries.lower (hcarries : scene.Carries code values facts registers state)
    {instruction : Instruction} (sites : Sites)
    (htakes : instruction.operation.takes instruction.mode = true)
    (hstraight : instruction.transfers = false) (hcall : instruction.isCall = false) :
    ∃ code' values' facts', ∃ registers' state',
      Lowering.lower scene.platform sites instruction (scene.frame code values) =
        .ok ((), scene.frame code' values') ∧
      Machine.execute scene.host instruction registers state =
        some ((registers', .next), state') ∧
      scene.Carries code' values' facts' registers' state' := by
  by_cases hreads : instruction.operation.readsByte = true
  · obtain ⟨himplied, hrelative⟩ := instruction.mode_of_readsByte htakes hreads
    obtain ⟨id, code₁, content, state', hoperand, hvalue, htracks₁⟩ :=
      hcarries.tracks.operand hcarries.carried himplied hrelative
    have hcarries₁ : scene.Carries code₁ values _ registers state' :=
      ⟨htracks₁, hcarries.carried.cons⟩
    obtain ⟨registers', hleaves, hexecute⟩ :=
      hcarries₁.known.lower_value (.head _) sites hreads hoperand
    obtain ⟨code', values', facts', hlower, hcarries'⟩ := of_leaves hleaves
    exact ⟨code', values', facts', registers', state', hlower, hexecute _ _ _ hvalue, hcarries'⟩
  by_cases himplied : instruction.mode = .implied
  · rw [himplied] at htakes
    obtain ⟨registers', hleaves, hexecute⟩ :=
      hcarries.known.lower_implied scene.platform sites htakes hstraight
    obtain ⟨code', values', facts', hlower, hcarries'⟩ := of_leaves hleaves
    exact ⟨code', values', facts', registers', state, hlower, hexecute _ _, hcarries'⟩
  -- What is left goes to memory, or does not go on to the next instruction.
  unfold Lowering.lower
  simp only [Machine.execute_eq_perform, Machine.perform]
  cases hoperation : instruction.operation with
  | store register =>
      rw [hoperation] at htakes
      obtain ⟨himplied, hrelative, himmediate⟩ := Mode.of_takes_memory htakes
      obtain ⟨place, code₁, address, state₁, facts₁, hplace, haddress, hlocates, hsubset,
        htracks₁⟩ := hcarries.tracks.place hcarries.carried himplied hrelative himmediate
      have hcarried := hcarries.carried.mono hsubset
      obtain ⟨code₂, hstore, htracks₂⟩ := htracks₁.store hlocates (hcarried.byte register)
      refine ⟨code₂, values, facts₁, registers, _, ?_, ?_, htracks₂, hcarried⟩
      · simp only
        rw [StateT.bind_of_ok hplace, StateT.bind_of_ok (Knowledge.getByte_frame register)]
        exact hstore values
      · exact Machine.storeByte_eq haddress
  | incrementMemory =>
      rw [hoperation] at htakes
      obtain ⟨himplied, hrelative, himmediate⟩ := Mode.of_takes_memory htakes
      obtain ⟨code', values', facts', registers', state', hstep, hmodify, hcarries'⟩ :=
        hcarries.stepMemory (fun old => eval_add_byte old 1) himplied hrelative himmediate
      exact ⟨code', values', facts', registers', state', hstep, Machine.changeMemory_eq hmodify,
        hcarries'⟩
  | decrementMemory =>
      rw [hoperation] at htakes
      obtain ⟨himplied, hrelative, himmediate⟩ := Mode.of_takes_memory htakes
      obtain ⟨code', values', facts', registers', state', hstep, hmodify, hcarries'⟩ :=
        hcarries.stepMemory (fun old => eval_sub_byte old 1) himplied hrelative himmediate
      exact ⟨code', values', facts', registers', state', hstep, Machine.changeMemory_eq hmodify,
        hcarries'⟩
  | branch flag inverse =>
      simp [Instruction.transfers, Instruction.isBranch, hoperation] at hstraight
  | jump => simp [Instruction.transfers, Instruction.isTerminal, hoperation] at hstraight
  | call => simp [Instruction.isCall, hoperation] at hcall
  | load | compare | logic | bitTest | addWithCarry | subtractWithCarry =>
      rw [hoperation] at hreads
      exact absurd rfl hreads
  | increment | decrement | transfer | setFlag | ret | idle =>
      rw [hoperation] at htakes
      exact absurd (beq_iff_eq.mp htakes) himplied

end Scene

end Lift6502
