import Lift6502.Proofs.Lowering.Stretches
import Lift6502.Proofs.Routine.Layout

/-! How one block of a routine is built: the code of the instructions that
control passes, and the transfer of control at the end. -/

namespace Lift6502

open Ssa

namespace Draft

variable (draft : Draft) (code : List Value) (values : PerRegister ValueId)

def frame : Frame where
  function := draft.function.append draft.current code
  block := draft.current
  registers := values

/-! Ends of blocks -/

section Ends

variable {draft code values}
  (hsorted : draft.leaders.Pairwise fun first second => first < second)

theorem terminate_frame (terminator : Terminator)
    (hblock : draft.pieces.length < draft.leaders.length + 1) :
    Lowering.terminate terminator (draft.frame code values) = .ok ((),
      { function := (draft.finish code terminator).function
        block := draft.current
        registers := values }) := by
  unfold Lowering.terminate Lowering.build frame
  simp only [draft.terminate_append code terminator hblock]

include hsorted

theorem edge_frame {target : Address} {position : Nat} (location : Address)
    (hleader : draft.leaders[position]? = some target) :
    Lowering.edge (sites draft.leaders) location target (draft.frame code values) =
      .ok (⟨position + 1⟩, (draft.addEdges values [⟨position + 1⟩]).frame code values) := by
  have hsite : (sites draft.leaders)[target]? = some (site position) :=
    (getElem?_sites_iff hsorted).mpr ⟨position, hleader, rfl⟩
  have hposition : position < draft.leaders.length :=
    (List.getElem?_eq_some_iff.mp hleader).1
  have hreceive : Lowering.build
      (fun block => (site position).registers.receive values block) (draft.frame code values) =
      .ok ((), (draft.addEdges values [⟨position + 1⟩]).frame code values) := by
    unfold Lowering.build frame
    simp only [draft.receive_append code hposition values]
    rfl
  unfold Lowering.edge
  rw [hsite]
  simp only
  have hall : Lowering.allRegisters (draft.frame code values) =
      .ok (values, draft.frame code values) := rfl
  rw [StateT.bind_of_ok hall, StateT.bind_of_ok hreceive]
  rfl

theorem goTo_frame {target : Address} {position : Nat} (location : Address)
    (hblock : draft.pieces.length < draft.leaders.length + 1)
    (hleader : draft.leaders[position]? = some target) :
    Lowering.goTo (sites draft.leaders) location target (draft.frame code values) = .ok ((),
      { function := ((draft.addEdges values [⟨position + 1⟩]).finish code
          (.br ⟨position + 1⟩)).function
        block := draft.current
        registers := values }) := by
  unfold Lowering.goTo
  rw [StateT.bind_of_ok (edge_frame hsorted location hleader)]
  exact terminate_frame (.br ⟨position + 1⟩) hblock

theorem branch_frame {instruction : Instruction} {flag : Flag} {inverse : Bool}
    {target : Address} {taken notTaken : Nat}
    (hblock : draft.pieces.length < draft.leaders.length + 1)
    (htarget : instruction.branchTarget? = some target)
    (htaken : draft.leaders[taken]? = some target)
    (hnotTaken : draft.leaders[notTaken]? = some instruction.following) :
    Lowering.branch (sites draft.leaders) instruction flag inverse (draft.frame code values) =
      .ok ((),
        { function := ((draft.addEdges values [⟨taken + 1⟩, ⟨notTaken + 1⟩]).finish code
            (if inverse then .condBr (values.get (.flag flag)) ⟨notTaken + 1⟩ ⟨taken + 1⟩
              else .condBr (values.get (.flag flag)) ⟨taken + 1⟩ ⟨notTaken + 1⟩)).function
          block := draft.current
          registers := values }) := by
  let first := draft.addEdges values [⟨taken + 1⟩]
  have hsortedFirst : first.leaders.Pairwise fun first second => first < second := hsorted
  have hstep : Lowering.target instruction.location (some target) (draft.frame code values) =
      .ok (target, draft.frame code values) := rfl
  have hfirst : Lowering.edge (sites draft.leaders) instruction.location target
      (draft.frame code values) = .ok (⟨taken + 1⟩, first.frame code values) :=
    edge_frame hsorted instruction.location htaken
  have hsecond : Lowering.edge (sites draft.leaders) instruction.location
      instruction.following (first.frame code values) =
      .ok (⟨notTaken + 1⟩, (first.addEdges values [⟨notTaken + 1⟩]).frame code values) :=
    edge_frame hsortedFirst instruction.location hnotTaken
  have hflag : Lowering.getFlag flag ((first.addEdges values [⟨notTaken + 1⟩]).frame code values) =
      .ok (values.get (.flag flag), (first.addEdges values [⟨notTaken + 1⟩]).frame code values) :=
    rfl
  unfold Lowering.branch
  rw [htarget, StateT.bind_of_ok hstep, StateT.bind_of_ok hfirst,
    StateT.bind_of_ok hsecond, StateT.bind_of_ok hflag, addEdges_addEdges]
  exact terminate_frame _ hblock

theorem jump_frame {instruction : Instruction} {target : Address} {position : Nat}
    (hblock : draft.pieces.length < draft.leaders.length + 1)
    (htarget : instruction.jumpTarget? = some target)
    (hleader : draft.leaders[position]? = some target) :
    Lowering.jump (sites draft.leaders) instruction (draft.frame code values) = .ok ((),
      { function := ((draft.addEdges values [⟨position + 1⟩]).finish code
          (.br ⟨position + 1⟩)).function
        block := draft.current
        registers := values }) := by
  have hstep : Lowering.target instruction.location (some target) (draft.frame code values) =
      .ok (target, draft.frame code values) := rfl
  unfold Lowering.jump
  rw [htarget, StateT.bind_of_ok hstep]
  exact goTo_frame hsorted instruction.location hblock hleader

omit hsorted

theorem makeRegs_frame (hblock : draft.pieces.length < draft.leaders.length + 1) :
    Lowering.build (fun block => Builder.makeRegs block values) (draft.frame code values) =
      .ok (⟨draft.size + code.length⟩,
        draft.frame (code ++ [⟨.makeRegs values, .regs, none⟩]) values) := by
  have hsize : draft.current.index <
      (draft.function.append draft.current code).blocks.size := by
    rw [Function.append_blocks_size, blocks_size_function]
    exact hblock
  have hemit : Builder.emit draft.current (.makeRegs values) .regs
      (draft.function.append draft.current code) = _ := Builder.emit_eq .regs hsize rfl
  rw [Function.append_append, Function.append_values_size, values_size_function] at hemit
  unfold Lowering.build Builder.makeRegs frame
  simp only [hemit]

theorem ret_frame (hblock : draft.pieces.length < draft.leaders.length + 1) :
    Lowering.ret (draft.frame code values) = .ok ((),
      { function := (draft.finish (code ++ [⟨.makeRegs values, .regs, none⟩])
          (.ret ⟨draft.size + code.length⟩)).function
        block := draft.current
        registers := values }) := by
  have hall : Lowering.allRegisters (draft.frame code values) =
      .ok (values, draft.frame code values) := rfl
  unfold Lowering.ret
  rw [StateT.bind_of_ok hall, StateT.bind_of_ok (makeRegs_frame hblock)]
  exact terminate_frame _ hblock

/-- How the block at `leader` is finished when control comes to `address`
behind its code: control falls into another block, or is transferred by the
instruction there. The code of the block, the targets of its edges and its
terminator follow. -/
inductive Ends (decoder : Decoder) (draft : Draft) (code : List Value)
    (values : PerRegister ValueId) (leader address : Address) :
    List Value → List BlockId → Terminator → Prop
  | fall {position : Nat} (hleader : draft.leaders[position]? = some address)
      (hother : address ≠ leader) :
      Ends decoder draft code values leader address code [⟨position + 1⟩] (.br ⟨position + 1⟩)
  | jump {instruction : Instruction} {target : Address} {position : Nat}
      (hdecoded : decoder.instruction? address = some instruction)
      (hoperation : instruction.operation = .jump)
      (htarget : instruction.target? = some target)
      (hleader : draft.leaders[position]? = some target) :
      Ends decoder draft code values leader address code [⟨position + 1⟩] (.br ⟨position + 1⟩)
  | branch {instruction : Instruction} {flag : Flag} {inverse : Bool} {target : Address}
      {taken notTaken : Nat}
      (hdecoded : decoder.instruction? address = some instruction)
      (hoperation : instruction.operation = .branch flag inverse)
      (htarget : instruction.target? = some target)
      (htaken : draft.leaders[taken]? = some target)
      (hnotTaken : draft.leaders[notTaken]? = some instruction.following) :
      Ends decoder draft code values leader address code [⟨taken + 1⟩, ⟨notTaken + 1⟩]
        (if inverse then .condBr (values.get (.flag flag)) ⟨notTaken + 1⟩ ⟨taken + 1⟩
          else .condBr (values.get (.flag flag)) ⟨taken + 1⟩ ⟨notTaken + 1⟩)
  | ret {instruction : Instruction}
      (hdecoded : decoder.instruction? address = some instruction)
      (hoperation : instruction.operation = .ret) :
      Ends decoder draft code values leader address
        (code ++ [⟨.makeRegs values, .regs, none⟩]) [] (.ret ⟨draft.size + code.length⟩)

/-- A block whose last instruction is given has a terminator, with the values
of the registers behind the instruction. What a return hands back is
`returned`. -/
def EndsBy (leaders : List Address) (instruction : Instruction) (values : PerRegister ValueId)
    (returned : ValueId → Prop) (terminator : Terminator) : Prop :=
  match instruction.operation with
  | .branch flag inverse =>
      ∃ target, instruction.target? = some target ∧ terminator =
        if inverse then
          .condBr (values.get (.flag flag)) (blockOf leaders instruction.following)
            (blockOf leaders target)
        else
          .condBr (values.get (.flag flag)) (blockOf leaders target)
            (blockOf leaders instruction.following)
  | .jump => ∃ target, instruction.target? = some target ∧ terminator = .br (blockOf leaders target)
  | .ret => ∃ id, returned id ∧ terminator = .ret id
  | _ => terminator = .br (blockOf leaders instruction.following)

theorem EndsBy.imp {leaders : List Address} {instruction : Instruction}
    {returned returned' : ValueId → Prop} {terminator : Terminator}
    (hends : EndsBy leaders instruction values returned terminator)
    (hreturned : ∀ id, returned id → returned' id) :
    EndsBy leaders instruction values returned' terminator := by
  unfold EndsBy at hends ⊢
  cases hoperation : instruction.operation with
  | ret =>
      rw [hoperation] at hends
      obtain ⟨id, hid, hterminator⟩ := hends
      exact ⟨id, hreturned id hid, hterminator⟩
  | _ =>
      rw [hoperation] at hends
      exact hends

theorem endsBy_of_not_transfers {leaders : List Address} {instruction : Instruction}
    (hstraight : instruction.transfers = false) (returned : ValueId → Prop) :
    EndsBy leaders instruction values returned (.br (blockOf leaders instruction.following)) := by
  unfold EndsBy
  cases hoperation : instruction.operation with
  | branch | jump | ret =>
      simp [Instruction.transfers, Instruction.isBranch, Instruction.isTerminal, hoperation]
        at hstraight
  | _ => rfl

/-- The code of a block puts a value at an entry of the arena. -/
def Puts (base : Nat) (code : List Value) (value : Value) (id : ValueId) : Prop :=
  ∃ position, id = ⟨base + position⟩ ∧ code[position]? = some value

include hsorted

theorem ends_of_transfers {decoder : Decoder} (platform : Platform) {leader address : Address}
    {instruction : Instruction} (hblock : draft.pieces.length < draft.leaders.length + 1)
    (hdecoded : decoder.instruction? address = some instruction)
    (htransfers : instruction.transfers = true)
    (hleaders : ∀ leader ∈ instruction.leaders, leader ∈ draft.leaders) :
    ∃ code' targets terminator, draft.Ends decoder code values leader address code' targets
        terminator ∧
      targets = instruction.successors.map (blockOf draft.leaders) ∧
      EndsBy draft.leaders instruction values
        (Puts draft.size code' ⟨.makeRegs values, .regs, none⟩) terminator ∧
      Lowering.lower platform (sites draft.leaders) instruction (draft.frame code values) = .ok ((),
        { function := ((draft.addEdges values targets).finish code' terminator).function
          block := draft.current
          registers := values }) := by
  have htakes := (Decoder.placedAt_of_instruction? hdecoded).takes_mode
  have hleader : ∀ leader ∈ instruction.leaders, ∃ position : Nat,
      draft.leaders[position]? = some leader :=
    fun leader hmem => List.mem_iff_getElem?.mp (hleaders leader hmem)
  unfold Lowering.lower
  cases hoperation : instruction.operation with
  | branch flag inverse =>
      rw [hoperation] at htakes
      obtain ⟨target, htarget⟩ :=
        Instruction.exists_target (.inr (beq_iff_eq.mp htakes))
      have hisBranch : instruction.isBranch = true := by
        simp [Instruction.isBranch, hoperation]
      have hbranchTarget : instruction.branchTarget? = some target := by
        simp [Instruction.branchTarget?, hisBranch, htarget]
      obtain ⟨taken, htaken⟩ := hleader target (by
        simp [Instruction.leaders, Instruction.transferTarget?, hbranchTarget])
      obtain ⟨notTaken, hnotTaken⟩ := hleader instruction.following (by
        simp [Instruction.leaders, hisBranch])
      refine ⟨_, _, _, .branch hdecoded hoperation htarget htaken hnotTaken, ?_, ?_,
        branch_frame hsorted hblock hbranchTarget htaken hnotTaken⟩
      · rw [Instruction.successors_of_branch hoperation htarget, List.map_cons, List.map_singleton,
          blockOf_eq hsorted htaken, blockOf_eq hsorted hnotTaken]
      · simp [EndsBy, hoperation, htarget, blockOf_eq hsorted htaken,
          blockOf_eq hsorted hnotTaken]
  | jump =>
      rw [hoperation] at htakes
      obtain ⟨target, htarget⟩ :=
        Instruction.exists_target (.inl (beq_iff_eq.mp htakes))
      have hjumpTarget : instruction.jumpTarget? = some target := by
        simp [Instruction.jumpTarget?, Instruction.isJump, hoperation, htarget]
      have hbranchTarget : instruction.branchTarget? = none := by
        simp [Instruction.branchTarget?, Instruction.isBranch, hoperation]
      obtain ⟨position, hposition⟩ := hleader target (by
        simp [Instruction.leaders, Instruction.transferTarget?, hjumpTarget, hbranchTarget])
      refine ⟨_, _, _, .jump hdecoded hoperation htarget hposition, ?_, ?_,
        jump_frame hsorted hblock hjumpTarget hposition⟩
      · rw [Instruction.successors_of_jump hoperation htarget, List.map_singleton,
          blockOf_eq hsorted hposition]
      · simp [EndsBy, hoperation, htarget, blockOf_eq hsorted hposition]
  | ret =>
      refine ⟨_, _, _, .ret hdecoded hoperation, ?_, ?_, ?_⟩
      · rw [Instruction.successors_of_ret hoperation, List.map_nil]
      · simp only [EndsBy, hoperation]
        exact ⟨_, ⟨code.length, rfl, by simp⟩, rfl⟩
      · rw [addEdges_nil]
        exact ret_frame hblock
  | _ =>
      simp [Instruction.transfers, Instruction.isBranch, Instruction.isTerminal, hoperation]
        at htransfers

end Ends

/-! Code of blocks -/

/-- The current block of a draft in a run of the finished function. -/
def scene {σ : Type} (draft : Draft) (hblock : draft.pieces.length < draft.leaders.length + 1)
    (platform : Platform) (host : Host σ) (activation : Activation)
    (environment : Environment σ) (hserves : platform.Serves host environment)
    (locals : Locals) (state : σ) : Scene σ where
  platform := platform
  host := host
  start := draft.function
  block := draft.current
  block_lt := by
    rw [blocks_size_function]
    exact hblock
  given id := ∃ register, id = (seeds draft.current).get register
  activation := activation
  environment := environment
  serves := hserves
  locals := locals
  state := state
  front := []

/-- What the phis of the current block hold when control enters it. -/
def seedFacts (registers : Registers) : List Fact :=
  Register.all.map fun register =>
    ⟨(seeds draft.current).get register, register.type, .word (registers.words.get register)⟩

variable {draft}

theorem exists_phi (hblock : draft.pieces.length < draft.leaders.length + 1)
    (hpositive : 0 < draft.pieces.length) (register : Register) :
    ∃ incoming name, draft.function.values[((seeds draft.current).get register).index]? =
      some ⟨.phi incoming, register.type, name⟩ := by
  obtain ⟨position, hposition⟩ := Nat.exists_eq_add_of_lt hpositive
  rw [Nat.zero_add] at hposition
  rw [get_seeds]
  unfold current
  rw [hposition]
  exact ⟨_, _, draft.getElem?_values_phi (by omega) register⟩

theorem carries_seeds {σ : Type} (hblock : draft.pieces.length < draft.leaders.length + 1)
    (hpositive : 0 < draft.pieces.length) {platform : Platform} {host : Host σ}
    {activation : Activation} {environment : Environment σ}
    (hserves : platform.Serves host environment) {locals : Locals} {state : σ}
    {registers : Registers}
    (hseeds : ∀ register : Register, ∃ incoming name,
      activation.function.values[((seeds draft.current).get register).index]? =
        some ⟨.phi incoming, register.type, name⟩)
    (hlocals : ∀ register : Register, locals ((seeds draft.current).get register) =
      some (.word (registers.words.get register))) :
    (draft.scene hblock platform host activation environment hserves locals state).Carries []
      (seeds draft.current) (draft.seedFacts registers) registers state where
  tracks := by
    constructor
    · exact ⟨[], rfl⟩
    · intro position value hvalue
      cases hvalue
    · intro fact hfact
      obtain ⟨register, _, rfl⟩ := List.mem_map.mp hfact
      refine ⟨?_, .inl ⟨register, rfl⟩, register.isInteger_type, registers.holds_words register⟩
      obtain ⟨incoming, name, hphi⟩ := exists_phi hblock hpositive register
      rw [← Function.append_nil draft.function draft.current] at hphi
      exact ⟨_, hphi, rfl, fun bits hbits => by cases hbits⟩
    · intro _
      refine ⟨locals, rfl, fun fact hfact => ?_⟩
      obtain ⟨register, _, rfl⟩ := List.mem_map.mp hfact
      obtain ⟨incoming, name, hvalue⟩ := hseeds register
      constructor
      · show Option.map Value.type activation.function.values[_]? = _
        rw [hvalue]
        rfl
      · show activation.datum? locals _ = _
        simp only [Activation.datum?, hvalue, Option.bind_eq_bind, Option.bind_some]
        exact hlocals register
  carried register := List.mem_map_of_mem (Register.mem_all register)

/-! Code is built whatever the instructions are -/

/-- A value that the current block may use in front of `bound`: one of its
phis, or an entry of the code added to it. -/
def Local (draft : Draft) (bound : Nat) (id : ValueId) : Prop :=
  (∃ register, id = (seeds draft.current).get register) ∨
    (draft.size ≤ id.index ∧ id.index < bound)

/-- Code that may be added to the current block, and values that hold the
registers behind it. -/
structure Sound (draft : Draft) (platform : Platform) (code : List Value)
    (values : PerRegister ValueId) : Prop where
  typed : ∀ value ∈ code,
    value.inst.Typed (draft.function.append draft.current code).type? platform.Declares value.type
  plain : ∀ value ∈ code, value.inst.isPhi = false ∧ ∀ index, value.inst ≠ .param index
  unnamed : ∀ value ∈ code, value.name = none
  inScope : ∀ position value, code[position]? = some value → ∀ id ∈ value.inst.operands,
    draft.Local (draft.size + position) id
  held_typed : ∀ register, (draft.function.append draft.current code).type?
    (values.get register) = some register.type
  held : ∀ register, draft.Local (draft.size + code.length) (values.get register)

theorem sound_of_carries {σ : Type} {hblock : draft.pieces.length < draft.leaders.length + 1}
    {platform : Platform} {host : Host σ} {activation : Activation}
    {environment : Environment σ} {hserves : platform.Serves host environment}
    {locals : Locals} {start state : σ} {code : List Value} {values : PerRegister ValueId}
    {facts : List Fact} {registers : Registers}
    (hcarries : (draft.scene hblock platform host activation environment hserves locals
      start).Carries code values facts registers state) :
    draft.Sound platform code values := by
  have hadmits := hcarries.tracks.admits
  have hknown (register : Register) := hcarries.tracks.known _ (hcarries.carried register)
  have hsize : (draft.scene hblock platform host activation environment hserves locals
      start).base = draft.size := draft.values_size_function
  constructor
  · intro value hvalue
    obtain ⟨position, hposition⟩ := List.mem_iff_getElem?.mp hvalue
    exact (hadmits position value hposition).typed
  · intro value hvalue
    obtain ⟨position, hposition⟩ := List.mem_iff_getElem?.mp hvalue
    exact ⟨(hadmits position value hposition).isPhi, (hadmits position value hposition).notParam⟩
  · intro value hvalue
    obtain ⟨position, hposition⟩ := List.mem_iff_getElem?.mp hvalue
    exact (hadmits position value hposition).unnamed
  · intro position value hvalue id hid
    have hscope := (hadmits position value hvalue).inScope id hid
    rwa [hsize] at hscope
  · exact hcarries.type?
  · intro register
    have hlt := (hknown register).index_lt
    have hscope := (hknown register).inScope
    rw [hsize] at hlt hscope
    exact hscope.imp id fun hle => ⟨hle, hlt⟩

theorem Sound.makeRegs {platform : Platform} {code : List Value}
    {values : PerRegister ValueId} (hsound : draft.Sound platform code values) :
    draft.Sound platform (code ++ [⟨.makeRegs values, .regs, none⟩]) values := by
  have htype {id : ValueId} {type : Ty}
      (hfound : (draft.function.append draft.current code).type? id = some type) :
      (draft.function.append draft.current
        (code ++ [⟨.makeRegs values, .regs, none⟩])).type? id = some type := by
    rw [← Function.append_append]
    exact Function.type?_append hfound _ _
  constructor
  · intro value hvalue
    rcases List.mem_append.mp hvalue with hvalue | hvalue
    · exact (hsound.typed value hvalue).mono (fun _ _ _ hfound => htype hfound)
        (fun _ _ _ _ hdeclares => hdeclares)
    · rw [List.mem_singleton.mp hvalue]
      exact ⟨rfl, fun register => htype (hsound.held_typed register)⟩
  · intro value hvalue
    rcases List.mem_append.mp hvalue with hvalue | hvalue
    · exact hsound.plain value hvalue
    · rw [List.mem_singleton.mp hvalue]
      exact ⟨rfl, fun index hindex => by cases hindex⟩
  · intro value hvalue
    rcases List.mem_append.mp hvalue with hvalue | hvalue
    · exact hsound.unnamed value hvalue
    · rw [List.mem_singleton.mp hvalue]
  · intro position value hvalue id hid
    by_cases hposition : position < code.length
    · rw [List.getElem?_append_left hposition] at hvalue
      exact hsound.inScope position value hvalue id hid
    · rw [List.getElem?_append_right (by omega)] at hvalue
      obtain ⟨hlt, hget⟩ := List.getElem?_eq_some_iff.mp hvalue
      have hlast : position = code.length := by
        rw [List.length_singleton] at hlt
        omega
      subst hlast
      simp only [Nat.sub_self, List.getElem_cons_zero] at hget
      subst hget
      obtain ⟨register, _, rfl⟩ := List.mem_map.mp
        (show id ∈ Register.all.map values.get from values.toList_eq_map_all ▸ hid)
      exact hsound.held register
  · exact fun register => htype (hsound.held_typed register)
  · intro register
    refine (hsound.held register).imp id fun hbounds => ⟨hbounds.1, ?_⟩
    rw [List.length_append]
    omega

end Draft

/-! Names of routines are not names of imports -/

theorem toList_routineName (entry : Address) :
    (routineName entry).toList = 'f' :: '_' :: Hex.digits 4 entry.toNat := by
  simp [routineName, Hex.word, toString]

theorem routineName_ne_hostRead (entry : Address) : routineName entry ≠ Platform.hostRead := by
  intro heq
  have hhead := congrArg (fun name => name.toList.head?) heq
  simp [toList_routineName, Platform.hostRead] at hhead

theorem routineName_ne_hostWrite (entry : Address) : routineName entry ≠ Platform.hostWrite := by
  intro heq
  have hhead := congrArg (fun name => name.toList.head?) heq
  simp [toList_routineName, Platform.hostWrite] at hhead

/-! A host on which nothing happens -/

namespace Idle

def host : Host Unit where
  read _ state := (0, state)
  write _ _ state := state

def registers : Registers :=
  ⟨0, 0, 0, false, false, false, false⟩

/-- Every routine returns at once. -/
def environment (platform : Platform) : Environment Unit :=
  { platform.bind host with
    call := fun callee args state =>
      if callee = Platform.hostRead ∨ callee = Platform.hostWrite then
        (platform.bind host).call callee args state
      else
        some (registers.datum, state) }

theorem serves (platform : Platform) : platform.Serves host (environment platform) where
  load := rfl
  store := rfl
  call callee hcallee := by
    funext args state
    exact if_pos hcallee
  mirrored _ := ⟨fun _ _ => rfl, fun _ _ _ => rfl⟩

theorem returns (platform : Platform) (target : Address) (args : List Datum) (state : Unit) :
    (environment platform).call (routineName target) args state =
      some (registers.datum, state) := by
  simp [environment, routineName_ne_hostRead, routineName_ne_hostWrite]

end Idle

namespace Draft

theorem exists_lowers {draft : Draft} {decoder : Decoder} {address final : Address}
    {instructions : List Instruction}
    (hblock : draft.pieces.length < draft.leaders.length + 1)
    (hpositive : 0 < draft.pieces.length) (platform : Platform) (sites : Sites)
    (hpasses : decoder.Passes address instructions final) :
    ∃ code values,
      Lowers platform sites draft.function draft.current instructions [] (seeds draft.current)
        code values ∧
      draft.Sound platform code values := by
  have hcarries : (draft.scene hblock platform Idle.host ⟨draft.function, []⟩
      (Idle.environment platform) (Idle.serves platform) (fun _ => some (.word 0)) ()).Carries []
      (seeds draft.current) (draft.seedFacts Idle.registers) Idle.registers () := by
    refine carries_seeds hblock hpositive _ (exists_phi hblock hpositive) fun register => ?_
    rcases register with holder | condition
    · cases holder <;> rfl
    · cases condition <;> rfl
  obtain ⟨code, values, facts, registers, state, hlowers, hcarries'⟩ :=
    hcarries.exists_lowers sites
      (fun target _ state => ⟨Idle.registers, state, Idle.returns platform target _ state⟩) hpasses
  exact ⟨code, values, hlowers, sound_of_carries hcarries'⟩

end Draft

end Lift6502
