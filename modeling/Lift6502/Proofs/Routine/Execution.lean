import Lift6502.Proofs.Routine.Verification

/-! Runs of lifted functions. A block does what the machine does on the
instructions at its leader, and goes on to the block where the machine goes
on. -/

namespace Lift6502

open Ssa

namespace Ssa.Activation

variable {σ : Type} {activation : Activation} {locals : Locals} {source target : BlockId}
  {ids : List ValueId}

theorem exists_enter (activation : Activation) (locals : Locals) (source : BlockId)
    (hids : ∀ id ∈ ids, ∃ value, activation.function.values[id.index]? = some value ∧
      ∀ incoming, value.inst = .phi incoming →
        ∃ datum, activation.phi? locals source incoming = some datum) :
    ∃ entered, activation.enter locals source ids = some entered ∧
      ∀ id ∈ ids, ∀ value incoming, activation.function.values[id.index]? = some value →
        value.inst = .phi incoming → entered id = activation.phi? locals source incoming := by
  induction ids with
  | nil => exact ⟨locals, rfl, fun _ hid => nomatch hid⟩
  | cons id rest ih =>
      obtain ⟨entered, hentered, hphis⟩ := ih fun other hother =>
        hids other (List.mem_cons_of_mem _ hother)
      obtain ⟨value, hvalue, hphi⟩ := hids id List.mem_cons_self
      unfold enter
      rw [hentered, hvalue]
      simp only [Option.bind_eq_bind, Option.bind_some]
      split
      · rename_i incoming hinst
        obtain ⟨datum, hdatum⟩ := hphi incoming hinst
        rw [hdatum]
        refine ⟨_, rfl, fun other hother value' incoming' hvalue' hinst' => ?_⟩
        unfold Locals.set
        by_cases hsame : other = id
        · subst hsame
          cases hvalue.symm.trans hvalue'
          cases hinst.symm.trans hinst'
          rw [if_pos rfl, hdatum]
        · rw [if_neg hsame]
          exact hphis other ((List.mem_cons.mp hother).resolve_left hsame) value' incoming'
            hvalue' hinst'
      · rename_i hplain
        refine ⟨entered, rfl, fun other hother value' incoming' hvalue' hinst' => ?_⟩
        rcases List.mem_cons.mp hother with rfl | hother
        · cases hvalue.symm.trans hvalue'
          exact absurd hinst' (hplain incoming')
        · exact hphis other hother value' incoming' hvalue' hinst'

theorem computeAll_phis (environment : Environment σ) (state : σ)
    (hphis : ∀ id ∈ ids, ∃ incoming type name,
      activation.function.values[id.index]? = some ⟨.phi incoming, type, name⟩) :
    activation.computeAll environment ids locals state = some (locals, state) := by
  induction ids with
  | nil => rfl
  | cons id rest ih =>
      obtain ⟨incoming, type, name, hvalue⟩ := hphis id List.mem_cons_self
      have hcompute : activation.compute environment locals id state = some (locals, state) := by
        simp [compute, hvalue]
      unfold computeAll
      rw [hcompute]
      exact ih fun other hother => hphis other (List.mem_cons_of_mem _ hother)

theorem runBlock_eq {block : Block} {entered : Locals} {terminator : Terminator}
    (environment : Environment σ) (state : σ)
    (hblock : activation.function.blocks[target.index]? = some block)
    (hentered : activation.enter locals source block.insts.toList = some entered)
    (hterminator : block.terminator = some terminator) :
    activation.runBlock environment source target locals state =
      (activation.computeAll environment block.insts.toList entered state).bind fun reached =>
        (activation.exit? reached.1 terminator).map fun exit => (exit, reached) := by
  unfold runBlock
  rw [hblock]
  simp only [Option.bind_eq_bind, Option.bind_some, hentered, hterminator]
  congr 1
  funext ⟨locals', state'⟩
  cases activation.exit? locals' terminator <;> rfl

theorem exit?_condBr {cond : ValueId} {flag : Bool}
    (hword : activation.word? locals cond = some flag.toUInt16) (thenBlock elseBlock : BlockId) :
    activation.exit? locals (.condBr cond thenBlock elseBlock) =
      some (.goTo (if flag then thenBlock else elseBlock)) := by
  simp only [exit?, hword, Option.bind_eq_bind, Option.bind_some]
  cases flag <;> rfl

theorem exit?_branch {cond : ValueId} {flag : Bool}
    (hword : activation.word? locals cond = some flag.toUInt16) (inverse : Bool)
    (taken notTaken : BlockId) :
    activation.exit? locals
        (if inverse then .condBr cond notTaken taken else .condBr cond taken notTaken) =
      some (.goTo (if flag = inverse then notTaken else taken)) := by
  -- The machine goes on where the flag is `inverse`, and so does the block.
  cases inverse with
  | true | false =>
      refine (exit?_condBr hword _ _).trans ?_
      cases flag <;> rfl

theorem exit?_ret {value : ValueId} {result : Datum}
    (hdatum : activation.datum? locals value = some result) :
    activation.exit? locals (.ret value) = some (.ret result) := by
  simp only [exit?, hdatum, Option.bind_eq_bind, Option.bind_some]
  rfl

/-- Control arrives at a block, and its phis hold the registers. -/
def Arrives (activation : Activation) (source target : BlockId) (locals : Locals)
    (registers : Registers) : Prop :=
  ∃ block entered, activation.function.blocks[target.index]? = some block ∧
    activation.enter locals source block.insts.toList = some entered ∧
    ∀ register, entered ((seeds target).get register) =
      some (.word (registers.words.get register))

end Ssa.Activation

theorem Registers.flag_toUInt16 (registers : Registers) (flag : Flag) :
    (registers.flag flag).toUInt16 = registers.words.get (.flag flag) := by
  cases flag <;> rfl

namespace Draft

variable {decoder : Decoder} {platform : Platform} {entry : Address} {linkage : Linkage}
  {leaders : List Address} {draft before : Draft} {index position : Nat} {code : List Value}
  {values : PerRegister ValueId} {targets : List BlockId} {terminator : Terminator}
  {args : List Datum} {locals : Locals} {registers : Registers}

/-! Edges -/

/-- A phi takes what the register holds at the end of the block that control
comes from. -/
theorem Finished.phi?_eq
    (hfinished : draft.Finished platform index before code values targets terminator)
    (htarget : ⟨position + 1⟩ ∈ targets) (activation : Activation) (register : Register) :
    activation.phi? locals ⟨index⟩ (Edge.feeds draft.edges (position + 1) register) =
      activation.datum? locals (values.get register) := by
  have hedge : (⟨⟨index⟩, ⟨position + 1⟩, values⟩ : Edge) ∈ draft.edges :=
    (hfinished.mem_edges_iff rfl).mpr ⟨htarget, rfl⟩
  have hentry : (values.get register, ⟨index⟩) ∈
      Edge.feeds draft.edges (position + 1) register :=
    List.mem_map.mpr ⟨_, List.mem_filter.mpr ⟨hedge, beq_self_eq_true _⟩, rfl⟩
  show ((Edge.feeds draft.edges (position + 1) register).find? fun entry =>
    entry.2 == (⟨index⟩ : BlockId)).bind (fun entry => activation.datum? locals entry.1) = _
  cases hfound : (Edge.feeds draft.edges (position + 1) register).find?
      fun entry => entry.2 == (⟨index⟩ : BlockId) with
  | none => exact absurd (List.find?_eq_none.mp hfound _ hentry) (by simp)
  | some found =>
      -- Whichever entry is found, its edge comes from the same block.
      obtain ⟨edge, hedge', rfl⟩ := List.mem_map.mp (List.mem_of_find?_eq_some hfound)
      have hsource : edge.source = ⟨index⟩ := by
        simpa using List.find?_some hfound
      obtain ⟨_, hvalues⟩ := (hfinished.mem_edges_iff (congrArg BlockId.index hsource)).mp
        (List.mem_of_mem_filter hedge')
      rw [← hvalues]
      rfl

theorem exists_phi_of_mem_leading (hindex : index < draft.leaders.length + 1) {id : ValueId}
    (hid : id ∈ leading index) : ∃ incoming type name,
      draft.function.values[id.index]? = some ⟨.phi incoming, type, name⟩ := by
  obtain ⟨position, register, rfl, rfl⟩ := mem_leading_iff.mp hid
  rw [get_seeds]
  exact ⟨_, _, _, draft.getElem?_values_phi (Nat.lt_of_succ_lt_succ hindex) register⟩

/-- Control arrives at a target of a block with the registers that its values
hold. -/
theorem Finished.arrives (hbuilt : Built decoder platform entry linkage leaders draft)
    (hcomplete : draft.pieces.length = draft.leaders.length + 1)
    (hfinished : draft.Finished platform index before code values targets terminator)
    (htarget : ⟨position + 1⟩ ∈ targets)
    (hholds : ∀ register, Activation.datum? ⟨draft.function, args⟩ locals (values.get register) =
      some (.word (registers.words.get register))) :
    Activation.Arrives ⟨draft.function, args⟩ ⟨index⟩ ⟨position + 1⟩ locals registers := by
  have hposition : position < draft.leaders.length := by
    rw [← hfinished.leaders_eq]
    exact (hfinished.ended.targets _ htarget).2
  obtain ⟨_, code', _, _, _, hentered⟩ := hbuilt.exists_finished
    (hcomplete.symm ▸ Nat.succ_lt_succ hposition : position + 1 < draft.pieces.length)
  have hvalue (register : Register) : draft.function.values[
      ((seeds ⟨position + 1⟩).get register).index]? =
        some ⟨.phi (Edge.feeds draft.edges (position + 1) register), register.type,
          some (RegisterFile.phiName register (draft.leaders.getD position 0))⟩ := by
    rw [get_seeds]
    exact draft.getElem?_values_phi hposition register
  have hphi (register : Register) : Activation.phi? ⟨draft.function, args⟩ locals ⟨index⟩
      (Edge.feeds draft.edges (position + 1) register) =
        some (.word (registers.words.get register)) := by
    rw [hfinished.phi?_eq htarget, hholds]
  have hinsts : ∀ id ∈ (draft.block (position + 1)).insts.toList, ∃ value,
      draft.function.values[id.index]? = some value ∧ ∀ incoming, value.inst = .phi incoming →
        ∃ datum, Activation.phi? ⟨draft.function, args⟩ locals ⟨index⟩ incoming = some datum := by
    intro id hid
    rw [hentered.insts] at hid
    rcases List.mem_append.mp hid with hid | hid
    · obtain ⟨_, register, hsame, rfl⟩ := mem_leading_iff.mp hid
      cases hsame
      refine ⟨_, hvalue register, fun incoming hincoming => ?_⟩
      cases hincoming
      exact ⟨_, hphi register⟩
    · obtain ⟨place, value, hplace, _, rfl⟩ := mem_placed_iff.mp hid
      refine ⟨value, hentered.hosts hplace, fun incoming hincoming => ?_⟩
      have hplain := (hentered.ended.sound.plain value (List.mem_of_getElem? hplace)).1
      rw [hincoming] at hplain
      cases hplain
  obtain ⟨entered, henter, hphis⟩ := Activation.exists_enter ⟨draft.function, args⟩ locals
    ⟨index⟩ hinsts
  refine ⟨draft.block (position + 1), entered,
    draft.getElem?_blocks (Nat.succ_lt_succ hposition), henter, fun register => ?_⟩
  have hmem : (seeds ⟨position + 1⟩).get register ∈
      (draft.block (position + 1)).insts.toList := by
    rw [hentered.insts]
    exact List.mem_append_left _ (mem_leading_iff.mpr ⟨position, register, rfl, rfl⟩)
  rw [hphis _ hmem _ _ (hvalue register) rfl, hphi]

/-! Blocks -/

theorem Built.enters (hbuilt : Built decoder platform entry linkage leaders draft)
    (hcomplete : draft.pieces.length = draft.leaders.length + 1) :
    ∃ position : Nat, leaders[position]? = some entry ∧
      ∀ {σ : Type} (environment : Environment σ) (registers : Registers) (state : σ),
        Activation.runBlock ⟨draft.function, registers.args⟩ environment ⟨0⟩ ⟨0⟩ (fun _ => none)
          state = some (.goTo ⟨position + 1⟩, fun _ => none, state) ∧
        Activation.Arrives ⟨draft.function, registers.args⟩ ⟨0⟩ ⟨position + 1⟩ (fun _ => none)
          registers := by
  obtain ⟨position, hentry, hfinished⟩ := hbuilt.finished_start
  refine ⟨position, hentry, fun environment registers state => ⟨?_, ?_⟩⟩
  · have hinsts : (draft.block 0).insts.toList = [] := hfinished.insts
    rw [Activation.runBlock_eq environment state (draft.getElem?_blocks (Nat.succ_pos _))
      (by rw [hinsts]; rfl) hfinished.terminator_eq, hinsts]
    rfl
  · refine hfinished.arrives hbuilt hcomplete List.mem_cons_self fun register => ?_
    have hparam := draft.getElem?_values_param register
    rw [get_seeds]
    simp only [Activation.datum?, Nat.mul_zero, Nat.zero_add, hparam, Option.bind_eq_bind,
      Option.bind_some]
    rw [Registers.args, List.getElem?_map, PerRegister.getElem?_index]
    rfl

/-- A block is left for the block where the machine goes on, or with the
registers when the machine returns. -/
def Follows (leaders : List Address) (activation : Activation) (block : BlockId)
    (locals : Locals) (registers : Registers) : Activation.Exit → Option Address → Prop
  | .goTo target, some address => activation.Arrives block target locals registers ∧
      ∃ position : Nat, target = ⟨position + 1⟩ ∧ leaders[position]? = some address
  | .ret result, none => result = registers.datum
  | .goTo _, none | .ret _, some _ => False

section Stretch

variable {σ : Type} {host : Host σ} {environment : Environment σ}
  {hserves : platform.Serves host environment} {entered : Locals} {state state' : σ}
  {hblock : before.pieces.length < before.leaders.length + 1} {facts : List Fact}
  {code' : List Value} {leader address : Address}

theorem Finished.hosts_scene
    (hfinished : draft.Finished platform index before code values targets terminator) :
    (before.scene hblock platform host ⟨draft.function, args⟩ environment hserves entered
      state).Hosts code := by
  intro place value hvalue
  show draft.function.values[before.function.values.size + place]? = some value
  rw [values_size_function]
  exact hfinished.hosts hvalue

/-- Behind the code of a block control goes where the machine goes. -/
theorem Finished.leaves (hbuilt : Built decoder platform entry linkage leaders draft)
    (hcomplete : draft.pieces.length = draft.leaders.length + 1)
    (hfinished : draft.Finished platform index before code' values targets terminator)
    (hends : before.Ends decoder code values leader address code' targets terminator)
    (hcarries : (before.scene hblock platform host ⟨draft.function, args⟩ environment hserves
      entered state).Carries code values facts registers state') :
    ∃ exit locals' next,
      Activation.computeAll ⟨draft.function, args⟩ environment (placed before.size code') entered
        state = some (locals', state') ∧
      Activation.exit? ⟨draft.function, args⟩ locals' terminator = some exit ∧
      Machine.Leaves decoder host leader address registers state' next ∧
      Follows draft.leaders ⟨draft.function, args⟩ ⟨index⟩ locals' registers exit next := by
  have hhosts : (before.scene hblock platform host ⟨draft.function, args⟩ environment hserves
      entered state).Hosts code' := hfinished.hosts_scene
  have hbase : (before.scene hblock platform host ⟨draft.function, args⟩ environment hserves
      entered state).base = before.size := before.values_size_function
  cases hends with
  | fall hleader hother =>
      obtain ⟨locals', hcomputed, hshows⟩ := hcarries.tracks.computed hhosts
      rw [hbase] at hcomputed
      rw [hfinished.leaders_eq] at hleader
      exact ⟨_, locals', some address, hcomputed, rfl, .fall hother,
        hfinished.arrives hbuilt hcomplete List.mem_cons_self (hcarries.carried.datum hshows),
        _, rfl, hleader⟩
  | jump hdecoded hoperation htarget hleader =>
      obtain ⟨locals', hcomputed, hshows⟩ := hcarries.tracks.computed hhosts
      rw [hbase] at hcomputed
      rw [hfinished.leaders_eq] at hleader
      exact ⟨_, locals', some _, hcomputed, rfl,
        .goTo hdecoded (Machine.execute_jump hoperation htarget),
        hfinished.arrives hbuilt hcomplete List.mem_cons_self (hcarries.carried.datum hshows),
        _, rfl, hleader⟩
  | branch hdecoded hoperation htarget htaken hnotTaken =>
      rename_i instruction flag inverse target taken notTaken
      obtain ⟨locals', hcomputed, hshows⟩ := hcarries.tracks.computed hhosts
      rw [hbase] at hcomputed
      rw [hfinished.leaders_eq] at htaken hnotTaken
      have hholds := hcarries.carried.datum hshows
      have hword : Activation.word? ⟨draft.function, args⟩ locals' (values.get (.flag flag)) =
          some (registers.flag flag).toUInt16 := by
        rw [registers.flag_toUInt16]
        exact hcarries.carried.word hshows (.flag flag)
      have hexit := Activation.exit?_branch hword inverse ⟨taken + 1⟩ ⟨notTaken + 1⟩
      have hexecute : Machine.execute host instruction registers state' = _ :=
        Machine.execute_branch hoperation htarget
      by_cases hnext : registers.flag flag = inverse
      · rw [if_pos hnext] at hexit hexecute
        exact ⟨_, locals', some instruction.following, hcomputed, hexit, .next hdecoded hexecute,
          hfinished.arrives hbuilt hcomplete (List.mem_cons_of_mem _ List.mem_cons_self) hholds,
          notTaken, rfl, hnotTaken⟩
      · rw [if_neg hnext] at hexit hexecute
        exact ⟨_, locals', some target, hcomputed, hexit, .goTo hdecoded hexecute,
          hfinished.arrives hbuilt hcomplete List.mem_cons_self hholds, taken, rfl, htaken⟩
  | ret hdecoded hoperation =>
      obtain ⟨locals', hcomputed, hshows⟩ := hcarries.makeRegs.computed hhosts
      have hdatum := (hshows _ List.mem_cons_self).datum
      rw [hbase] at hcomputed hdatum
      exact ⟨.ret registers.datum, locals', none, hcomputed, Activation.exit?_ret hdatum,
        .ret hdecoded (Machine.execute_ret hoperation), rfl⟩

/-- The run of a block is that of its code, once the phis have taken their
values. -/
theorem Finished.exists_carries {source : BlockId}
    (hfinished : draft.Finished platform (position + 1) before code values targets terminator)
    (hblock : before.pieces.length < before.leaders.length + 1)
    (hserves : platform.Serves host environment)
    (harrives : Activation.Arrives ⟨draft.function, args⟩ source ⟨position + 1⟩ locals registers)
    (state : σ) :
    ∃ entered,
      (before.scene hblock platform host ⟨draft.function, args⟩ environment hserves entered
        state).Carries [] (seeds before.current) (before.seedFacts registers) registers state ∧
      Activation.runBlock ⟨draft.function, args⟩ environment source ⟨position + 1⟩ locals state =
        (Activation.computeAll ⟨draft.function, args⟩ environment (placed before.size code)
          entered state).bind fun reached =>
            (Activation.exit? ⟨draft.function, args⟩ reached.1 terminator).map
              fun exit => (exit, reached) := by
  have hindex : position + 1 < draft.leaders.length + 1 := by
    rw [← hfinished.leaders_eq, ← hfinished.length]
    exact hblock
  obtain ⟨block, entered, hfound, hentered, hlocals⟩ := harrives
  cases (draft.getElem?_blocks hindex).symm.trans hfound
  refine ⟨entered, carries_seeds hblock (hfinished.length ▸ Nat.succ_pos _) hserves ?_ ?_, ?_⟩
  · intro register
    rw [hfinished.current_eq, get_seeds]
    exact ⟨_, _, draft.getElem?_values_phi (Nat.lt_of_succ_lt_succ hindex) register⟩
  · rw [hfinished.current_eq]
    exact hlocals
  · rw [Activation.runBlock_eq environment state hfound hentered hfinished.terminator_eq,
      hfinished.insts, Activation.computeAll_append, Activation.computeAll_phis environment state
        fun id hid => exists_phi_of_mem_leading hindex hid]
    rfl

theorem Ends.extends
    (hends : before.Ends decoder code values leader address code' targets terminator) :
    ∃ more, code' = code ++ more := by
  cases hends with
  | fall | jump | branch => exact ⟨[], (List.append_nil _).symm⟩
  | ret => exact ⟨_, rfl⟩

end Stretch

/-- A block of a lifted function and the instructions that it has been built
from. In whatever state control arrives, the block does what the machine does
on the instructions, and it does not get through if the machine does not. -/
structure Enacts (draft : Draft) (decoder : Decoder) (platform : Platform) (position : Nat)
    (leader : Address) (instructions : List Instruction) (address : Address) : Prop where
  runs : ∀ {σ : Type} {host : Host σ} {environment : Environment σ} {args : List Datum}
    {source : BlockId} {locals : Locals} {registers registers' : Registers} {state state' : σ},
    platform.Serves host environment →
    Activation.Arrives ⟨draft.function, args⟩ source ⟨position + 1⟩ locals registers →
    Machine.Advances host environment.calls instructions registers state registers' state' →
    ∃ exit locals' next,
      Activation.runBlock ⟨draft.function, args⟩ environment source ⟨position + 1⟩ locals state =
        some (exit, locals', state') ∧
      Machine.Leaves decoder host leader address registers' state' next ∧
      Follows draft.leaders ⟨draft.function, args⟩ ⟨position + 1⟩ locals' registers' exit next
  advances : ∀ {σ : Type} {host : Host σ} {environment : Environment σ} {args : List Datum}
    {source : BlockId} {locals : Locals} {registers : Registers} {state : σ}
    {outcome : Activation.Exit × Locals × σ},
    platform.Serves host environment → environment.Answers →
    Activation.Arrives ⟨draft.function, args⟩ source ⟨position + 1⟩ locals registers →
    Activation.runBlock ⟨draft.function, args⟩ environment source ⟨position + 1⟩ locals state =
      some outcome →
    ∃ registers' state', Machine.Advances host environment.calls instructions registers state
      registers' state'

theorem Built.exists_enacts (hbuilt : Built decoder platform entry linkage leaders draft)
    (hcomplete : draft.pieces.length = draft.leaders.length + 1) {leader : Address}
    (hleader : leaders[position]? = some leader) :
    ∃ instructions address, decoder.Passes leader instructions address ∧
      draft.Enacts decoder platform position leader instructions address := by
  obtain ⟨_, _, hleaders, _⟩ := hbuilt.extends
  have hposition : position < draft.leaders.length :=
    hleaders ▸ (List.getElem?_eq_some_iff.mp hleader).1
  obtain ⟨before, leader', address, instructions, code, code', values, targets, terminator,
    hleader', hpasses, hlowers, hends, hfinished⟩ := hbuilt.exists_block
      (hcomplete.symm ▸ Nat.succ_lt_succ hposition : position + 1 < draft.pieces.length)
  cases hleader.symm.trans hleader'
  have hblock : before.pieces.length < before.leaders.length + 1 := by
    rw [hfinished.length, hfinished.leaders_eq]
    exact Nat.succ_lt_succ hposition
  refine ⟨instructions, address, hpasses, ?_, ?_⟩
  · intro σ host environment args source locals registers registers' state state' hserves
      harrives hadvances
    obtain ⟨entered, hcarries, hrunBlock⟩ :=
      hfinished.exists_carries hblock hserves harrives state
    obtain ⟨facts, hcarries'⟩ := hcarries.lowers hlowers hpasses hadvances
    obtain ⟨exit, locals', next, hcomputed, hexit, hleaves, hfollows⟩ :=
      hfinished.leaves hbuilt hcomplete hends hcarries'
    refine ⟨exit, locals', next, ?_, hleaves, hfollows⟩
    rw [hrunBlock, hcomputed, Option.bind_some, hexit, Option.map_some]
  · intro σ host environment args source locals registers state outcome hserves hanswers
      harrives houtcome
    obtain ⟨entered, hcarries, hrunBlock⟩ :=
      hfinished.exists_carries hblock hserves harrives state
    rw [hrunBlock] at houtcome
    obtain ⟨reached, hreached, _⟩ := Option.bind_eq_some_iff.mp houtcome
    -- The run gets through the code of the instructions, which stands in front.
    obtain ⟨more, rfl⟩ := hends.extends
    rw [placed_append, Activation.computeAll_append] at hreached
    obtain ⟨middle, hmiddle, _⟩ := Option.bind_eq_some_iff.mp hreached
    rw [← before.values_size_function] at hmiddle
    exact hcarries.exists_advances hlowers hpasses hanswers hfinished.hosts_scene.of_append
      hmiddle

end Draft

end Lift6502
