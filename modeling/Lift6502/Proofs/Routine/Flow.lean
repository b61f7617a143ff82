import Lift6502.Proofs.Routine.SingleAssignment
import Lift6502.Proofs.Routine.Steps

/-! The blocks of a lifted function and the edges between them are those of the
routine. Every phi has one entry for each way in which control comes to its
leader, with the values behind the instruction that control comes from. -/

namespace Lift6502

open Ssa

/-! Entries of phis -/

/-- The entries of the phi of a register in the block of a leader: the
parameter if the leader is the entry, and then one for each time that an
instruction goes on to the leader. -/
def incoming (entry : Address) (steps : List LoweredStep) (leader : Address) (register : Register) :
    List (ValueId × BlockId) :=
  (if leader = entry then [(Decoder.parameters.get register, ⟨0⟩)] else []) ++
    steps.flatMap fun step =>
      List.replicate (step.instruction.successors.count leader)
        (step.registers.get register, step.block)

namespace Draft

section Feeds

variable {leaders : List Address} (hsorted : leaders.Pairwise fun first second => first < second)
  {position : Nat} {leader : Address} (hleader : leaders[position]? = some leader)

include hsorted hleader

theorem blockOf_index_iff {target : Address} (htarget : target ∈ leaders) :
    (blockOf leaders target).index = position + 1 ↔ target = leader := by
  constructor
  · intro hindex
    have hposition : leaders.idxOf target = position := Nat.succ.inj hindex
    have hfound := List.getElem?_idxOf htarget
    rw [hposition, hleader] at hfound
    exact (Option.some.inj hfound).symm
  · rintro rfl
    rw [blockOf_eq hsorted hleader]

theorem feeds_step (step : LoweredStep) (register : Register) :
    Edge.feeds (step.edges leaders) (position + 1) register =
      List.replicate (step.instruction.successors.count leader)
        (step.registers.get register, step.block) := by
  have hmem := List.mem_of_getElem? hleader
  have hfilter : step.instruction.successors.filter (fun target =>
      (blockOf leaders target).index == position + 1 && decide (target ∈ leaders)) =
      step.instruction.successors.filter (· == leader) := by
    refine List.filter_congr fun target _ => ?_
    by_cases htarget : target ∈ leaders
    · have hiff := blockOf_index_iff hsorted hleader htarget
      simp [htarget, hiff, Bool.beq_eq_decide_eq]
    · have hne : target ≠ leader := fun heq => htarget (heq ▸ hmem)
      simp [htarget, hne]
  unfold Edge.feeds LoweredStep.edges
  rw [List.filter_map, List.map_map, List.filter_filter]
  simp only [Function.comp_def]
  rw [hfilter, List.filter_beq, List.map_replicate]

theorem feeds_eq_incoming {entry : Address} (hentry : entry ∈ leaders) (steps : List LoweredStep)
    (register : Register) :
    Edge.feeds (⟨⟨0⟩, blockOf leaders entry, seeds ⟨0⟩⟩ ::
        steps.flatMap (LoweredStep.edges leaders)) (position + 1) register =
      incoming entry steps leader register := by
  have hsteps : Edge.feeds (steps.flatMap (LoweredStep.edges leaders)) (position + 1) register =
      steps.flatMap fun step => List.replicate (step.instruction.successors.count leader)
        (step.registers.get register, step.block) := by
    simp only [← feeds_step hsorted hleader _ register]
    unfold Edge.feeds
    rw [List.filter_flatMap, List.map_flatMap]
  unfold incoming
  rw [← hsteps]
  unfold Edge.feeds
  rw [List.filter_cons]
  have hiff := blockOf_index_iff hsorted hleader hentry
  by_cases heq : leader = entry
  · rw [if_pos heq, if_pos (beq_iff_eq.mpr (hiff.mpr heq.symm))]
    rfl
  · rw [if_neg heq, if_neg (by simpa [hiff] using Ne.symm heq)]
    rfl

end Feeds

theorem labels_function (draft : Draft) : draft.function.blocks.toList.map Block.label =
    "start" :: draft.leaders.map fun leader => s!"l_{Hex.word leader}" := by
  unfold function
  rw [List.map_map, List.range_succ_eq_map, List.map_cons, List.map_map]
  congr 1
  apply List.ext_getElem?
  intro index
  by_cases hindex : index < draft.leaders.length
  · simp [block, hindex]
  · simp [hindex]

theorem getElem?_insts_phi (draft : Draft) (position : Nat) (register : Register) :
    (draft.block (position + 1)).insts[register.index]? =
      some ((seeds ⟨position + 1⟩).get register) := by
  have hseed : (leading (position + 1))[register.index]? =
      some ((seeds ⟨position + 1⟩).get register) :=
    PerRegister.getElem?_index (seeds ⟨position + 1⟩) register
  unfold block
  rw [List.getElem?_toArray, List.getElem?_append_left (List.getElem?_eq_some_iff.mp hseed).1]
  exact hseed

end Draft

/-! The function -/

/-- The blocks of a function and what leads from one to another are those of a
routine with an entry and leaders that was lowered by some steps. -/
structure Ssa.Function.Flows (function : Function) (entry : Address) (leaders : List Address)
    (blocks : List (List LoweredStep)) : Prop where
  labels : function.blocks.toList.map Block.label =
    "start" :: leaders.map fun leader => s!"l_{Hex.word leader}"
  params : function.params = Decoder.parameters.toList
  start : ∃ block : Block, function.blocks[0]? = some block ∧
    block.terminator = some (.br (Draft.blockOf leaders entry))
  phis : ∀ (position : Nat) (leader : Address), leaders[position]? = some leader →
    ∃ block : Block, function.blocks[position + 1]? = some block ∧
      ∀ register : Register, ∃ phi : ValueId, block.insts[register.index]? = some phi ∧
        function.values[phi.index]? =
          some ⟨.phi (incoming entry blocks.flatten leader register), register.type,
            some (RegisterFile.phiName register leader)⟩
  terminators : ∀ (position : Nat) (steps : List LoweredStep), blocks[position]? = some steps →
    ∃ (last : LoweredStep) (block : Block) (terminator : Terminator),
      steps.getLast? = some last ∧
      function.blocks[position + 1]? = some block ∧ block.terminator = some terminator ∧
      (∀ target ∈ last.instruction.successors, target ∈ leaders) ∧
      Draft.EndsBy leaders last.instruction last.registers
        (fun id => function.values[id.index]? = some ⟨.makeRegs last.registers, .regs, none⟩)
        terminator

namespace Decoder

variable {decoder : Decoder} {platform : Platform} {entry : Address} {linkage : Linkage}

namespace LiftedBy

variable {body leaders : AddressSet} {routineEnd : Nat} {draft : Draft}
  {blocks : List (List LoweredStep)}
  (hlifted : decoder.LiftedBy platform entry linkage body leaders routineEnd draft blocks)

include hlifted

theorem divides : decoder.Divides leaders.toList routineEnd
    (blocks.map (List.map LoweredStep.instruction)) where
  length_eq := by rw [List.length_map, hlifted.blocks_length]
  lists position leader listed hleader hlisted := by
    rw [List.getElem?_map, Option.map_eq_some_iff] at hlisted
    obtain ⟨steps, hsteps, rfl⟩ := hlisted
    exact hlifted.traced.lists position leader steps hleader hsteps

theorem perm_locations : ((blocks.flatten.map LoweredStep.instruction).map
    Instruction.location).Perm body.toList := by
  rw [List.map_flatten]
  exact hlifted.outline.perm_locations hlifted.closed hlifted.divides

theorem decoded_of_mem {instruction : Instruction}
    (hmem : instruction ∈ blocks.flatten.map LoweredStep.instruction) :
    decoder.instruction? instruction.location = some instruction := by
  rw [List.map_flatten] at hmem
  exact Outline.decoded_of_mem hlifted.divides hmem

theorem edges_eq : draft.edges = ⟨⟨0⟩, Draft.blockOf leaders.toList entry, seeds ⟨0⟩⟩ ::
    blocks.flatten.flatMap (LoweredStep.edges leaders.toList) := by
  rw [hlifted.traced.edges_eq, List.flatten_eq_flatMap, List.flatMap_assoc]
  congr 1
  refine List.flatMap_congr fun steps hsteps => ?_
  obtain ⟨position, hposition⟩ := List.mem_iff_getElem?.mp hsteps
  have hlisted : (blocks.map (List.map LoweredStep.instruction))[position]? =
      some (steps.map LoweredStep.instruction) := by
    rw [List.getElem?_map, hposition, Option.map_some]
  obtain ⟨_, _, hlists⟩ := Outline.exists_leader hlifted.divides hlisted
  symm
  exact LoweredStep.flatMap_edges hlists.isChain fun instruction hmem =>
    hlifted.outline.not_leader_of_mem_tail hlifted.closed hlifted.divides hlisted hmem

theorem flows : draft.function.Flows entry leaders.toList blocks := by
  have hleaders : draft.leaders = leaders.toList := hlifted.built.extends.2.2.1
  have hsorted := hlifted.outline.sorted
  have hpieces : draft.pieces.length = draft.leaders.length + 1 := by
    rw [hlifted.traced.pieces_length, hlifted.blocks_length, hleaders]
  constructor
  · rw [← hleaders]
    exact draft.labels_function
  · rfl
  · obtain ⟨position, hentry, hfinished⟩ := hlifted.built.finished_start
    refine ⟨_, draft.getElem?_blocks (Nat.succ_pos _), ?_⟩
    rw [hfinished.terminator_eq, Draft.blockOf_eq hsorted hentry]
  · intro position leader hleader
    have hlt := (List.getElem?_eq_some_iff.mp hleader).1
    rw [← hleaders] at hlt
    refine ⟨_, draft.getElem?_blocks (Nat.succ_lt_succ hlt), fun register => ?_⟩
    refine ⟨_, draft.getElem?_insts_phi position register, ?_⟩
    rw [get_seeds, draft.getElem?_values_phi hlt register, hlifted.edges_eq,
      Draft.feeds_eq_incoming hsorted hleader
        ((hlifted.outline.mem_iff entry).mpr (.inl rfl)), hleaders, List.getD_eq_getElem?_getD,
      hleader]
    rfl
  · intro position steps hsteps
    obtain ⟨last, piece, hlast, htargets, hpiece, hends⟩ :=
      hlifted.traced.ended position steps hsteps
    have hlt := (List.getElem?_eq_some_iff.mp hpiece).1
    refine ⟨last, _, piece.terminator, hlast, draft.getElem?_blocks (hpieces ▸ hlt), ?_,
      htargets, ?_⟩
    · unfold Draft.block
      rw [hpiece]
      rfl
    · refine hends.imp fun id => ?_
      rintro ⟨offset, rfl, hvalue⟩
      obtain ⟨_, _, _, _, _, hfinished⟩ := hlifted.built.exists_finished hlt
      cases hpiece.symm.trans hfinished.piece
      exact hfinished.hosts hvalue

end LiftedBy

/-- The control flow of a lifted function is that of the routine. Lifting it
with a record of its steps gives the same function. Every instruction of the
body is lowered in one step, in one block; every phi has exactly the entries
that the steps make; and every block ends as its last step says. -/
theorem flows_of_liftRoutine {journal journal' : Journal} {function : Function}
    (hrun : decoder.liftRoutine platform entry linkage journal = .ok function journal') :
    ∃ body leaders blocks, (decoder.body entry).outcome journal = .ok body ∧
      (decoder.leaders entry body).outcome journal = .ok leaders ∧
      decoder.tracedRoutine platform entry linkage journal = .ok (function, blocks) journal' ∧
      (blocks.flatten.map fun step => step.instruction.location).Perm body.toList ∧
      (∀ step ∈ blocks.flatten,
        decoder.instruction? step.instruction.location = some step.instruction) ∧
      blocks.length = leaders.toList.length ∧
      (∀ position (steps : List LoweredStep), blocks[position]? = some steps →
        ∀ step ∈ steps, step.block = ⟨position + 1⟩) ∧
      function.Flows entry leaders.toList blocks := by
  obtain ⟨body, leaders, routineEnd, draft, blocks, hlifted, rfl, htraced⟩ :=
    exists_lifted_of_liftRoutine hrun
  refine ⟨body, leaders, blocks, hlifted.body_gives journal, hlifted.leaders_gives journal,
    htraced, ?_, ?_, hlifted.blocks_length, hlifted.traced.block_eq, hlifted.flows⟩
  · have hperm := hlifted.perm_locations
    rwa [List.map_map] at hperm
  · intro step hstep
    exact hlifted.decoded_of_mem (List.mem_map_of_mem hstep)

/-- The loop of `tally` starts at 0x8002. The phi of X there takes one value
from the instructions before the loop and one from its end. -/
theorem flows_tally : ∃ function journal' body leaders blocks,
    tally.liftRoutine .nes 0x8000 .external {} = .ok function journal' ∧
    (tally.body 0x8000).outcome {} = .ok body ∧
    (tally.leaders 0x8000 body).outcome {} = .ok leaders ∧
    leaders.toList = [0x8000, 0x8002, 0x8008] ∧
    tally.tracedRoutine .nes 0x8000 .external {} = .ok (function, blocks) journal' ∧
    function.Flows 0x8000 [0x8000, 0x8002, 0x8008] blocks ∧
    (incoming 0x8000 blocks.flatten 0x8002 (.byte .x)).map Prod.snd = [⟨1⟩, ⟨2⟩] := by
  obtain ⟨function, journal', hrun⟩ := exists_liftRoutine_tally
  obtain ⟨body, leaders, blocks, hbody, hleaders, htraced, _, _, _, _, hflows⟩ :=
    flows_of_liftRoutine hrun
  have hlist : (((tally.body 0x8000).outcome {}).bind fun body =>
      ((tally.leaders 0x8000 body).outcome {}).map Std.TreeSet.toList) =
        .ok [0x8000, 0x8002, 0x8008] := by
    decide +kernel
  have hsources : ((tally.tracedRoutine .nes 0x8000 .external).outcome {}).map (fun lifted =>
      (incoming 0x8000 lifted.2.flatten 0x8002 (.byte .x)).map Prod.snd) = .ok [⟨1⟩, ⟨2⟩] := by
    decide +kernel
  rw [hbody, Except.bind, hleaders, Except.map, Except.ok.injEq] at hlist
  rw [Session.outcome_eq_ok_iff.mpr ⟨journal', htraced⟩, Except.map, Except.ok.injEq] at hsources
  rw [hlist] at hflows
  exact ⟨function, journal', body, leaders, blocks, hrun, hbody, hleaders, hlist, htraced, hflows,
    hsources⟩

end Decoder

end Lift6502
