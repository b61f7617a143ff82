import Lift6502.Proofs.General
import Lift6502.Proofs.Routine.Outcome
import Lift6502.Proofs.Routine.Partition

/-! Lifting a routine step by step. The lifting is repeated with a record of
each instruction that is lowered, of the block it is lowered in, and of the
values that then hold the registers. Without the record it is the lifting
itself. -/

namespace Lift6502

open Ssa Session

/-- An instruction whose code was added to a block, and the values that hold
the registers behind it. -/
structure LoweredStep where
  block : BlockId
  instruction : Instruction
  registers : PerRegister ValueId

namespace Decoder

/-! The record -/

section Traced

variable (decoder : Decoder) (platform : Platform)

/-- The sweep over a block, with its steps. -/
def tracedSweep (sites : Sites) (entry : Address) (stop : Nat) (steps counter : Nat)
    (last : Address) (frame : Frame) : Session LiftError (Frame × List LoweredStep) :=
  match steps with
  | 0 => return ((← Session.ofExcept (fallThrough sites entry stop counter last frame)).2, [])
  | steps + 1 =>
      if counter < stop then do
        let instruction ← decoder.decodeToLift (UInt16.ofNat counter)
        Session.note (.lowering instruction)
        let (_, frame) ← Session.ofExcept (Lowering.lower platform sites instruction frame)
        let step : LoweredStep := ⟨frame.block, instruction, frame.registers⟩
        if instruction.isBranch || instruction.isTerminal then
          return (frame, [step])
        else
          let (frame, rest) ← tracedSweep sites entry stop steps
            (instruction.location.toNat + instruction.length) instruction.location frame
          return (frame, step :: rest)
      else
        return ((← Session.ofExcept (fallThrough sites entry stop counter last frame)).2, [])

/-- The blocks one after another, with the steps of each. -/
def tracedBlocks (sites : Sites) (entry : Address) (routineEnd : Nat) :
    List (Address × Site) → Function → Session LiftError (Function × List (List LoweredStep))
  | [], function => return (function, [])
  | (address, site) :: rest, function => do
      let stop := match rest with
        | (next, _) :: _ => next.toNat
        | [] => routineEnd
      let (frame, steps) ← decoder.tracedSweep platform sites entry stop addressCount
        address.toNat address { function, block := site.block, registers := site.registers.values }
      let (function, others) ← tracedBlocks sites entry routineEnd rest frame.function
      return (function, steps :: others)

/-- The function of a routine, with the steps of each block of a leader. -/
def tracedRoutine (entry : Address) (linkage : Linkage) :
    Session LiftError (Function × List (List LoweredStep)) := do
  let body ← (decoder.body entry).adaptExcept .decode
  let leaders ← (decoder.leaders entry body).adaptExcept .decode
  let signature := Register.all.map fun register => (register.name, register.type)
  let function := Function.declare (routineName entry) linkage signature .regs
  let ((start, sites), function) ← Session.ofBuilder (layOut leaders) function
  let (_, frame) ← Session.ofExcept (Lowering.goTo sites entry entry
    { function, block := start, registers := parameters })
  let routineEnd ← decoder.bodyEnd entry body
  let (function, blocks) ← decoder.tracedBlocks platform sites entry routineEnd sites.toList
    frame.function
  Session.note (.assembled function.name function.blocks.size)
  Session.ofExcept (function.verify.mapError .ofVerifyError)
  return (function, blocks)

end Traced

section Erasure

variable (decoder : Decoder) (platform : Platform)

theorem map_fst_tracedSweep (sites : Sites) (entry : Address) (stop steps counter : Nat)
    (last : Address) (frame : Frame) :
    Prod.fst <$> decoder.tracedSweep platform sites entry stop steps counter last frame =
      decoder.sweep platform sites entry stop steps counter last frame := by
  induction steps generalizing counter last frame with
  | zero => simp [tracedSweep, sweep]
  | succ steps ih =>
      unfold tracedSweep sweep
      split
      · simp only [map_bind]
        refine bind_congr fun instruction => ?_
        refine bind_congr fun _ => ?_
        refine bind_congr fun reached => ?_
        split
        · rfl
        · rw [← ih, map_bind, map_eq_pure_bind]
          rfl
      · simp

theorem map_fst_tracedBlocks (sites : Sites) (entry : Address) (routineEnd : Nat)
    (blocks : List (Address × Site)) (function : Function) :
    Prod.fst <$> decoder.tracedBlocks platform sites entry routineEnd blocks function =
      decoder.lowerBlocks platform sites entry routineEnd blocks function := by
  induction blocks generalizing function with
  | nil => rfl
  | cons block rest ih =>
      unfold tracedBlocks lowerBlocks
      simp only [← ih, ← map_fst_tracedSweep, map_bind, bind_map_left]
      congr 1

/-- Lifting with the record dropped is lifting. -/
theorem map_fst_tracedRoutine (entry : Address) (linkage : Linkage) :
    Prod.fst <$> decoder.tracedRoutine platform entry linkage =
      decoder.liftRoutine platform entry linkage := by
  unfold tracedRoutine liftRoutine
  simp only [← map_fst_tracedBlocks, map_bind, bind_map_left, map_pure]

end Erasure

/-! One block -/

section Gives

variable {decoder : Decoder} {platform : Platform} {sites : Sites} {entry : Address} {stop : Nat}

theorem tracedSweep_of_lt {counter : Nat} {last : Address} {frame : Frame}
    (hbefore : counter < stop) (steps : Nat) :
    decoder.tracedSweep platform sites entry stop (steps + 1) counter last frame =
      decoder.turn platform sites (UInt16.ofNat counter) frame >>= fun (instruction, frame) =>
        let step : LoweredStep := ⟨frame.block, instruction, frame.registers⟩
        if instruction.transfers then pure (frame, [step])
        else do
          let (frame, rest) ← decoder.tracedSweep platform sites entry stop steps
            (instruction.location.toNat + instruction.length) instruction.location frame
          return (frame, step :: rest) := by
  rw [tracedSweep, if_pos hbefore]
  unfold turn
  simp only [bind_assoc, pure_bind]
  rfl

theorem tracedSweep_gives_of_transfers {counter : Nat} {last : Address}
    {instruction : Instruction} {frame frame' : Frame} {steps : Nat} (hbefore : counter < stop)
    (hdecoded : decoder.instruction? (UInt16.ofNat counter) = some instruction)
    (htransfers : instruction.transfers = true)
    (hlower : Lowering.lower platform sites instruction frame = .ok ((), frame')) :
    (decoder.tracedSweep platform sites entry stop (steps + 1) counter last frame).Gives
      (.ok (frame', [⟨frame'.block, instruction, frame'.registers⟩])) := by
  rw [tracedSweep_of_lt hbefore]
  refine (turn_gives hdecoded hlower).bind_ok ?_
  show (if instruction.transfers = true then _ else _ : Session LiftError _).Gives _
  rw [htransfers, if_pos rfl]
  exact gives_pure _

theorem tracedSweep_gives_of_stop {counter : Nat} {last : Address} {frame frame' : Frame}
    {steps : Nat} (hstop : ¬counter < stop)
    (hfalls : fallThrough sites entry stop counter last frame = .ok ((), frame')) :
    (decoder.tracedSweep platform sites entry stop steps counter last frame).Gives
      (.ok (frame', [])) := by
  have hends : (do
      return ((← Session.ofExcept (fallThrough sites entry stop counter last frame)).2, []) :
      Session LiftError (Frame × List LoweredStep)).Gives (.ok (frame', [])) := by
    rw [hfalls]
    exact (gives_ofExcept _).bind_ok (gives_pure _)
  cases steps with
  | zero => exact hends
  | succ steps =>
      rw [tracedSweep, if_neg hstop]
      exact hends

/-- The steps of a sweep over instructions that do not transfer control. The
last of them leaves the registers as they are behind the instructions. -/
theorem tracedSweep_gives_of_sweeps {counter middle : Nat} {last lastMiddle : Address}
    {instructions : List Instruction} {start : Function} {block : BlockId}
    {code code' : List Value} {values values' : PerRegister ValueId} {steps : Nat}
    {frame' : Frame} {rest : List LoweredStep}
    (hsweeps : decoder.Sweeps stop counter last instructions middle lastMiddle)
    (hlowers : Lowers platform sites start block instructions code values code' values')
    (hrest : (decoder.tracedSweep platform sites entry stop steps middle lastMiddle
      ⟨start.append block code', block, values'⟩).Gives (.ok (frame', rest))) :
    ∃ taken, (decoder.tracedSweep platform sites entry stop (instructions.length + steps) counter
        last ⟨start.append block code, block, values⟩).Gives (.ok (frame', taken ++ rest)) ∧
      taken.map LoweredStep.instruction = instructions ∧ (∀ step ∈ taken, step.block = block) ∧
      ∀ step, taken.getLast? = some step → step.registers = values' ∧
        step.instruction.transfers = false ∧
        middle = step.instruction.location.toNat + step.instruction.length := by
  induction hsweeps generalizing code values with
  | nil counter last =>
      cases hlowers
      refine ⟨[], ?_, rfl, ?_, ?_⟩
      · rwa [List.length_nil, Nat.zero_add]
      · intro step hstep
        cases hstep
      · intro step hstep
        cases hstep
  | cons hbefore hdecoded hstraight htail ih =>
      rename_i instruction others
      cases hlowers with
      | cons hlower hlowers =>
          rename_i more values₁
          obtain ⟨taken, hgives, hinstructions, hblocks, hlast⟩ := ih hlowers hrest
          refine ⟨⟨block, instruction, values₁⟩ :: taken, ?_, ?_, ?_, ?_⟩
          · rw [List.length_cons, Nat.add_right_comm, tracedSweep_of_lt hbefore]
            refine (turn_gives hdecoded hlower).bind_ok ?_
            show (if instruction.transfers = true then _ else _ : Session LiftError _).Gives _
            rw [hstraight, if_neg Bool.false_ne_true]
            exact hgives.bind_ok (gives_pure _)
          · rw [List.map_cons, hinstructions]
          · intro step hstep
            rcases List.mem_cons.mp hstep with rfl | hstep
            · rfl
            · exact hblocks step hstep
          · intro step hstep
            cases taken with
            | nil =>
                cases hstep
                rw [List.map_nil] at hinstructions
                subst hinstructions
                cases htail
                cases hlowers
                exact ⟨rfl, hstraight, rfl⟩
            | cons next taken => exact hlast step (by rwa [List.getLast?_cons_cons] at hstep)

end Gives

end Decoder

/-! The last step of a block -/

/-- The edges that leave the block of a step behind its instruction. -/
def LoweredStep.edges (leaders : List Address) (step : LoweredStep) : List Edge :=
  (step.instruction.successors.filter fun target => target ∈ leaders).map fun target =>
    ⟨step.block, Draft.blockOf leaders target, step.registers⟩

/-- The step ends a block with some code and a terminator. -/
def LoweredStep.Ends (leaders : List Address) (step : LoweredStep) (piece : Piece) : Prop :=
  Draft.EndsBy leaders step.instruction step.registers
    (Draft.Puts piece.base piece.code ⟨.makeRegs step.registers, .regs, none⟩) piece.terminator

/-- Only the last step of a block has edges, if the block comes to no further
leader. -/
theorem LoweredStep.flatMap_edges {leaders : List Address} {steps : List LoweredStep}
    (hchain : (steps.map LoweredStep.instruction).IsChain fun instruction next =>
      instruction.transfers = false ∧ next.location = instruction.following)
    (hinner : ∀ instruction ∈ (steps.map LoweredStep.instruction).tail,
      instruction.location ∉ leaders) :
    steps.flatMap (LoweredStep.edges leaders) =
      steps.getLast?.toList.flatMap (LoweredStep.edges leaders) := by
  induction steps with
  | nil => rfl
  | cons step rest ih =>
      cases rest with
      | nil => rfl
      | cons next rest =>
          obtain ⟨⟨hstraight, hnext⟩, hrest⟩ := List.isChain_cons_cons.mp hchain
          have hnone : step.edges leaders = [] := by
            have hlocation := hinner next.instruction List.mem_cons_self
            rw [hnext] at hlocation
            simp [LoweredStep.edges, Instruction.successors_of_not_transfers hstraight, hlocation]
          rw [List.flatMap_cons, hnone, List.nil_append, List.getLast?_cons_cons]
          exact ih hrest fun instruction hmem => hinner instruction (List.mem_cons_of_mem _ hmem)

namespace Draft

/-- A draft goes on to another one by a block with some steps. -/
structure Adds (draft : Draft) (leaders : List Address) (steps : List LoweredStep) (later : Draft) :
    Prop where
  blocks : ∀ step ∈ steps, step.block = draft.current
  ended : ∃ last piece, steps.getLast? = some last ∧
    (∀ target ∈ last.instruction.successors, target ∈ leaders) ∧
    later.edges = draft.edges ++ last.edges leaders ∧
    later.pieces = draft.pieces ++ [piece] ∧ last.Ends leaders piece

/-- The steps of the finished blocks of a draft, from the first leader on. -/
structure Traced (draft : Draft) (decoder : Decoder) (entry : Address) (leaders : List Address)
    (routineEnd : Nat) (blocks : List (List LoweredStep)) : Prop where
  pieces_length : draft.pieces.length = blocks.length + 1
  lists : ∀ position leader steps, leaders[position]? = some leader →
    blocks[position]? = some steps →
      decoder.Lists (Decoder.stopAt leaders routineEnd position) leader.toNat
        (steps.map LoweredStep.instruction)
  block_eq : ∀ position (steps : List LoweredStep), blocks[position]? = some steps →
    ∀ step ∈ steps, step.block = ⟨position + 1⟩
  ended : ∀ position (steps : List LoweredStep), blocks[position]? = some steps → ∃ last piece,
    steps.getLast? = some last ∧ (∀ target ∈ last.instruction.successors, target ∈ leaders) ∧
    draft.pieces[position + 1]? = some piece ∧ last.Ends leaders piece
  edges_eq : draft.edges = ⟨⟨0⟩, blockOf leaders entry, seeds ⟨0⟩⟩ ::
    blocks.flatMap fun steps => steps.getLast?.toList.flatMap (LoweredStep.edges leaders)

theorem adds_finish {draft : Draft} {leaders : List Address} {steps : List LoweredStep}
    {last : LoweredStep} {targets : List BlockId} {code : List Value} {terminator : Terminator}
    (hblocks : ∀ step ∈ steps, step.block = draft.current) (hlast : steps.getLast? = some last)
    (hmem : ∀ target ∈ last.instruction.successors, target ∈ leaders)
    (htargets : targets = last.instruction.successors.map (blockOf leaders))
    (hends : last.Ends leaders ⟨draft.size, code, terminator⟩) :
    draft.Adds leaders steps ((draft.addEdges last.registers targets).finish code terminator) := by
  refine ⟨hblocks, last, _, hlast, hmem, ?_, rfl, hends⟩
  have hfilter : last.instruction.successors.filter (fun target => target ∈ leaders) =
      last.instruction.successors :=
    List.filter_eq_self.mpr fun target htarget => decide_eq_true (hmem target htarget)
  unfold LoweredStep.edges
  rw [hfilter, hblocks last (List.mem_of_getLast? hlast)]
  show draft.edges ++ targets.map _ = _
  rw [htargets, List.map_map]
  rfl

section Traced

variable {decoder : Decoder} {entry : Address} {linkage : Linkage} {leaders : List Address}
  {routineEnd : Nat}

theorem traced_opened (hsorted : leaders.Pairwise fun first second => first < second)
    {position : Nat} (hentry : leaders[position]? = some entry) :
    (opened entry linkage leaders position).Traced decoder entry leaders routineEnd [] where
  pieces_length := rfl
  lists position leader steps _ hsteps := by cases hsteps
  block_eq position steps hsteps := by cases hsteps
  ended position steps hsteps := by cases hsteps
  edges_eq := by
    rw [blockOf_eq hsorted hentry]
    rfl

theorem Traced.add {draft later : Draft} {blocks : List (List LoweredStep)}
    {steps : List LoweredStep}
    (htraced : draft.Traced decoder entry leaders routineEnd blocks)
    (hlists : ∀ leader, leaders[blocks.length]? = some leader →
      decoder.Lists (Decoder.stopAt leaders routineEnd blocks.length) leader.toNat
        (steps.map LoweredStep.instruction))
    (hadds : draft.Adds leaders steps later) :
    later.Traced decoder entry leaders routineEnd (blocks ++ [steps]) := by
  obtain ⟨last, piece, hlast, htargets, hedges, hpieces, hends⟩ := hadds.ended
  constructor
  · rw [hpieces, List.length_append, List.length_append, htraced.pieces_length]
    rfl
  · intro position leader found hleader hfound
    rcases List.getElem?_concat_cases hfound with hfound | ⟨rfl, rfl⟩
    · exact htraced.lists position leader found hleader hfound
    · exact hlists leader hleader
  · intro position found hfound step hstep
    rcases List.getElem?_concat_cases hfound with hfound | ⟨rfl, rfl⟩
    · exact htraced.block_eq position found hfound step hstep
    · rw [hadds.blocks step hstep]
      unfold current
      rw [htraced.pieces_length]
  · intro position found hfound
    rcases List.getElem?_concat_cases hfound with hfound | ⟨rfl, rfl⟩
    · obtain ⟨last, piece, hlast, htargets, hpiece, hends⟩ := htraced.ended position found hfound
      refine ⟨last, piece, hlast, htargets, ?_, hends⟩
      rw [hpieces, List.getElem?_append_left (List.getElem?_eq_some_iff.mp hpiece).1]
      exact hpiece
    · refine ⟨last, piece, hlast, htargets, ?_, hends⟩
      rw [hpieces, ← htraced.pieces_length, List.getElem?_concat_length]
  · rw [hedges, htraced.edges_eq, List.flatMap_append, List.flatMap_singleton, hlast]
    simp

end Traced

end Draft

namespace Decoder

variable {decoder : Decoder} {platform : Platform} {entry : Address} {linkage : Linkage}
  {body : AddressSet} {leaders : List Address} {routineEnd : Nat}

/-- The sweep over the block of a leader comes to its end by some steps. The
steps are of the instructions that the sweep comes to, and the last of them
ends the block. -/
structure TracesBlock (decoder : Decoder) (platform : Platform) (entry : Address)
    (linkage : Linkage) (leaders : List Address) (stop : Nat) (leader : Address) (draft : Draft)
    (steps : List LoweredStep) (draft' : Draft) : Prop where
  gives : ∃ frame', (decoder.tracedSweep platform (Draft.sites leaders) entry stop addressCount
      leader.toNat leader (draft.frame [] (seeds draft.current))).Gives (.ok (frame', steps)) ∧
    frame'.function = draft'.function
  built : Draft.Built decoder platform entry linkage leaders draft'
  lists : decoder.Lists stop leader.toNat (steps.map LoweredStep.instruction)
  adds : draft.Adds leaders steps draft'

namespace Outline

section Block

variable (houtline : decoder.Outline entry body leaders routineEnd) {draft : Draft}
  (hbuilt : Draft.Built decoder platform entry linkage leaders draft) {position : Nat}
  {leader : Address} (hposition : draft.pieces.length = position + 1)
  (hleader : leaders[position]? = some leader) {instructions : List Instruction} {final : Nat}
  {lastFinal : Address}
  (hsweeps : decoder.Sweeps (stopAt leaders routineEnd position) leader.toNat leader
    instructions final lastFinal)
  {code : List Value} {values : PerRegister ValueId}
  (hlowers : Lowers platform (Draft.sites leaders) draft.function draft.current instructions []
    (seeds draft.current) code values)
  (hsound : draft.Sound platform code values)

include houtline hbuilt hposition hleader hsweeps hlowers hsound

theorem tracesBlock_of_transfers
    (hblock : draft.pieces.length < draft.leaders.length + 1)
    (hshort : instructions.length < addressCount)
    (hbefore : final < stopAt leaders routineEnd position) {instruction : Instruction}
    (hdecoded : decoder.instruction? (UInt16.ofNat final) = some instruction)
    (htransfers : instruction.transfers = true) :
    ∃ steps draft', decoder.TracesBlock platform entry linkage leaders
      (stopAt leaders routineEnd position) leader draft steps draft' := by
  obtain ⟨_, _, hleaders, _⟩ := hbuilt.extends
  have hsorted : draft.leaders.Pairwise fun first second => first < second :=
    hleaders ▸ houtline.sorted
  have hpasses := hsweeps.passes
  rw [UInt16.ofNat_toNat] at hpasses
  have hmem := houtline.isBody.mem_of_sweeps hsweeps
    (UInt16.ofNat_toNat.symm ▸ houtline.leader_mem (List.mem_of_getElem? hleader))
  have htargets : ∀ target ∈ instruction.leaders, target ∈ leaders :=
    fun target htarget => houtline.target_mem hmem hdecoded htarget
  obtain ⟨code', targets, terminator, hends, htargetsEq, hendsBy, htransfer⟩ :=
    Draft.ends_of_transfers hsorted platform hblock hdecoded htransfers (hleaders ▸ htargets)
  rw [hleaders] at htransfer htargetsEq hendsBy
  obtain ⟨spare, hspare⟩ := Nat.exists_eq_add_of_lt hshort
  obtain ⟨taken, hgives, hinstructions, hblocks, _⟩ :=
    tracedSweep_gives_of_sweeps hsweeps hlowers
      (tracedSweep_gives_of_transfers hbefore hdecoded htransfers htransfer)
  rw [← Nat.add_assoc, ← hspare] at hgives
  refine ⟨_, _, ⟨_, hgives, rfl⟩,
    .block hbuilt hposition hleader hpasses hlowers hsound hends, ?_, ?_⟩
  · rw [List.map_append, hinstructions]
    exact hsweeps.lists (.transfer hbefore hdecoded htransfers)
  · refine Draft.adds_finish ?_ List.getLast?_concat ?_ htargetsEq hendsBy
    · intro step hstep
      rcases List.mem_append.mp hstep with hstep | hstep
      · exact hblocks step hstep
      · rw [List.mem_singleton.mp hstep]
    · intro target htarget
      exact htargets target
        (Instruction.successors_subset_leaders_of_transfers htransfers htarget)

theorem tracesBlock_of_stop (hblock : draft.pieces.length < draft.leaders.length + 1)
    (hlength : instructions.length ≤ addressCount)
    (hexact : final = stopAt leaders routineEnd position)
    (hwithin : stopAt leaders routineEnd position ≤ 0xFFFF) :
    ∃ steps draft', decoder.TracesBlock platform entry linkage leaders
      (stopAt leaders routineEnd position) leader draft steps draft' := by
  obtain ⟨_, _, hleaders, _⟩ := hbuilt.extends
  have hsorted : draft.leaders.Pairwise fun first second => first < second :=
    hleaders ▸ houtline.sorted
  have hpasses := hsweeps.passes
  rw [UInt16.ofNat_toNat] at hpasses
  have hstart := houtline.leader_lt_stop hleader
  obtain ⟨next, hnext, hstop⟩ :
      ∃ next ∈ leaders, stopAt leaders routineEnd position = next.toNat := by
    rcases houtline.of_falls_out hleader hsweeps (Nat.le_of_eq hexact.symm) with
      ⟨hpast, _⟩ | ⟨_, next, hnext, hstop, _⟩
    · omega
    · exact ⟨next, hnext, hstop⟩
  obtain ⟨place, hplace⟩ := List.mem_iff_getElem?.mp hnext
  have haddress : UInt16.ofNat final = next := by
    rw [hexact, hstop, UInt16.ofNat_toNat]
  have hother : UInt16.ofNat final ≠ leader := by
    rintro rfl
    rw [haddress] at hstart
    omega
  have hnextLeader : draft.leaders[place]? = some (UInt16.ofNat final) := by
    rw [hleaders, haddress, hplace]
  have hfalls := fallThrough_next entry hsorted hblock hexact hwithin hnextLeader lastFinal code
    values
  rw [hleaders] at hfalls
  obtain ⟨spare, hspare⟩ := Nat.exists_eq_add_of_le hlength
  obtain ⟨taken, hgives, hinstructions, hblocks, hlast⟩ :=
    tracedSweep_gives_of_sweeps hsweeps hlowers
      (tracedSweep_gives_of_stop (show ¬final < _ by omega) hfalls)
  rw [← hspare, List.append_nil] at hgives
  have hmoved : taken ≠ [] := by
    rintro rfl
    exact hsweeps.ne_nil (by omega) hinstructions.symm
  obtain ⟨last, htaken⟩ : ∃ last, taken.getLast? = some last :=
    ⟨_, List.getLast?_eq_some_getLast hmoved⟩
  obtain ⟨rfl, hstraight, hfinal⟩ := hlast last htaken
  have hfollowing : last.instruction.following = next := by
    rw [← haddress, hfinal, Instruction.ofNat_counter]
  have hsuccessors : last.instruction.successors = [next] := by
    rw [Instruction.successors_of_not_transfers hstraight, hfollowing]
  have hblockOf := Draft.blockOf_eq houtline.sorted hplace
  refine ⟨taken, _, ⟨_, hgives, rfl⟩, .block hbuilt hposition hleader hpasses hlowers hsound
    (.fall hnextLeader hother), ?_, Draft.adds_finish hblocks htaken ?_ ?_ ?_⟩
  · rw [hinstructions, ← List.append_nil instructions]
    exact hsweeps.lists (.stop (by omega))
  · rw [hsuccessors]
    exact fun target htarget => List.mem_singleton.mp htarget ▸ hnext
  · rw [hsuccessors, List.map_singleton, hblockOf]
  · rw [← hblockOf, ← hfollowing]
    exact Draft.endsBy_of_not_transfers hstraight _

end Block

theorem exists_tracesBlock (houtline : decoder.Outline entry body leaders routineEnd)
    (hclosed : decoder.Closed leaders routineEnd) {draft : Draft}
    (hbuilt : Draft.Built decoder platform entry linkage leaders draft) {position : Nat}
    {leader : Address} (hposition : draft.pieces.length = position + 1)
    (hleader : leaders[position]? = some leader) :
    ∃ steps draft', decoder.TracesBlock platform entry linkage leaders
      (stopAt leaders routineEnd position) leader draft steps draft' := by
  obtain ⟨_, _, hleaders, hpositive⟩ := hbuilt.extends
  have hblock : draft.pieces.length < draft.leaders.length + 1 := by
    have hlt := (List.getElem?_eq_some_iff.mp hleader).1
    rw [hleaders]
    omega
  obtain ⟨instructions, final, lastFinal, hsweeps, hhalts, hlength, hshort⟩ :=
    houtline.exists_sweep hleader fun before earlier _ => hclosed before earlier
  obtain ⟨code, values, hlowers, hsound⟩ := Draft.exists_lowers hblock hpositive platform
    (Draft.sites leaders) hsweeps.passes
  rcases (hsweeps.closes_iff hhalts).mp (hclosed position leader hleader) with
    hbefore | ⟨hexact, hwithin⟩
  · obtain ⟨instruction, hdecoded, htransfers⟩ := hhalts hbefore
    exact houtline.tracesBlock_of_transfers hbuilt hposition hleader hsweeps hlowers hsound hblock
      (hshort hbefore) hbefore hdecoded htransfers
  · exact houtline.tracesBlock_of_stop hbuilt hposition hleader hsweeps hlowers hsound hblock
      hlength hexact hwithin

end Outline

/-! All blocks -/

theorem Outline.tracedBlocks_gives (houtline : decoder.Outline entry body leaders routineEnd)
    (hclosed : decoder.Closed leaders routineEnd) {draft : Draft} {blocks : List (List LoweredStep)}
    (hbuilt : Draft.Built decoder platform entry linkage leaders draft)
    (htraced : draft.Traced decoder entry leaders routineEnd blocks) {rest : List Address}
    (hdrop : leaders.drop blocks.length = rest) (hle : blocks.length ≤ leaders.length) :
    ∃ draft' others, (decoder.tracedBlocks platform (Draft.sites leaders) entry routineEnd
        (Draft.sitesFrom blocks.length rest) draft.function).Gives
          (.ok (draft'.function, others)) ∧
      Draft.Built decoder platform entry linkage leaders draft' ∧
      draft'.Traced decoder entry leaders routineEnd (blocks ++ others) ∧
      (blocks ++ others).length = leaders.length := by
  induction rest generalizing draft blocks with
  | nil =>
      refine ⟨draft, [], gives_pure _, hbuilt, by rwa [List.append_nil], ?_⟩
      rw [List.append_nil]
      exact Nat.le_antisymm hle (List.drop_eq_nil_iff.mp hdrop)
  | cons leader tail ih =>
      obtain ⟨hleader, htail⟩ := head_of_drop hdrop
      obtain ⟨steps, draft₁, ⟨frame', hswept, hfunction⟩, hbuilt₁, hlists, hadds⟩ :=
        houtline.exists_tracesBlock hclosed hbuilt htraced.pieces_length hleader
      have htraced₁ := htraced.add
        (fun other hother => (Option.some.inj (hleader.symm.trans hother)) ▸ hlists) hadds
      obtain ⟨draft', others, hothers, hbuilt', htraced', hlength⟩ := ih hbuilt₁ htraced₁
        (by rw [List.length_append]; exact htail)
        (by rw [List.length_append]; exact (List.getElem?_eq_some_iff.mp hleader).1)
      refine ⟨draft', steps :: others, ?_, hbuilt', by simpa using htraced', by simpa using hlength⟩
      have hframe : draft.frame [] (seeds draft.current) =
          ⟨draft.function, (Draft.site blocks.length).block,
            (Draft.site blocks.length).registers.values⟩ := by
        rw [Draft.frame_nil]
        unfold Draft.current Draft.site
        rw [htraced.pieces_length]
      rw [hframe, ← stopAt_of_drop routineEnd hdrop] at hswept
      rw [← hfunction, List.length_append] at hothers
      show (decoder.tracedBlocks platform (Draft.sites leaders) entry routineEnd
        ((leader, Draft.site blocks.length) :: Draft.sitesFrom (blocks.length + 1) tail)
        draft.function).Gives _
      exact hswept.bind_ok (hothers.bind_ok (gives_pure _))

/-- What is known of a routine that was lifted, and of its steps. -/
structure LiftedBy (decoder : Decoder) (platform : Platform) (entry : Address) (linkage : Linkage)
    (body leaders : AddressSet) (routineEnd : Nat) (draft : Draft)
    (blocks : List (List LoweredStep)) : Prop where
  body_gives : (decoder.body entry).Gives (.ok body)
  leaders_gives : (decoder.leaders entry body).Gives (.ok leaders)
  end_gives : (decoder.bodyEnd entry body).Gives (.ok routineEnd)
  outline : decoder.Outline entry body leaders.toList routineEnd
  closed : decoder.Closed leaders.toList routineEnd
  built : Draft.Built decoder platform entry linkage leaders.toList draft
  traced : draft.Traced decoder entry leaders.toList routineEnd blocks
  blocks_length : blocks.length = leaders.toList.length

theorem Outline.tracedRoutine_gives {leaders : AddressSet}
    (houtline : decoder.Outline entry body leaders.toList routineEnd)
    (hclosed : decoder.Closed leaders.toList routineEnd)
    (hbody : (decoder.body entry).Gives (.ok body))
    (hleaders : (decoder.leaders entry body).Gives (.ok leaders))
    (hend : (decoder.bodyEnd entry body).Gives (.ok routineEnd)) (platform : Platform)
    (linkage : Linkage) :
    ∃ draft blocks,
      (decoder.tracedRoutine platform entry linkage).Gives (.ok (draft.function, blocks)) ∧
      decoder.LiftedBy platform entry linkage body leaders routineEnd draft blocks := by
  obtain ⟨position, hentry⟩ := List.mem_iff_getElem?.mp
    ((houtline.mem_iff entry).mpr (.inl rfl))
  have hopened : Draft.Built decoder platform entry linkage leaders.toList
      (Draft.opened entry linkage leaders.toList position) := .start hentry
  obtain ⟨draft, blocks, hblocks, hbuilt, htraced, hlength⟩ :=
    houtline.tracedBlocks_gives hclosed hopened (Draft.traced_opened houtline.sorted hentry)
      List.drop_zero (Nat.zero_le _)
  refine ⟨draft, blocks, ?_, hbody, hleaders, hend, houtline, hclosed, hbuilt, htraced, hlength⟩
  have hcomplete : draft.pieces.length = draft.leaders.length + 1 := by
    rw [htraced.pieces_length, hbuilt.extends.2.2.1, hlength]
  unfold tracedRoutine
  refine (hbody.adaptExcept LiftError.decode).bind_ok ?_
  refine (hleaders.adaptExcept LiftError.decode).bind_ok ?_
  unfold Session.ofBuilder
  simp only [Draft.layOut_eq]
  refine (gives_ofExcept _).bind_ok ?_
  simp only [goTo_opened linkage houtline.sorted hentry]
  refine (gives_ofExcept _).bind_ok ?_
  refine hend.bind_ok ?_
  rw [Draft.toList_sites houtline.sorted]
  refine hblocks.bind_ok ?_
  refine (gives_note _).bind_ok ?_
  rw [hbuilt.verify_eq_ok hcomplete]
  exact (gives_ofExcept _).bind_ok (gives_pure _)

theorem exists_lifted_of_liftRoutine {journal journal' : Journal} {function : Function}
    (hrun : decoder.liftRoutine platform entry linkage journal = .ok function journal') :
    ∃ body leaders routineEnd draft blocks,
      decoder.LiftedBy platform entry linkage body leaders routineEnd draft blocks ∧
      function = draft.function ∧
      decoder.tracedRoutine platform entry linkage journal = .ok (function, blocks) journal' := by
  obtain ⟨body, leaders, routineEnd, _, hbody, hleaders, hend, houtline, hclosed, _⟩ :=
    exists_closed_of_liftRoutine hrun
  obtain ⟨draft, blocks, htraced, hlifted⟩ :=
    houtline.tracedRoutine_gives hclosed hbody hleaders hend platform linkage
  rw [← map_fst_tracedRoutine, map_eq_pure_bind] at hrun
  obtain ⟨found, _, hfound, hsame⟩ := exists_of_bind_ok hrun
  cases htraced.of_ok hfound
  cases hsame
  exact ⟨body, leaders, routineEnd, draft, blocks, hlifted, rfl, hfound⟩

end Decoder

end Lift6502
