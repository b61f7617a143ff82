import Lift6502.Proofs.Routine.Blocks
import Lift6502.Proofs.Routine.Boundaries

/-! The outcome of lifting the blocks of a routine: either every block closes
and is built, or an instruction is named that runs out or over. -/

namespace Lift6502

open Ssa Session

namespace Decoder

/-! Turns -/

section Turns

variable (decoder : Decoder) (platform : Platform) (sites : Sites)

/-- One turn of the sweep: the instruction at an address is decoded and
lowered. -/
def turn (address : Address) (frame : Frame) : Session LiftError (Instruction × Frame) := do
  let instruction ← decoder.decodeToLift address
  Session.note (.lowering instruction)
  let (_, frame) ← Session.ofExcept (Lowering.lower platform sites instruction frame)
  return (instruction, frame)

/-- What is done where the turns end without a transfer. -/
def leave (entry : Address) (stop counter : Nat) (last : Address) (frame : Frame) :
    Session LiftError Frame :=
  return (← Session.ofExcept (fallThrough sites entry stop counter last frame)).2

end Turns

variable {decoder : Decoder} {platform : Platform} {sites : Sites} {entry : Address}
  {stop : Nat}

theorem decodeToLift_gives {location : Address} {instruction : Instruction}
    (hdecoded : decoder.instruction? location = some instruction) :
    (decoder.decodeToLift location).Gives (.ok instruction) :=
  (decode_gives_of_instruction? hdecoded).adaptExcept LiftError.decode

theorem turn_gives {address : Address} {instruction : Instruction} {frame frame' : Frame}
    (hdecoded : decoder.instruction? address = some instruction)
    (hlower : Lowering.lower platform sites instruction frame = .ok ((), frame')) :
    (decoder.turn platform sites address frame).Gives (.ok (instruction, frame')) := by
  unfold turn
  refine (decodeToLift_gives hdecoded).bind_ok ?_
  refine (gives_note _).bind_ok ?_
  rw [hlower]
  exact (gives_ofExcept _).bind_ok (gives_pure _)

theorem leave_gives (entry : Address) (stop counter : Nat) (last : Address) (frame : Frame) :
    (leave sites entry stop counter last frame).Gives
      ((fallThrough sites entry stop counter last frame).map Prod.snd) := by
  unfold leave
  cases fallThrough sites entry stop counter last frame with
  | error failure => exact (gives_ofExcept _).bind_error
  | ok reached => exact (gives_ofExcept _).bind_ok (gives_pure _)

section Unfolding

variable {counter : Nat} {last : Address} {frame : Frame}

theorem sweep_of_stop (hstop : ¬counter < stop) (steps : Nat) :
    decoder.sweep platform sites entry stop steps counter last frame =
      leave sites entry stop counter last frame := by
  cases steps with
  | zero => rfl
  | succ steps =>
      rw [sweep, if_neg hstop]
      rfl

theorem sweep_of_lt (hbefore : counter < stop) (steps : Nat) :
    decoder.sweep platform sites entry stop (steps + 1) counter last frame =
      decoder.turn platform sites (UInt16.ofNat counter) frame >>= fun (instruction, frame) =>
        if instruction.transfers then pure frame
        else decoder.sweep platform sites entry stop steps
          (instruction.location.toNat + instruction.length) instruction.location frame := by
  rw [sweep, if_pos hbefore]
  unfold turn
  simp only [bind_assoc, pure_bind]
  rfl

end Unfolding

/-! One block -/

/-- The sweep goes over instructions that do not transfer control. -/
theorem sweep_gives_of_sweeps {counter middle : Nat} {last lastMiddle : Address}
    {instructions : List Instruction} {frame frame' : Frame} {steps : Nat}
    {result : Except LiftError Frame}
    (hsweeps : decoder.Sweeps stop counter last instructions middle lastMiddle)
    (hlower : instructions.forM (Lowering.lower platform sites) frame = .ok ((), frame'))
    (hrest : (decoder.sweep platform sites entry stop steps middle lastMiddle frame').Gives
      result) :
    (decoder.sweep platform sites entry stop (instructions.length + steps) counter last
      frame).Gives result := by
  induction hsweeps generalizing frame with
  | nil counter last =>
      cases hlower
      rwa [List.length_nil, Nat.zero_add]
  | cons hbefore hdecoded hstraight htail ih =>
      rename_i instruction rest
      obtain ⟨_, frame₁, hfirst, hothers⟩ := StateT.exists_of_bind hlower
      rw [List.length_cons, Nat.add_right_comm, sweep_of_lt hbefore]
      refine (turn_gives hdecoded hfirst).bind_ok ?_
      show (if instruction.transfers = true then _ else _ : Session LiftError _).Gives _
      rw [hstraight, if_neg Bool.false_ne_true]
      exact ih hothers hrest

theorem sweep_gives_of_transfers {counter : Nat} {last : Address} {instruction : Instruction}
    {frame frame' : Frame} {steps : Nat} (hbefore : counter < stop)
    (hdecoded : decoder.instruction? (UInt16.ofNat counter) = some instruction)
    (htransfers : instruction.transfers = true)
    (hlower : Lowering.lower platform sites instruction frame = .ok ((), frame')) :
    (decoder.sweep platform sites entry stop (steps + 1) counter last frame).Gives
      (.ok frame') := by
  rw [sweep_of_lt hbefore]
  refine (turn_gives hdecoded hlower).bind_ok ?_
  show (if instruction.transfers = true then _ else _ : Session LiftError _).Gives _
  rw [htransfers, if_pos rfl]
  exact gives_pure _

theorem sweep_gives_of_stop {counter : Nat} {last : Address} {frame : Frame} {steps : Nat}
    (hstop : ¬counter < stop) :
    (decoder.sweep platform sites entry stop steps counter last frame).Gives
      ((fallThrough sites entry stop counter last frame).map Prod.snd) := by
  rw [sweep_of_stop hstop]
  exact leave_gives entry stop counter last frame

end Decoder

/-! Drafts that are built -/

namespace Draft

/-- The draft whose first block hands the parameters on to the block of the
entry. -/
def opened (entry : Address) (linkage : Linkage) (leaders : List Address) (position : Nat) :
    Draft :=
  ((laidOut entry linkage leaders).addEdges (seeds ⟨0⟩) [⟨position + 1⟩]).finish []
    (.br ⟨position + 1⟩)

/-- A draft whose first block hands the parameters on, and whose further
blocks have been built from the instructions at their leaders. -/
inductive Built (decoder : Decoder) (platform : Platform) (entry : Address) (linkage : Linkage)
    (leaders : List Address) : Draft → Prop
  | start {position : Nat} (hentry : leaders[position]? = some entry) :
      Built decoder platform entry linkage leaders (opened entry linkage leaders position)
  | block {draft : Draft} {position : Nat} {leader address : Address}
      {instructions : List Instruction} {code code' : List Value}
      {values : PerRegister ValueId} {targets : List BlockId} {terminator : Terminator}
      (hbuilt : Built decoder platform entry linkage leaders draft)
      (hposition : draft.pieces.length = position + 1)
      (hleader : leaders[position]? = some leader)
      (hpasses : decoder.Passes leader instructions address)
      (hlowers : Lowers platform (sites leaders) draft.function draft.current instructions []
        (seeds draft.current) code values)
      (hsound : draft.Sound platform code values)
      (hends : draft.Ends decoder code values leader address code' targets terminator) :
      Built decoder platform entry linkage leaders
        ((draft.addEdges values targets).finish code' terminator)

variable {decoder : Decoder} {platform : Platform} {entry : Address} {linkage : Linkage}
  {leaders : List Address} {draft : Draft}

theorem frame_nil (draft : Draft) (values : PerRegister ValueId) :
    draft.frame [] values = ⟨draft.function, draft.current, values⟩ := by
  unfold frame
  rw [Function.append_nil]

theorem Built.extends (hbuilt : Built decoder platform entry linkage leaders draft) :
    draft.entry = entry ∧ draft.linkage = linkage ∧ draft.leaders = leaders ∧
      0 < draft.pieces.length := by
  induction hbuilt with
  | start hentry => exact ⟨rfl, rfl, rfl, Nat.zero_lt_one⟩
  | block hbuilt hposition hleader hpasses hlowers hsound hends ih =>
      obtain ⟨hentry, hlinkage, hleaders, hpositive⟩ := ih
      refine ⟨hentry, hlinkage, hleaders, ?_⟩
      show 0 < (List.length (_ ++ [_]))
      rw [List.length_append]
      exact Nat.lt_add_left _ Nat.zero_lt_one

end Draft

namespace Decoder

variable {decoder : Decoder} {platform : Platform} {entry : Address} {linkage : Linkage}
  {body : AddressSet} {leaders : List Address} {routineEnd : Nat}

/-- An error that names an instruction of the body which runs out or over. -/
def Blames (decoder : Decoder) (entry : Address) (body : AddressSet) (leaders : List Address) :
    LiftError → Prop
  | .leavesRoutine routine location => routine = entry ∧ decoder.RunsOut body location
  | .overlap location leader => decoder.RunsOver body leaders location leader
  | _ => False

theorem fallThrough_next (entry : Address) {draft : Draft}
    (hsorted : draft.leaders.Pairwise fun first second => first < second)
    (hblock : draft.pieces.length < draft.leaders.length + 1) {stop final position : Nat}
    (hexact : final = stop) (hwithin : stop ≤ 0xFFFF)
    (hnext : draft.leaders[position]? = some (UInt16.ofNat final)) (lastFinal : Address)
    (code : List Value) (values : PerRegister ValueId) :
    fallThrough (Draft.sites draft.leaders) entry stop final lastFinal
        (draft.frame code values) = .ok ((),
      { function := ((draft.addEdges values [⟨position + 1⟩]).finish code
          (.br ⟨position + 1⟩)).function
        block := draft.current
        registers := values }) := by
  unfold fallThrough
  rw [if_neg (by omega), if_neg (by omega)]
  exact Draft.goTo_frame hsorted lastFinal hblock hnext

/-- A sweep that comes to the end of its block has come to the next leader,
and falls into its block, or it blames the last instruction. -/
theorem Outline.fallThrough_cases (houtline : decoder.Outline entry body leaders routineEnd)
    {draft : Draft} (hleaders : draft.leaders = leaders)
    (hblock : draft.pieces.length < draft.leaders.length + 1) {position : Nat} {leader : Address}
    (hleader : leaders[position]? = some leader) {instructions : List Instruction} {final : Nat}
    {lastFinal : Address}
    (hsweeps : decoder.Sweeps (stopAt leaders routineEnd position) leader.toNat leader
      instructions final lastFinal)
    (hout : stopAt leaders routineEnd position ≤ final) (code : List Value)
    (values : PerRegister ValueId) :
    (∃ code' targets terminator,
      draft.Ends decoder code values leader (UInt16.ofNat final) code' targets terminator ∧
      fallThrough (Draft.sites leaders) entry (stopAt leaders routineEnd position) final lastFinal
          (draft.frame code values) = .ok ((),
        { function := ((draft.addEdges values targets).finish code' terminator).function
          block := draft.current
          registers := values }) ∧
      final = stopAt leaders routineEnd position ∧
      stopAt leaders routineEnd position ≤ 0xFFFF) ∨
    ∃ error,
      fallThrough (Draft.sites leaders) entry (stopAt leaders routineEnd position) final lastFinal
        (draft.frame code values) = .error error ∧
      decoder.Blames entry body leaders error ∧
      ¬(final = stopAt leaders routineEnd position ∧
        stopAt leaders routineEnd position ≤ 0xFFFF) := by
  rcases houtline.of_falls_out hleader hsweeps hout with
    ⟨hpast, hrunsOut⟩ | ⟨hwithin, next, hnext, hstop, hexact | ⟨hover, hrunsOver⟩⟩
  · refine .inr ⟨.leavesRoutine entry lastFinal, ?_, ⟨rfl, hrunsOut⟩, by omega⟩
    unfold fallThrough
    rw [if_pos hpast]
    rfl
  · obtain ⟨nextPosition, hnextPosition⟩ := List.mem_iff_getElem?.mp hnext
    have haddress : UInt16.ofNat final = next := by
      rw [hexact, UInt16.ofNat_toNat]
    have hnextLeader : draft.leaders[nextPosition]? = some (UInt16.ofNat final) := by
      rw [hleaders, haddress, hnextPosition]
    have hother : UInt16.ofNat final ≠ leader := by
      rintro rfl
      have hlt := houtline.leader_lt_stop hleader
      rw [haddress] at hlt
      omega
    have hsorted : draft.leaders.Pairwise fun first second => first < second :=
      hleaders ▸ houtline.sorted
    refine .inl ⟨_, _, _, .fall hnextLeader hother, ?_, hexact.trans hstop.symm, by omega⟩
    rw [← hleaders]
    exact fallThrough_next entry hsorted hblock (by rw [hleaders]; omega) (by rw [hleaders]; omega)
      hnextLeader lastFinal code values
  · refine .inr ⟨.overlap lastFinal next, ?_, hrunsOver, by omega⟩
    unfold fallThrough
    rw [if_neg (by omega), if_pos (by omega), hstop, UInt16.ofNat_toNat]
    rfl

/-- The sweep over the next block of a built draft finishes the block if it
closes, and blames an instruction if it does not. -/
theorem Outline.sweep_gives (houtline : decoder.Outline entry body leaders routineEnd)
    {draft : Draft} (hbuilt : Draft.Built decoder platform entry linkage leaders draft)
    {position : Nat} {leader : Address} (hposition : draft.pieces.length = position + 1)
    (hleader : leaders[position]? = some leader)
    (hcloses : ∀ before earlier, before < position → leaders[before]? = some earlier →
      decoder.Closes (stopAt leaders routineEnd before) earlier) :
    ∃ result, (decoder.sweep platform (Draft.sites leaders) entry
        (stopAt leaders routineEnd position) addressCount leader.toNat leader
        (draft.frame [] (seeds draft.current))).Gives result ∧
      ((∃ frame' draft', result = .ok frame' ∧ frame'.function = draft'.function ∧
          Draft.Built decoder platform entry linkage leaders draft' ∧
          draft'.pieces.length = position + 2 ∧
          decoder.Closes (stopAt leaders routineEnd position) leader) ∨
        ∃ error, result = .error error ∧ decoder.Blames entry body leaders error ∧
          ¬decoder.Closes (stopAt leaders routineEnd position) leader) := by
  obtain ⟨_, _, hleaders, hpositive⟩ := hbuilt.extends
  have hblock : draft.pieces.length < draft.leaders.length + 1 := by
    have hlt := (List.getElem?_eq_some_iff.mp hleader).1
    rw [hleaders]
    omega
  obtain ⟨instructions, final, lastFinal, hsweeps, hhalts, hlength, hshort⟩ :=
    houtline.exists_sweep hleader hcloses
  have hpasses := hsweeps.passes
  rw [UInt16.ofNat_toNat] at hpasses
  obtain ⟨code, values, hlowers, hsound⟩ := Draft.exists_lowers hblock hpositive platform
    (Draft.sites leaders) hpasses
  have hbuilds {code' : List Value} {targets : List BlockId} {terminator : Terminator}
      (hends : draft.Ends decoder code values leader (UInt16.ofNat final) code' targets
        terminator) :
      Draft.Built decoder platform entry linkage leaders
          ((draft.addEdges values targets).finish code' terminator) ∧
        ((draft.addEdges values targets).finish code' terminator).pieces.length =
          position + 2 := by
    refine ⟨.block hbuilt hposition hleader hpasses hlowers hsound hends, ?_⟩
    show List.length (draft.pieces ++ [_]) = position + 2
    rw [List.length_append, hposition]
    rfl
  rw [hsweeps.closes_iff hhalts]
  by_cases hbefore : final < stopAt leaders routineEnd position
  · -- The sweep ends at a transfer, and its targets are leaders.
    obtain ⟨instruction, hdecoded, htransfers⟩ := hhalts hbefore
    have hmem := houtline.isBody.mem_of_sweeps hsweeps
      (UInt16.ofNat_toNat.symm ▸ houtline.leader_mem (List.mem_of_getElem? hleader))
    obtain ⟨code', targets, terminator, hends, _, _, htransfer⟩ :=
      Draft.ends_of_transfers (hleaders ▸ houtline.sorted) platform hblock hdecoded htransfers
        fun target htarget => hleaders ▸ houtline.target_mem hmem hdecoded htarget
    rw [hleaders] at htransfer
    obtain ⟨spare, hspare⟩ := Nat.exists_eq_add_of_lt (hshort hbefore)
    refine ⟨.ok ⟨_, draft.current, values⟩, ?_, .inl ⟨_, _, rfl, rfl, (hbuilds hends).1,
      (hbuilds hends).2, .inl hbefore⟩⟩
    rw [hspare, Nat.add_assoc]
    exact sweep_gives_of_sweeps hsweeps hlowers.forM_eq
      (sweep_gives_of_transfers hbefore hdecoded htransfers htransfer)
  · -- The sweep ends with its block.
    obtain ⟨spare, hspare⟩ := Nat.exists_eq_add_of_le hlength
    refine ⟨(fallThrough (Draft.sites leaders) entry (stopAt leaders routineEnd position) final
      lastFinal (draft.frame code values)).map Prod.snd, ?_, ?_⟩
    · rw [hspare]
      exact sweep_gives_of_sweeps hsweeps hlowers.forM_eq (sweep_gives_of_stop hbefore)
    rcases houtline.fallThrough_cases hleaders hblock hleader hsweeps (Nat.le_of_not_lt hbefore)
      code values with ⟨code', targets, terminator, hends, hfalls, hexact⟩ |
        ⟨error, hfalls, hblames, hopen⟩
    · rw [hfalls]
      exact .inl ⟨_, _, rfl, rfl, (hbuilds hends).1, (hbuilds hends).2, .inr hexact⟩
    · rw [hfalls]
      exact .inr ⟨error, rfl, hblames, fun hclosed => hopen (hclosed.resolve_left hbefore)⟩

/-! All blocks -/

theorem head_of_drop {position : Nat} {leader : Address} {rest : List Address}
    (hdrop : leaders.drop position = leader :: rest) :
    leaders[position]? = some leader ∧ leaders.drop (position + 1) = rest := by
  constructor
  · have hget := congrArg (fun dropped : List Address => dropped[0]?) hdrop
    rwa [List.getElem?_drop] at hget
  · rw [← List.tail_drop, hdrop]
    rfl

theorem closes_before_succ {position : Nat} {leader : Address}
    (hleader : leaders[position]? = some leader)
    (hcloses : ∀ before earlier, before < position → leaders[before]? = some earlier →
      decoder.Closes (stopAt leaders routineEnd before) earlier)
    (hclosed : decoder.Closes (stopAt leaders routineEnd position) leader) :
    ∀ before earlier, before < position + 1 → leaders[before]? = some earlier →
      decoder.Closes (stopAt leaders routineEnd before) earlier := by
  intro before earlier hbefore hearlier
  rcases Nat.lt_succ_iff_lt_or_eq.mp hbefore with hlt | rfl
  · exact hcloses before earlier hlt hearlier
  · cases hleader.symm.trans hearlier
    exact hclosed

theorem stopAt_of_drop (routineEnd : Nat) {position : Nat} {leader : Address} {rest : List Address}
    (hdrop : leaders.drop position = leader :: rest) :
    (match Draft.sitesFrom (position + 1) rest with
      | (next, _) :: _ => next.toNat
      | [] => routineEnd) = stopAt leaders routineEnd position := by
  have hnext : leaders[position + 1]? = rest[0]? := by
    have hget := congrArg (fun dropped : List Address => dropped[1]?) hdrop
    rwa [List.getElem?_drop, List.getElem?_cons_succ] at hget
  unfold stopAt
  rw [hnext]
  cases rest <;> rfl

/-- Lowering the blocks that are left completes a built draft if all blocks
close, and blames an instruction if one does not. -/
theorem Outline.lowerBlocks_gives (houtline : decoder.Outline entry body leaders routineEnd)
    {draft : Draft} (hbuilt : Draft.Built decoder platform entry linkage leaders draft)
    {position : Nat} {rest : List Address} (hposition : draft.pieces.length = position + 1)
    (hdrop : leaders.drop position = rest) (hle : position ≤ leaders.length)
    (hcloses : ∀ before earlier, before < position → leaders[before]? = some earlier →
      decoder.Closes (stopAt leaders routineEnd before) earlier) :
    ∃ result, (decoder.lowerBlocks platform (Draft.sites leaders) entry routineEnd
        (Draft.sitesFrom position rest) draft.function).Gives result ∧
      ((∃ draft', result = .ok draft'.function ∧
          Draft.Built decoder platform entry linkage leaders draft' ∧
          draft'.pieces.length = leaders.length + 1 ∧ decoder.Closed leaders routineEnd) ∨
        ∃ error, result = .error error ∧ decoder.Blames entry body leaders error ∧
          ¬decoder.Closed leaders routineEnd) := by
  induction rest generalizing draft position with
  | nil =>
      have hall : position = leaders.length :=
        Nat.le_antisymm hle (List.drop_eq_nil_iff.mp hdrop)
      refine ⟨.ok draft.function, gives_pure _, .inl ⟨draft, rfl, hbuilt, ?_, ?_⟩⟩
      · rw [hposition, hall]
      · intro before earlier hearlier
        exact hcloses before earlier
          (hall.symm ▸ (List.getElem?_eq_some_iff.mp hearlier).1) hearlier
  | cons leader tail ih =>
      obtain ⟨hleader, htail⟩ := head_of_drop hdrop
      have hlt := (List.getElem?_eq_some_iff.mp hleader).1
      have hframe : draft.frame [] (seeds draft.current) =
          ⟨draft.function, (Draft.site position).block,
            (Draft.site position).registers.values⟩ := by
        rw [Draft.frame_nil]
        unfold Draft.current Draft.site
        rw [hposition]
      have hstop := stopAt_of_drop routineEnd hdrop
      obtain ⟨swept, hswept, houtcome⟩ := houtline.sweep_gives hbuilt hposition hleader hcloses
      rw [hframe, ← hstop] at hswept
      show ∃ result, (decoder.lowerBlocks platform (Draft.sites leaders) entry routineEnd
        ((leader, Draft.site position) :: Draft.sitesFrom (position + 1) tail)
        draft.function).Gives result ∧ _
      rcases houtcome with ⟨frame', draft', rfl, hfunction, hbuilt', hpieces, hclosed⟩ |
        ⟨error, rfl, hblames, hopen⟩
      · obtain ⟨result, hresult, hfinal⟩ := ih hbuilt' hpieces htail hlt
          (closes_before_succ hleader hcloses hclosed)
        rw [← hfunction] at hresult
        exact ⟨result, hswept.bind_ok hresult, hfinal⟩
      · exact ⟨.error error, hswept.bind_error, .inr ⟨error, rfl, hblames, fun hclosed =>
          hopen (hclosed position leader hleader)⟩⟩

end Decoder

end Lift6502
