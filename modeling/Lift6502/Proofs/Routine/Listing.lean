import Lift6502.Proofs.Routine.Flow

/-! The instructions that are lowered are those of the listing. They come in
the same order, unless a sweep wraps. -/

namespace Lift6502

open Ssa Session

/-! Records of lowering -/

/-- The records of the finest level, in their order. -/
def Journal.traces (journal : Journal) : List Event :=
  journal.events.toList.filter fun event => event.level = .trace

theorem Journal.traces_note_of_ne (journal : Journal) {event : Event}
    (hlevel : event.level ≠ .trace) : (journal.note event).traces = journal.traces := by
  simp [traces, note, hlevel]

theorem Journal.traces_note_lowering (journal : Journal) (instruction : Instruction) :
    (journal.note (.lowering instruction)).traces =
      journal.traces ++ [.lowering instruction] := by
  simp [traces, note, Event.level]

namespace Session

variable {ε ε' α β σ : Type}

/-- The session leaves no record of the finest level. -/
def Silent (session : Session ε α) : Prop :=
  ∀ journal : Journal, (session.after journal).traces = journal.traces

theorem silent_ofExcept (result : Except ε α) : Silent (ofExcept result) := by
  intro journal
  cases result <;> rfl

theorem silent_pure (value : α) : Silent (pure value : Session ε α) :=
  fun _ => rfl

theorem silent_note {event : Event} (hlevel : event.level ≠ .trace) :
    Silent (note event : Session ε Unit) :=
  fun journal => journal.traces_note_of_ne hlevel

theorem Silent.bind {session : Session ε α} {next : α → Session ε β} (hsession : session.Silent)
    (hnext : ∀ value, (next value).Silent) : Silent (session >>= next) := by
  intro journal
  have hfirst := hsession journal
  cases hrun : session journal with
  | ok value middle =>
      rw [after_of_ok hrun] at hfirst
      rw [after, bind_run_ok hrun, ← hfirst]
      exact hnext value middle
  | error error middle =>
      rw [after_of_error hrun] at hfirst
      rw [after_of_error (bind_run_error hrun), hfirst]

theorem Silent.adaptExcept {session : Session ε α} (change : ε → ε')
    (hsession : session.Silent) : Silent (EStateM.adaptExcept change session) := by
  intro journal
  rw [← hsession journal]
  unfold after EStateM.adaptExcept
  cases session journal <;> rfl

theorem silent_foldlM {step : σ → α → Session ε σ} {items : List α}
    (hstep : ∀ state, ∀ item ∈ items, (step state item).Silent) (state : σ) :
    Silent (items.foldlM step state) := by
  induction items generalizing state with
  | nil => exact silent_pure state
  | cons item rest ih =>
      rw [List.foldlM_cons]
      exact (hstep state item List.mem_cons_self).bind
        (ih fun state' other hother => hstep state' other (List.mem_cons_of_mem _ hother))

theorem Silent.of_ok {session : Session ε α} {journal journal' : Journal} {value : α}
    (hsession : session.Silent) (hrun : session journal = .ok value journal') :
    journal'.traces = journal.traces := by
  rw [← after_of_ok hrun, hsession journal]

end Session

namespace Decoder

variable (decoder : Decoder)

theorem silent_byte (location address : Address) : (decoder.byte location address).Silent := by
  cases hbacked : decoder.space.backed address with
  | true =>
      rw [byte_eq_of_backed hbacked]
      exact silent_pure _
  | false =>
      by_cases hfail : decoder.policy.unmapped = .fail
      · rw [byte_eq_of_refused hbacked hfail]
        exact silent_ofExcept (.error _)
      · rw [byte_eq_of_guessed hbacked hfail]
        refine Silent.bind ?_ fun _ => silent_pure _
        intro journal
        show Journal.traces (if _ then _ else _) = _
        split
        · exact Journal.traces_note_of_ne _ nofun
        · rfl

theorem silent_operand (location : Address) (mode : Mode) :
    (decoder.operand location mode).Silent := by
  have hword (address : Address) : (decoder.word location address).Silent :=
    (decoder.silent_byte location address).bind fun _ =>
      (decoder.silent_byte location (address + 1)).bind fun _ => silent_pure _
  cases mode with
  | implied => exact silent_pure _
  | absolute | absoluteX | absoluteY => exact (hword _).bind fun _ => silent_pure _
  | immediate | indirectY | relative | zeroPage =>
      exact (decoder.silent_byte location _).bind fun _ => silent_pure _

theorem silent_decode (location : Address) : (decoder.decode location).Silent := by
  refine (decoder.silent_byte location location).bind fun opcode => ?_
  cases Encoding.ofOpcode? opcode with
  | none =>
      show (decoder.unsupported location opcode).Silent
      unfold unsupported
      cases decoder.policy.unsupported with
      | fail => exact silent_ofExcept (.error _)
      | substituteReturn => exact (silent_note (by simp [Event.level])).bind fun _ => silent_pure _
  | some encoding =>
      exact (decoder.silent_operand location encoding.mode).bind fun _ => silent_pure _

theorem silent_body (entry : Address) : (decoder.body entry).Silent := by
  unfold body
  generalize addressCount = unvisited, [entry] = pending, (∅ : AddressSet) = visited
  induction unvisited generalizing pending visited with
  | zero => exact silent_pure visited
  | succ unvisited ih =>
      unfold explore
      split
      · exact silent_pure visited
      · exact (decoder.silent_decode _).bind fun _ => ih _ _

theorem silent_leaders (entry : Address) (body : AddressSet) :
    (decoder.leaders entry body).Silent :=
  silent_foldlM (fun _ address _ => (decoder.silent_decode address).bind fun _ => silent_pure _) _

theorem silent_bodyEnd (entry : Address) (body : AddressSet) :
    (decoder.bodyEnd entry body).Silent := by
  unfold bodyEnd
  cases body.toList.getLast? with
  | none => exact silent_pure _
  | some last =>
      exact ((decoder.silent_decode last).adaptExcept _).bind fun _ => silent_pure _

/-! Lifting by steps -/

section Runs

variable {decoder : Decoder} {platform : Platform} {entry : Address} {journal journal' : Journal}

theorem traces_of_tracedSweep {sites : Sites} {stop steps counter : Nat} {last : Address}
    {frame frame' : Frame} {found : List LoweredStep}
    (hrun : decoder.tracedSweep platform sites entry stop steps counter last frame journal =
      .ok (frame', found) journal') :
    journal'.traces = journal.traces ++ found.map fun step => .lowering step.instruction := by
  induction steps generalizing counter last frame found journal with
  | zero =>
      obtain ⟨_, _, hfall, hsame⟩ := exists_of_bind_ok hrun
      cases hsame
      rw [(silent_ofExcept _).of_ok hfall, List.map_nil, List.append_nil]
  | succ steps ih =>
      unfold tracedSweep at hrun
      split at hrun
      · obtain ⟨instruction, middle, hdecode, hrun⟩ := exists_of_bind_ok hrun
        obtain ⟨_, _, hnote, hrun⟩ := exists_of_bind_ok hrun
        cases hnote
        obtain ⟨⟨_, reached⟩, _, hlower, hrun⟩ := exists_of_bind_ok hrun
        have hstep := (silent_ofExcept _).of_ok hlower
        rw [middle.traces_note_lowering,
          ((decoder.silent_decode _).adaptExcept _).of_ok hdecode] at hstep
        dsimp only at hrun
        split at hrun
        · cases hrun
          exact hstep
        · obtain ⟨swept, _, hrest, hsame⟩ := exists_of_bind_ok hrun
          cases hsame
          rw [ih hrest, hstep, List.append_assoc]
          rfl
      · obtain ⟨_, _, hfall, hsame⟩ := exists_of_bind_ok hrun
        cases hsame
        rw [(silent_ofExcept _).of_ok hfall, List.map_nil, List.append_nil]

theorem traces_of_tracedBlocks {sites : Sites} {routineEnd : Nat}
    {pending : List (Address × Site)} {function function' : Function}
    {blocks : List (List LoweredStep)}
    (hrun : decoder.tracedBlocks platform sites entry routineEnd pending function journal =
      .ok (function', blocks) journal') :
    journal'.traces =
      journal.traces ++ blocks.flatten.map fun step => .lowering step.instruction := by
  induction pending generalizing function blocks journal with
  | nil =>
      cases hrun
      exact (List.append_nil _).symm
  | cons block rest ih =>
      obtain ⟨swept, _, hsweep, hrun⟩ := exists_of_bind_ok hrun
      obtain ⟨others, _, hrest, hsame⟩ := exists_of_bind_ok hrun
      cases hsame
      rw [ih hrest, traces_of_tracedSweep hsweep, List.append_assoc, ← List.map_append,
        List.flatten_cons]

theorem traces_of_tracedRoutine {linkage : Linkage} {function : Function}
    {blocks : List (List LoweredStep)}
    (hrun : decoder.tracedRoutine platform entry linkage journal =
      .ok (function, blocks) journal') :
    journal'.traces =
      journal.traces ++ blocks.flatten.map fun step => .lowering step.instruction := by
  obtain ⟨body, _, hbody, hrun⟩ := exists_of_bind_ok hrun
  obtain ⟨leaders, _, hleaders, hrun⟩ := exists_of_bind_ok hrun
  obtain ⟨opened, _, hopen, hrun⟩ := exists_of_bind_ok hrun
  obtain ⟨started, _, hstart, hrun⟩ := exists_of_bind_ok hrun
  obtain ⟨routineEnd, _, hend, hrun⟩ := exists_of_bind_ok hrun
  obtain ⟨lowered, _, hblocks, hrun⟩ := exists_of_bind_ok hrun
  obtain ⟨_, _, hnote, hrun⟩ := exists_of_bind_ok hrun
  obtain ⟨_, _, hverify, hsame⟩ := exists_of_bind_ok hrun
  cases hsame
  rw [(silent_ofExcept _).of_ok hverify, (silent_note (by simp [Event.level])).of_ok hnote,
    traces_of_tracedBlocks hblocks, (decoder.silent_bodyEnd entry body).of_ok hend,
    (silent_ofExcept _).of_ok hstart, (silent_ofExcept _).of_ok hopen,
    ((decoder.silent_leaders entry body).adaptExcept _).of_ok hleaders,
    ((decoder.silent_body entry).adaptExcept _).of_ok hbody]

end Runs

/-! Listings -/

section Listings

variable {decoder : Decoder} {entry : Address} {body leaders : AddressSet}

theorem disassemble_gives
    (hdecodes : ∀ address ∈ body.toList, ∃ instruction,
      decoder.instruction? address = some instruction) :
    (decoder.disassemble body).Gives (.ok (body.toList.filterMap decoder.instruction?)) := by
  unfold disassemble
  generalize body.toList = addresses at hdecodes
  induction addresses with
  | nil => exact gives_pure []
  | cons address rest ih =>
      obtain ⟨instruction, hinstruction⟩ := hdecodes address List.mem_cons_self
      rw [List.mapM_cons, List.filterMap_cons_some hinstruction]
      refine (decode_gives_of_instruction? hinstruction).bind_ok ?_
      exact (ih fun other hother => hdecodes other (List.mem_cons_of_mem _ hother)).bind_ok
        (gives_pure _)

section Lines

variable {instructions : List Instruction} (hbody : (decoder.body entry).Gives (.ok body))
  (hleaders : (decoder.leaders entry body).Gives (.ok leaders))
  (hinstructions : (decoder.disassemble body).Gives (.ok instructions))

include hbody hleaders hinstructions

theorem listingLines_gives : (decoder.listingLines entry).Gives
    (.ok (s!"{routineName entry}:" :: instructions.map (listingLine leaders))) := by
  refine hbody.bind_ok (hleaders.bind_ok ?_)
  exact hinstructions.bind_ok (gives_pure _)

theorem listing_gives : (decoder.listing entry).Gives (.ok (Lines.join
    (s!"{routineName entry}:" :: instructions.map (listingLine leaders)))) :=
  (listingLines_gives hbody hleaders hinstructions).bind_ok (gives_pure _)

end Lines

/-- Instructions that were decoded are told apart by their locations. -/
theorem filterMap_instruction?_locations {instructions : List Instruction}
    (hdecoded : ∀ instruction ∈ instructions,
      decoder.instruction? instruction.location = some instruction) :
    (instructions.map Instruction.location).filterMap decoder.instruction? = instructions := by
  rw [List.filterMap_map]
  exact (List.filterMap_congr hdecoded).trans List.filterMap_some

theorem map_location_filterMap_instruction? {addresses : List Address}
    (hdecodes : ∀ address ∈ addresses, ∃ instruction,
      decoder.instruction? address = some instruction) :
    (addresses.filterMap decoder.instruction?).map Instruction.location = addresses := by
  induction addresses with
  | nil => rfl
  | cons address rest ih =>
      obtain ⟨instruction, hinstruction⟩ := hdecodes address List.mem_cons_self
      rw [List.filterMap_cons_some hinstruction, List.map_cons,
        (placedAt_of_instruction? hinstruction).location_eq,
        ih fun other hother => hdecodes other (List.mem_cons_of_mem _ hother)]

theorem isPrefixOf_listingLine (leaders : AddressSet) (instruction : Instruction) :
    "-- ".toList.isPrefixOf (listingLine leaders instruction).toList =
      leaders.contains instruction.location := by
  unfold listingLine
  cases leaders.contains instruction.location <;> simp [List.isPrefixOf]

/-- The marked lines of a listing are those of the leaders. -/
theorem Outline.marked_locations {routineEnd : Nat}
    (houtline : decoder.Outline entry body leaders.toList routineEnd)
    {instructions : List Instruction}
    (hlocations : instructions.map Instruction.location = body.toList) :
    (instructions.filter fun instruction =>
      "-- ".toList.isPrefixOf (listingLine leaders instruction).toList).map
        Instruction.location = leaders.toList := by
  have hfilter : (instructions.filter fun instruction =>
      "-- ".toList.isPrefixOf (listingLine leaders instruction).toList).map
        Instruction.location = body.toList.filter leaders.contains := by
    simp only [isPrefixOf_listingLine]
    rw [← hlocations, List.filter_map]
    rfl
  have hbody := (AddressSet.pairwise_lt_toList body).filter leaders.contains
  rw [hfilter]
  refine List.Perm.eq_of_pairwise ?_ hbody houtline.sorted ?_
  · intro first second _ _ hlt hgt
    exact absurd hlt (UInt16.lt_asymm hgt)
  · refine (List.perm_ext_iff_of_nodup (hbody.imp UInt16.ne_of_lt)
      (houtline.sorted.imp UInt16.ne_of_lt)).mpr fun address => ?_
    rw [List.mem_filter, Std.TreeSet.mem_toList, Std.TreeSet.contains_iff_mem,
      Std.TreeSet.mem_toList]
    exact ⟨And.right, fun hleader =>
      ⟨houtline.leader_mem (Std.TreeSet.mem_toList.mpr hleader), hleader⟩⟩

end Listings

/-- The instructions that are lowered while a routine is lifted are those of
its listing, each of them once. They are lowered in the order of the listing
exactly if no instruction that goes on ends past the last address and before
the end of the routine. The marked lines of the listing are those of the
instructions that start the blocks of the function. -/
theorem listing_of_liftRoutine {decoder : Decoder} {platform : Platform} {entry : Address}
    {linkage : Linkage} {journal journal' : Journal} {function : Function}
    (hrun : decoder.liftRoutine platform entry linkage journal = .ok function journal') :
    ∃ body leaders routineEnd instructions lowered,
      (decoder.body entry).outcome journal = .ok body ∧
      (decoder.leaders entry body).outcome journal = .ok leaders ∧
      (decoder.bodyEnd entry body).outcome journal = .ok routineEnd ∧
      (decoder.disassemble body).outcome journal = .ok instructions ∧
      instructions.map Instruction.location = body.toList ∧
      (instructions.Pairwise fun first second => first.location < second.location) ∧
      journal'.traces = journal.traces ++ lowered.map Event.lowering ∧
      lowered.Perm instructions ∧
      (lowered = instructions ↔ ¬decoder.Wraps body routineEnd) ∧
      (decoder.listing entry).outcome journal = .ok (String.join
        ((s!"{routineName entry}:" :: instructions.map (listingLine leaders)).map
          (· ++ "\n"))) ∧
      (instructions.filter fun instruction =>
        "-- ".toList.isPrefixOf (listingLine leaders instruction).toList).map
          Instruction.location = leaders.toList ∧
      function.blocks.toList.map Block.label =
        "start" :: leaders.toList.map fun leader => s!"l_{Hex.word leader}" := by
  obtain ⟨body, leaders, routineEnd, draft, blocks, hlifted, rfl, htraced⟩ :=
    exists_lifted_of_liftRoutine hrun
  have hdecodes : ∀ address ∈ body.toList, ∃ instruction,
      decoder.instruction? address = some instruction := fun address haddress =>
    hlifted.outline.isBody.decodes address (Std.TreeSet.mem_toList.mp haddress)
  have hinstructions := disassemble_gives hdecodes
  have hlocations := map_location_filterMap_instruction? hdecodes
  have hlowered := filterMap_instruction?_locations fun _ => hlifted.decoded_of_mem
  have horder := hlifted.outline.locations_eq_iff hlifted.closed hlifted.divides
  rw [← List.map_flatten] at horder
  refine ⟨body, leaders, routineEnd, body.toList.filterMap decoder.instruction?,
    blocks.flatten.map LoweredStep.instruction, hlifted.body_gives journal,
    hlifted.leaders_gives journal, hlifted.end_gives journal, hinstructions journal, hlocations,
    ?_, ?_, ?_, ?_, listing_gives hlifted.body_gives hlifted.leaders_gives hinstructions journal,
    hlifted.outline.marked_locations hlocations, hlifted.flows.labels⟩
  · have hascending := AddressSet.pairwise_lt_toList body
    rwa [← hlocations, List.pairwise_map] at hascending
  · rw [List.map_map]
    exact traces_of_tracedRoutine htraced
  · rw [← hlowered]
    exact hlifted.perm_locations.filterMap decoder.instruction?
  · rw [← horder]
    constructor
    · intro heq
      rw [heq, hlocations]
    · intro heq
      rw [← hlowered, heq]

theorem listing_tally : ∃ function journal' leaders, ∃ instructions : List Instruction,
    tally.liftRoutine .nes 0x8000 .external {} = .ok function journal' ∧
    journal'.traces = instructions.map Event.lowering ∧
    instructions.map Instruction.location = [0x8000, 0x8002, 0x8005, 0x8006, 0x8008] ∧
    (tally.listing 0x8000).outcome {} = .ok (String.join
      (("f_8000:" :: instructions.map (listingLine leaders)).map (· ++ "\n"))) ∧
    leaders.toList = [0x8000, 0x8002, 0x8008] ∧
    function.blocks.toList.map Block.label = ["start", "l_8000", "l_8002", "l_8008"] := by
  obtain ⟨function, journal', hrun⟩ := exists_liftRoutine_tally
  obtain ⟨body, leaders, routineEnd, instructions, lowered, hbody, hleaders, hend, _, hlocations,
    _, htraces, _, horder, hlisting, _, hlabels⟩ := listing_of_liftRoutine hrun
  have hlists : (((tally.body 0x8000).outcome {}).bind fun body =>
      ((tally.leaders 0x8000 body).outcome {}).map fun leaders =>
        (body.toList, leaders.toList)) =
      .ok ([0x8000, 0x8002, 0x8005, 0x8006, 0x8008], [0x8000, 0x8002, 0x8008]) := by
    decide +kernel
  have hlast : (((tally.body 0x8000).outcome {}).toOption.bind fun body =>
      ((tally.bodyEnd 0x8000 body).outcome {}).toOption) = some 0x8009 := by
    decide +kernel
  rw [hbody, Except.bind, hleaders, Except.map, Except.ok.injEq, Prod.mk.injEq] at hlists
  rw [hbody, Except.toOption, Option.bind_some, hend] at hlast
  cases hlast
  have hstays : ¬tally.Wraps body 0x8009 := by
    rintro ⟨_, _, _, _, _, hpast, hbefore⟩
    omega
  rw [horder.mpr hstays] at htraces
  rw [hlists.2] at hlabels
  exact ⟨function, journal', leaders, instructions, hrun, htraces, hlocations.trans hlists.1,
    hlisting, hlists.2, hlabels.trans (by decide +kernel)⟩

end Decoder

end Lift6502
