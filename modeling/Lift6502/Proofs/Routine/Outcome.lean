import Lift6502.Proofs.Routine.Verification

/-! When a routine is lifted, and which error says why it is not. -/

namespace Lift6502.Decoder

open Ssa Session

variable {decoder : Decoder} {platform : Platform} {entry : Address} {linkage : Linkage}
  {body : AddressSet}

theorem IsBody.bodyEnd_gives (hbody : decoder.IsBody entry body) :
    ∃ routineEnd, (decoder.bodyEnd entry body).Gives (.ok routineEnd) ∧
      ∃ highest instruction, highest ∈ body ∧ (∀ address ∈ body, address ≤ highest) ∧
        decoder.instruction? highest = some instruction ∧
        routineEnd = highest.toNat + instruction.length := by
  obtain ⟨highest, hlast, hmem, hle⟩ := AddressSet.exists_getLast? hbody.entry_mem
  obtain ⟨instruction, hdecoded⟩ := hbody.decodes highest hmem
  refine ⟨highest.toNat + instruction.length, ?_, highest, instruction, hmem, hle, hdecoded, rfl⟩
  unfold bodyEnd
  rw [hlast]
  exact (decodeToLift_gives hdecoded).bind_ok (gives_pure _)

theorem goTo_opened (linkage : Linkage) {leaders : List Address} {position : Nat}
    (hsorted : leaders.Pairwise fun first second => first < second)
    (hentry : leaders[position]? = some entry) :
    Lowering.goTo (Draft.sites leaders) entry entry
        { function := (Draft.laidOut entry linkage leaders).function
          block := ⟨0⟩
          registers := parameters } =
      .ok ((), ⟨(Draft.opened entry linkage leaders position).function, ⟨0⟩, seeds ⟨0⟩⟩) := by
  have hframe : ({ function := (Draft.laidOut entry linkage leaders).function
                   block := ⟨0⟩
                   registers := parameters } : Frame) =
      (Draft.laidOut entry linkage leaders).frame [] (seeds ⟨0⟩) := by
    rw [Draft.frame_nil]
    rfl
  have hblock : (Draft.laidOut entry linkage leaders).pieces.length <
      (Draft.laidOut entry linkage leaders).leaders.length + 1 := Nat.succ_pos _
  have hsorted' : (Draft.laidOut entry linkage leaders).leaders.Pairwise
      fun first second => first < second := hsorted
  rw [hframe]
  exact Draft.goTo_frame hsorted' entry hblock hentry

theorem IsBody.exists_outline (hbody : decoder.IsBody entry body) :
    ∃ leaders routineEnd, (decoder.leaders entry body).Gives (.ok leaders) ∧
      (decoder.bodyEnd entry body).Gives (.ok routineEnd) ∧
      decoder.Outline entry body leaders.toList routineEnd := by
  obtain ⟨leaders, hleaders, hmem⟩ := hbody.leaders_gives
  obtain ⟨routineEnd, hrun, hend⟩ := hbody.bodyEnd_gives
  refine ⟨leaders, routineEnd, hleaders, hrun, ?_⟩
  exact
    { isBody := hbody
      sorted := AddressSet.pairwise_lt_toList leaders
      mem_iff := fun leader => Std.TreeSet.mem_toList.trans (hmem leader)
      isEnd := hend }

/-! Before the first block and behind the last -/

/-- What is done before the first block: its sites, the end of the routine and
the function that hands the parameters on. -/
def prepared (decoder : Decoder) (entry : Address) (linkage : Linkage) :
    Session LiftError (Sites × Nat × Function) := do
  let body ← (decoder.body entry).adaptExcept .decode
  let leaders ← (decoder.leaders entry body).adaptExcept .decode
  let signature := Register.all.map fun register => (register.name, register.type)
  let function := Function.declare (routineName entry) linkage signature .regs
  let ((start, sites), function) ← Session.ofBuilder (layOut leaders) function
  let (_, frame) ← Session.ofExcept (Lowering.goTo sites entry entry
    { function, block := start, registers := parameters })
  let routineEnd ← decoder.bodyEnd entry body
  return (sites, routineEnd, frame.function)

def assembled (function : Function) : Session LiftError Function := do
  Session.note (.assembled function.name function.blocks.size)
  Session.ofExcept (function.verify.mapError .ofVerifyError)
  return function

theorem liftRoutine_eq (decoder : Decoder) (platform : Platform) (entry : Address)
    (linkage : Linkage) :
    decoder.liftRoutine platform entry linkage =
      decoder.prepared entry linkage >>= fun (sites, routineEnd, function) =>
        decoder.lowerBlocks platform sites entry routineEnd sites.toList function >>=
          assembled := by
  unfold prepared liftRoutine
  simp only [bind_assoc, pure_bind]
  rfl

theorem Outline.prepared_gives {leaders : AddressSet} {routineEnd : Nat}
    (houtline : decoder.Outline entry body leaders.toList routineEnd)
    (hbody : (decoder.body entry).Gives (.ok body))
    (hleaders : (decoder.leaders entry body).Gives (.ok leaders))
    (hend : (decoder.bodyEnd entry body).Gives (.ok routineEnd)) (linkage : Linkage) :
    ∃ position, leaders.toList[position]? = some entry ∧
      (decoder.prepared entry linkage).Gives (.ok (Draft.sites leaders.toList, routineEnd,
        (Draft.opened entry linkage leaders.toList position).function)) := by
  obtain ⟨position, hentry⟩ := List.mem_iff_getElem?.mp
    ((houtline.mem_iff entry).mpr (.inl rfl))
  refine ⟨position, hentry, ?_⟩
  unfold prepared
  refine (hbody.adaptExcept LiftError.decode).bind_ok ?_
  refine (hleaders.adaptExcept LiftError.decode).bind_ok ?_
  unfold Session.ofBuilder
  simp only [Draft.layOut_eq]
  refine (gives_ofExcept _).bind_ok ?_
  simp only [goTo_opened linkage houtline.sorted hentry]
  refine (gives_ofExcept _).bind_ok ?_
  exact hend.bind_ok (gives_pure _)

/-- Lifting a routine whose body is found gives the function of a complete
draft if every block closes, and otherwise blames an instruction. -/
theorem IsBody.liftRoutine_gives (hbody : decoder.IsBody entry body)
    (hfound : (decoder.body entry).Gives (.ok body)) (platform : Platform) (linkage : Linkage) :
    ∃ leaders routineEnd, (decoder.leaders entry body).Gives (.ok leaders) ∧
      (decoder.bodyEnd entry body).Gives (.ok routineEnd) ∧
      decoder.Outline entry body leaders.toList routineEnd ∧
      ((∃ draft, (decoder.liftRoutine platform entry linkage).Gives (.ok draft.function) ∧
          Draft.Built decoder platform entry linkage leaders.toList draft ∧
          draft.pieces.length = leaders.toList.length + 1 ∧
          decoder.Closed leaders.toList routineEnd) ∨
        ∃ error, (decoder.liftRoutine platform entry linkage).Gives (.error error) ∧
          decoder.Blames entry body leaders.toList error ∧
          ¬decoder.Closed leaders.toList routineEnd) := by
  obtain ⟨leaders, routineEnd, hleaders, hend, houtline⟩ := hbody.exists_outline
  refine ⟨leaders, routineEnd, hleaders, hend, houtline, ?_⟩
  obtain ⟨position, hentry, hprepared⟩ := houtline.prepared_gives hfound hleaders hend linkage
  have hopened : Draft.Built decoder platform entry linkage leaders.toList
      (Draft.opened entry linkage leaders.toList position) := .start hentry
  have hfirst : (Draft.opened entry linkage leaders.toList position).pieces.length = 0 + 1 := rfl
  obtain ⟨lowered, hlowered, houtcome⟩ := houtline.lowerBlocks_gives hopened hfirst
    List.drop_zero (Nat.zero_le _) fun before earlier hbefore => absurd hbefore (Nat.not_lt_zero _)
  rw [← Draft.toList_sites houtline.sorted] at hlowered
  rw [liftRoutine_eq]
  rcases houtcome with ⟨draft, rfl, hbuilt, hcomplete, hclosed⟩ | ⟨error, rfl, hblames, hopen⟩
  · refine .inl ⟨draft, hprepared.bind_ok (hlowered.bind_ok ?_), hbuilt, hcomplete, hclosed⟩
    refine (gives_note _).bind_ok ?_
    rw [hbuilt.verify_eq_ok (by rw [hbuilt.extends.2.2.1]; exact hcomplete)]
    exact (gives_ofExcept _).bind_ok (gives_pure _)
  · exact .inr ⟨error, hprepared.bind_ok hlowered.bind_error, hblames, hopen⟩

theorem liftRoutine_gives_of_body_error {error : DecodeError}
    (hfails : (decoder.body entry).Gives (.error error)) (platform : Platform)
    (linkage : Linkage) :
    (decoder.liftRoutine platform entry linkage).Gives (.error (.decode error)) :=
  (hfails.adaptExcept LiftError.decode).bind_error

theorem exists_closed_of_liftRoutine {journal journal' : Journal} {function : Function}
    (hrun : decoder.liftRoutine platform entry linkage journal = .ok function journal') :
    ∃ body leaders routineEnd draft, (decoder.body entry).Gives (.ok body) ∧
      (decoder.leaders entry body).Gives (.ok leaders) ∧
      (decoder.bodyEnd entry body).Gives (.ok routineEnd) ∧
      decoder.Outline entry body leaders.toList routineEnd ∧
      decoder.Closed leaders.toList routineEnd ∧
      Draft.Built decoder platform entry linkage leaders.toList draft ∧
      draft.pieces.length = draft.leaders.length + 1 ∧ function = draft.function := by
  have hgives := (body_steady decoder entry).of_outcome
  cases hresult : (decoder.body entry).outcome {} with
  | error error =>
      rw [hresult] at hgives
      exact nomatch (liftRoutine_gives_of_body_error hgives platform linkage).of_ok hrun
  | ok body =>
      rw [hresult] at hgives
      obtain ⟨_, hbody⟩ := outcome_eq_ok_iff.mp hresult
      obtain ⟨leaders, routineEnd, hleaders, hend, houtline, houtcome⟩ :=
        (isBody_of_body hbody).liftRoutine_gives hgives platform linkage
      rcases houtcome with ⟨draft, hlifted, hbuilt, hcomplete, hclosed⟩ | ⟨error, hlifted, _⟩
      · refine ⟨body, leaders, routineEnd, draft, hgives, hleaders, hend, houtline, hclosed,
          hbuilt, ?_, ?_⟩
        · rw [hbuilt.extends.2.2.1]
          exact hcomplete
        · exact (Except.ok.inj (hlifted.of_ok hrun)).symm
      · exact nomatch hlifted.of_ok hrun

theorem exists_built_of_liftRoutine {journal journal' : Journal} {function : Function}
    (hrun : decoder.liftRoutine platform entry linkage journal = .ok function journal') :
    ∃ body leaders routineEnd draft, decoder.Outline entry body leaders routineEnd ∧
      Draft.Built decoder platform entry linkage leaders draft ∧
      draft.pieces.length = draft.leaders.length + 1 ∧ function = draft.function := by
  obtain ⟨body, leaders, routineEnd, draft, _, _, _, houtline, _, hbuilt, hcomplete, hfunction⟩ :=
    exists_closed_of_liftRoutine hrun
  exact ⟨body, leaders.toList, routineEnd, draft, houtline, hbuilt, hcomplete, hfunction⟩

/-- A routine is lifted if and only if its body can be decoded and no
instruction that goes on runs past the last address or over the start of a
block; or one does run past the last address, but not past the end of the
routine, and every block closes all the same. Any error is that of decoding
the body, or it names an instruction that runs out or over. -/
theorem liftRoutine_outcome (decoder : Decoder) (platform : Platform) (entry : Address)
    (linkage : Linkage) (journal : Journal) :
    match (decoder.body entry).outcome journal with
    | .error error =>
        (decoder.liftRoutine platform entry linkage).outcome journal = .error (.decode error)
    | .ok body => ∃ leaders routineEnd,
        (decoder.leaders entry body).outcome journal = .ok leaders ∧
        (decoder.bodyEnd entry body).outcome journal = .ok routineEnd ∧
        ((∃ function,
            (decoder.liftRoutine platform entry linkage).outcome journal = .ok function) ↔
          decoder.Separate body leaders.toList ∨
            decoder.Wraps body routineEnd ∧ decoder.Closed leaders.toList routineEnd) ∧
        ∀ error, (decoder.liftRoutine platform entry linkage).outcome journal = .error error →
          decoder.Blames entry body leaders.toList error := by
  have hgives := (body_steady decoder entry).of_outcome
  rw [hgives journal]
  cases hresult : (decoder.body entry).outcome {} with
  | error error =>
      rw [hresult] at hgives
      exact liftRoutine_gives_of_body_error hgives platform linkage journal
  | ok body =>
      rw [hresult] at hgives
      obtain ⟨journal', hrun⟩ := outcome_eq_ok_iff.mp hresult
      obtain ⟨leaders, routineEnd, hleaders, hend, houtline, houtcome⟩ :=
        (isBody_of_body hrun).liftRoutine_gives hgives platform linkage
      have hclosed_iff : decoder.Closed leaders.toList routineEnd ↔
          decoder.Separate body leaders.toList ∨
            decoder.Wraps body routineEnd ∧ decoder.Closed leaders.toList routineEnd := by
        constructor
        · intro hclosed
          exact (houtline.separate_or_wraps_of_closed hclosed).imp id fun hwraps =>
            ⟨hwraps, hclosed⟩
        · rintro (hseparate | ⟨_, hclosed⟩)
          · exact houtline.closed_of_separate hseparate
          · exact hclosed
      refine ⟨leaders, routineEnd, hleaders journal, hend journal, ?_⟩
      rw [← hclosed_iff]
      rcases houtcome with ⟨draft, hlifted, _, _, hclosed⟩ | ⟨error, hlifted, hblames, hopen⟩
      · rw [hlifted journal]
        exact ⟨⟨fun _ => hclosed, fun _ => ⟨_, rfl⟩⟩, fun error herror => nomatch herror⟩
      · rw [hlifted journal]
        refine ⟨⟨fun ⟨_, hok⟩ => (nomatch hok), fun hclosed => absurd hclosed hopen⟩, ?_⟩
        rintro _ ⟨⟩
        exact hblames

end Lift6502.Decoder
