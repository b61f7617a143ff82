import Lift6502.Proofs.Routine.Sweeps

/-! Instructions and the starts of blocks. A block fails to close only if an
instruction runs past the last address or over the start of another block.
The converse has one exception: the last block can go on past the last address
while its counter is still below the end of the routine. -/

namespace Lift6502.Decoder

variable {decoder : Decoder} {entry : Address} {body : AddressSet} {leaders : List Address}
  {routineEnd : Nat}

/-- The instruction at an address of the body goes on to an address past the
last one. -/
def RunsOut (decoder : Decoder) (body : AddressSet) (location : Address) : Prop :=
  location ∈ body ∧ ∃ instruction, decoder.instruction? location = some instruction ∧
    instruction.transfers = false ∧ 0xFFFF < location.toNat + instruction.length

/-- The instruction at an address of the body goes on past the start of a
block. -/
def RunsOver (decoder : Decoder) (body : AddressSet) (leaders : List Address)
    (location leader : Address) : Prop :=
  location ∈ body ∧ leader ∈ leaders ∧
    ∃ instruction, decoder.instruction? location = some instruction ∧
      instruction.transfers = false ∧ location < leader ∧
      leader.toNat < location.toNat + instruction.length

/-- Instructions that go on stay within the addresses and within their
blocks. -/
def Separate (decoder : Decoder) (body : AddressSet) (leaders : List Address) : Prop :=
  ∀ location ∈ body, ∀ instruction, decoder.instruction? location = some instruction →
    instruction.transfers = false →
      location.toNat + instruction.length ≤ 0xFFFF ∧
      ∀ leader ∈ leaders,
        ¬(location < leader ∧ leader.toNat < location.toNat + instruction.length)

/-- An instruction goes on past the last address, but not past the end of the
routine. -/
def Wraps (decoder : Decoder) (body : AddressSet) (routineEnd : Nat) : Prop :=
  ∃ location ∈ body, ∃ instruction, decoder.instruction? location = some instruction ∧
    instruction.transfers = false ∧ 0xFFFF < location.toNat + instruction.length ∧
    location.toNat + instruction.length < routineEnd

def Closed (decoder : Decoder) (leaders : List Address) (routineEnd : Nat) : Prop :=
  ∀ position leader, leaders[position]? = some leader →
    decoder.Closes (stopAt leaders routineEnd position) leader

/-! Sweeps that fall out of their block -/

theorem Sweeps.ne_nil {stop counter final : Nat} {last lastFinal : Address}
    {instructions : List Instruction}
    (hsweeps : decoder.Sweeps stop counter last instructions final lastFinal)
    (hmoved : counter ≠ final) : instructions ≠ [] := by
  rintro rfl
  cases hsweeps
  exact hmoved rfl

theorem IsBody.last_passed (hbody : decoder.IsBody entry body) {stop counter final : Nat}
    {last lastFinal : Address} {instructions : List Instruction}
    (hsweeps : decoder.Sweeps stop counter last instructions final lastFinal)
    (hcounter : UInt16.ofNat counter ∈ body) (hmoved : counter ≠ final) :
    lastFinal ∈ body ∧ ∃ instruction, decoder.instruction? lastFinal = some instruction ∧
      instruction.transfers = false ∧ final = lastFinal.toNat + instruction.length ∧
      (stop ≤ addressCount → lastFinal.toNat < stop) := by
  obtain ⟨instruction, hmem, rfl, hfinal⟩ := hsweeps.last_passed (hsweeps.ne_nil hmoved)
  obtain ⟨front, back, middle, lastMiddle, hfront, hbefore, hdecoded, hstraight, _⟩ :=
    hsweeps.split_of_mem hmem
  have hlocation := (placedAt_of_instruction? hdecoded).location_eq
  rw [hlocation]
  refine ⟨hbody.mem_of_sweeps hfront hcounter, instruction, hdecoded, hstraight, ?_, ?_⟩
  · rw [← hlocation]
    exact hfinal
  · intro hstop
    rw [UInt16.toNat_ofNat_of_lt' (Nat.lt_of_lt_of_le hbefore hstop)]
    exact hbefore

theorem IsBody.sweeps_le (hbody : decoder.IsBody entry body) {stop counter final : Nat}
    {last lastFinal : Address} {instructions : List Instruction}
    (hsweeps : decoder.Sweeps stop counter last instructions final lastFinal)
    (hcounter : UInt16.ofNat counter ∈ body) (hstart : counter ≤ 0xFFFF) (hbefore : final < stop)
    (hstays : ∀ location ∈ body, ∀ instruction,
      decoder.instruction? location = some instruction → instruction.transfers = false →
      location.toNat + instruction.length < stop →
      location.toNat + instruction.length ≤ 0xFFFF) :
    counter ≤ final ∧ final ≤ 0xFFFF := by
  induction hsweeps with
  | nil counter last => exact ⟨Nat.le_refl _, hstart⟩
  | cons hlt hdecoded hstraight hrest ih =>
      rename_i counter final last lastFinal instruction rest
      have hlocation := (placedAt_of_instruction? hdecoded).location_eq
      have htoNat : instruction.location.toNat = counter := by
        rw [hlocation]
        exact UInt16.toNat_ofNat_of_lt' (Nat.lt_succ_of_le hstart)
      have hnext : instruction.location.toNat + instruction.length < stop := by
        cases hrest with
        | nil => exact hbefore
        | cons hnext => exact hnext
      have hmem : UInt16.ofNat (instruction.location.toNat + instruction.length) ∈ body := by
        rw [instruction.ofNat_counter]
        exact hbody.following_mem hcounter hdecoded hstraight
      have hwithin := hstays _ hcounter instruction hdecoded hstraight (hlocation ▸ hnext)
      rw [← hlocation] at hwithin
      obtain ⟨hle, hfinal⟩ := ih hmem hwithin hbefore
      exact ⟨by omega, hfinal⟩

theorem Passes.exists_sweep {address highest : Address} {instruction : Instruction}
    {route : List Instruction} (hpasses : decoder.Passes address route highest)
    (hdecoded : decoder.instruction? highest = some instruction)
    (hend : routineEnd = highest.toNat + instruction.length) (counter : Nat) (last : Address)
    (hcounter : UInt16.ofNat counter = address) :
    ∃ instructions final lastFinal,
      decoder.Sweeps routineEnd counter last instructions final lastFinal ∧
      decoder.Halts routineEnd final ∧ instructions.length ≤ route.length + 1 ∧
      (final < routineEnd → instructions.length ≤ route.length) := by
  -- Along a route to the highest instruction the sweep over the last block comes to an end, as
  -- the end of the routine is the end of that instruction.
  by_cases hbefore : counter < routineEnd
  swap
  · exact ⟨[], counter, last, .nil _ _, fun hlt => absurd hlt hbefore, Nat.zero_le _,
      fun _ => Nat.zero_le _⟩
  induction hpasses generalizing counter last with
  | nil address =>
      rw [← hcounter] at hdecoded
      cases htransfers : instruction.transfers with
      | true =>
          exact ⟨[], counter, last, .nil _ _, fun _ => ⟨instruction, hdecoded, htransfers⟩,
            Nat.zero_le _, fun _ => Nat.zero_le _⟩
      | false =>
          have hlocation := (placedAt_of_instruction? hdecoded).location_eq
          have hfinal : instruction.location.toNat + instruction.length = routineEnd := by
            rw [hlocation, hcounter, hend]
          refine ⟨[instruction], _, _, .cons hbefore hdecoded htransfers (.nil _ _), ?_,
            Nat.le_refl _, ?_⟩
          · intro hlt
            omega
          · intro hlt
            omega
  | cons hnext hstraight hrest ih =>
      rename_i address highest next rest
      rw [← hcounter] at hnext
      have hfollowing := next.ofNat_counter
      by_cases hwithin : next.location.toNat + next.length < routineEnd
      · obtain ⟨instructions, final, lastFinal, hsweeps, hhalts, hlength, hshort⟩ :=
          ih hdecoded hend _ next.location hfollowing hwithin
        refine ⟨next :: instructions, final, lastFinal, .cons hbefore hnext hstraight hsweeps,
          hhalts, Nat.succ_le_succ hlength, fun hlt => Nat.succ_le_succ (hshort hlt)⟩
      · refine ⟨[next], _, _, .cons hbefore hnext hstraight (.nil _ _), ?_, ?_, ?_⟩
        · intro hlt
          exact absurd hlt hwithin
        · exact Nat.succ_le_succ (Nat.zero_le _)
        · intro hlt
          exact absurd hlt hwithin

namespace Outline

variable (houtline : decoder.Outline entry body leaders routineEnd)

include houtline

theorem le_of_mem {address : Address} (haddress : address ∈ body) :
    address.toNat < routineEnd := by
  obtain ⟨highest, instruction, _, hle, _, rfl⟩ := houtline.isEnd
  have hbound : address.toNat ≤ highest.toNat := hle address haddress
  have hlength := instruction.length_pos
  omega

theorem past_last_address {counter final : Nat} {last lastFinal : Address}
    {instructions : List Instruction}
    (hsweeps : decoder.Sweeps routineEnd counter last instructions final lastFinal)
    (hcounter : UInt16.ofNat counter ∈ body) (hout : routineEnd ≤ final) : 0xFFFF < final := by
  -- A sweep that falls out of the last block has passed the last address, since the body is
  -- closed and no address of it is as high as the end.
  by_contra hwithin
  have hbound := houtline.le_of_mem (houtline.isBody.mem_of_sweeps hsweeps hcounter)
  rw [UInt16.toNat_ofNat_of_lt' (show final < 65536 by omega)] at hbound
  omega

/-- A sweep that falls out of a block ends exactly where the next block
starts, or an instruction has run out or over that start. -/
theorem of_falls_out {position : Nat} {leader : Address} {final : Nat} {lastFinal : Address}
    {instructions : List Instruction} (hleader : leaders[position]? = some leader)
    (hsweeps : decoder.Sweeps (stopAt leaders routineEnd position) leader.toNat leader
      instructions final lastFinal)
    (hout : stopAt leaders routineEnd position ≤ final) :
    0xFFFF < final ∧ decoder.RunsOut body lastFinal ∨
      final ≤ 0xFFFF ∧ ∃ next ∈ leaders, stopAt leaders routineEnd position = next.toNat ∧
        (final = next.toNat ∨
          final ≠ next.toNat ∧ decoder.RunsOver body leaders lastFinal next) := by
  have hcounter : UInt16.ofNat leader.toNat ∈ body := by
    rw [UInt16.ofNat_toNat]
    exact houtline.leader_mem (List.mem_of_getElem? hleader)
  have hstart := houtline.leader_lt_stop hleader
  obtain ⟨hmem, instruction, hdecoded, hstraight, hfinal, hbefore⟩ :=
    houtline.isBody.last_passed hsweeps hcounter (by omega)
  by_cases hpast : 0xFFFF < final
  · exact .inl ⟨hpast, hmem, instruction, hdecoded, hstraight, hfinal ▸ hpast⟩
  refine .inr ⟨Nat.le_of_not_lt hpast, ?_⟩
  by_cases hlast : position + 1 < leaders.length
  · obtain ⟨next, hnext, hstop⟩ := stopAt_eq hlast
    rw [hstop] at hout hbefore
    refine ⟨next, List.mem_of_getElem? hnext, hstop, ?_⟩
    by_cases hexact : final = next.toNat
    · exact .inl hexact
    · refine .inr ⟨hexact, hmem, List.mem_of_getElem? hnext, instruction, hdecoded, hstraight,
        hbefore (Nat.le_of_lt next.toNat_lt), ?_⟩
      omega
  · rw [stopAt_last hlast] at hsweeps hout
    exact absurd (houtline.past_last_address hsweeps hcounter hout) hpast

/-! Existence of sweeps -/

theorem passes_highest {count : Nat} {leader highest : Address}
    (hcount : leaders.length = count + 1) (hleader : leaders[count]? = some leader)
    (hcloses : ∀ position earlier, position < count → leaders[position]? = some earlier →
      decoder.Closes (stopAt leaders routineEnd position) earlier)
    (hmem : highest ∈ body) (hle : ∀ address ∈ body, address ≤ highest) :
    ∃ route, decoder.Passes leader route highest := by
  -- If the blocks before the last one close, the highest instruction is passed from the last
  -- leader, since an earlier block ends below it.
  rcases houtline.covered hcount hcloses hmem with
    ⟨position, earlier, hposition, hearlier, hvisits⟩ | ⟨last, route, hlast, hpasses⟩
  · obtain ⟨_, middle, _, _, hbefore, rfl⟩ := hvisits
    obtain ⟨next, hnext, hstop⟩ := stopAt_eq (show position + 1 < leaders.length by omega)
    rw [hstop] at hbefore
    have hbound : next.toNat ≤ (UInt16.ofNat middle).toNat :=
      hle next (houtline.leader_mem (List.mem_of_getElem? hnext))
    have hsmall := next.toNat_lt
    rw [UInt16.toNat_ofNat_of_lt' (show middle < 65536 by omega)] at hbound
    omega
  · cases hleader.symm.trans hlast
    exact ⟨route, hpasses⟩

/-- If the blocks before it close, the sweep over a block comes to an end
within as many steps as there are addresses. -/
theorem exists_sweep {position : Nat} {leader : Address}
    (hleader : leaders[position]? = some leader)
    (hcloses : ∀ before earlier, before < position → leaders[before]? = some earlier →
      decoder.Closes (stopAt leaders routineEnd before) earlier) :
    ∃ instructions final lastFinal,
      decoder.Sweeps (stopAt leaders routineEnd position) leader.toNat leader instructions
        final lastFinal ∧
      decoder.Halts (stopAt leaders routineEnd position) final ∧
      instructions.length ≤ addressCount ∧
      (final < stopAt leaders routineEnd position → instructions.length < addressCount) := by
  have hcounter : UInt16.ofNat leader.toNat = leader := UInt16.ofNat_toNat
  have hposition := (List.getElem?_eq_some_iff.mp hleader).1
  by_cases hlast : position + 1 < leaders.length
  · obtain ⟨next, _, hstop⟩ := stopAt_eq hlast
    have hsmall : next.toNat < addressCount := next.toNat_lt
    obtain ⟨instructions, final, lastFinal, hsweeps, hhalts, hlength⟩ :=
      houtline.isBody.exists_sweep next.toNat (Nat.le_of_lt hsmall) leader.toNat leader
        (hcounter.symm ▸ houtline.leader_mem (List.mem_of_getElem? hleader))
    rw [hstop]
    refine ⟨instructions, final, lastFinal, hsweeps, hhalts, ?_, ?_⟩
    · omega
    · omega
  · have hcount : leaders.length = position + 1 := by omega
    obtain ⟨highest, instruction, hmem, hle, hdecoded, hend⟩ := houtline.isEnd
    obtain ⟨route, hroute⟩ := houtline.passes_highest hcount hleader hcloses hmem hle
    obtain ⟨shorter, hshorter, hbound⟩ := hroute.exists_short
    obtain ⟨instructions, final, lastFinal, hsweeps, hhalts, hlength, hshort⟩ :=
      hshorter.exists_sweep hdecoded hend leader.toNat leader hcounter
    rw [stopAt_last hlast]
    refine ⟨instructions, final, lastFinal, hsweeps, hhalts, ?_, ?_⟩
    · omega
    · intro hlt
      exact Nat.lt_of_le_of_lt (hshort hlt) hbound

/-! When every block closes -/

theorem closed_of_separate (hseparate : decoder.Separate body leaders) :
    decoder.Closed leaders routineEnd := by
  intro position
  induction position using Nat.strongRecOn with
  | ind position ih =>
      intro leader hleader
      obtain ⟨instructions, final, lastFinal, hsweeps, hhalts, _⟩ :=
        houtline.exists_sweep hleader fun before earlier hbefore => ih before hbefore earlier
      refine ⟨instructions, final, lastFinal, hsweeps, hhalts, ?_⟩
      by_cases hwithin : final < stopAt leaders routineEnd position
      · exact .inl hwithin
      · rcases houtline.of_falls_out hleader hsweeps (Nat.le_of_not_lt hwithin) with
          ⟨_, hmem, instruction, hdecoded, hstraight, hpast⟩ |
          ⟨hfinal, next, _, hstop, hexact | ⟨_, hmem, hnext, instruction, hdecoded, hstraight,
            hlow, hhigh⟩⟩
        · have hbound := (hseparate _ hmem instruction hdecoded hstraight).1
          omega
        · rw [hstop]
          exact .inr ⟨hexact, Nat.le_of_lt_succ next.toNat_lt⟩
        · exact absurd ⟨hlow, hhigh⟩
            ((hseparate _ hmem instruction hdecoded hstraight).2 next hnext)

theorem step_of_last {count : Nat} {leader address : Address} {instruction : Instruction}
    (hlast : ¬count + 1 < leaders.length)
    (hcloses : decoder.Closes (stopAt leaders routineEnd count) leader)
    (haddress : address ∈ body)
    (hvisits : decoder.Visits (stopAt leaders routineEnd count) leader address)
    (hdecoded : decoder.instruction? address = some instruction)
    (hstraight : instruction.transfers = false) :
    instruction.location.toNat + instruction.length < routineEnd ∧
      decoder.Visits (stopAt leaders routineEnd count) leader instruction.following := by
  -- The last block does not come to its end at an instruction that goes on, since the following
  -- address would be in the body and past its end.
  rcases hvisits.step hdecoded hstraight hcloses with ⟨hbefore, hnext⟩ | ⟨hstop, hwithin⟩
  · rw [stopAt_last hlast] at hbefore
    exact ⟨hbefore, hnext⟩
  · have hbound := houtline.le_of_mem (houtline.isBody.following_mem haddress hdecoded hstraight)
    rw [stopAt_last hlast] at hstop hwithin
    rw [← instruction.ofNat_counter, hstop,
      UInt16.toNat_ofNat_of_lt' (Nat.lt_succ_of_le hwithin)] at hbound
    exact absurd hbound (Nat.lt_irrefl _)

theorem visits_of_passes {count : Nat} {leader address final : Address}
    {route : List Instruction} (hlast : ¬count + 1 < leaders.length)
    (hcloses : decoder.Closes (stopAt leaders routineEnd count) leader)
    (hpasses : decoder.Passes address route final) (haddress : address ∈ body)
    (hvisits : decoder.Visits (stopAt leaders routineEnd count) leader address) :
    decoder.Visits (stopAt leaders routineEnd count) leader final := by
  induction hpasses with
  | nil address => exact hvisits
  | cons hdecoded hstraight hrest ih =>
      exact ih (houtline.isBody.following_mem haddress hdecoded hstraight)
        (houtline.step_of_last hlast hcloses haddress hvisits hdecoded hstraight).2

theorem exists_visits (hclosed : decoder.Closed leaders routineEnd) {address : Address}
    (haddress : address ∈ body) :
    ∃ position leader, leaders[position]? = some leader ∧
      decoder.Visits (stopAt leaders routineEnd position) leader address := by
  have hentry : entry ∈ leaders := (houtline.mem_iff entry).mpr (.inl rfl)
  obtain ⟨count, hcount⟩ := Nat.exists_eq_add_one.mpr (List.length_pos_of_mem hentry)
  rcases houtline.covered hcount (fun position leader _ => hclosed position leader) haddress with
    ⟨position, leader, _, hleader, hvisits⟩ | ⟨leader, route, hleader, hpasses⟩
  · exact ⟨position, leader, hleader, hvisits⟩
  · have hlast : ¬count + 1 < leaders.length := by omega
    exact ⟨count, leader, hleader, houtline.visits_of_passes hlast (hclosed count leader hleader)
      hpasses (houtline.leader_mem (List.mem_of_getElem? hleader))
      (houtline.visits_leader hleader)⟩

theorem le_or_stop_le {position : Nat} {leader other : Address}
    (hleader : leaders[position]? = some leader) (hother : other ∈ leaders) :
    other ≤ leader ∨ stopAt leaders routineEnd position ≤ other.toNat := by
  obtain ⟨place, hplace⟩ := List.mem_iff_getElem?.mp hother
  have hbound := (List.getElem?_eq_some_iff.mp hplace).1
  rcases Nat.lt_trichotomy place position with hlt | heq | hgt
  · exact .inl (UInt16.le_of_lt (houtline.lt_of_lt hplace hleader hlt))
  · subst heq
    cases hplace.symm.trans hleader
    exact .inl UInt16.le_rfl
  · obtain ⟨next, hnext, hstop⟩ := stopAt_eq (show position + 1 < leaders.length by omega)
    refine .inr ?_
    rw [hstop]
    by_cases heq : place = position + 1
    · subst heq
      cases hplace.symm.trans hnext
      exact Nat.le_refl _
    · exact Nat.le_of_lt (houtline.lt_of_lt hnext hplace (by omega))

omit houtline in
/-- Unless an instruction wraps, no sweep goes on past the last address. -/
theorem stays_of_not_wraps (hwraps : ¬decoder.Wraps body routineEnd) (leaders : List Address)
    (position : Nat) :
    ∀ location ∈ body, ∀ instruction,
      decoder.instruction? location = some instruction → instruction.transfers = false →
      location.toNat + instruction.length < stopAt leaders routineEnd position →
      location.toNat + instruction.length ≤ 0xFFFF := by
  intro location hmem instruction hdecoded hstraight hbefore
  by_cases hlast : position + 1 < leaders.length
  · obtain ⟨next, _, hstop⟩ := stopAt_eq hlast
    have hsmall := next.toNat_lt
    rw [hstop] at hbefore
    omega
  · rw [stopAt_last hlast] at hbefore
    by_contra hpast
    exact hwraps ⟨location, hmem, instruction, hdecoded, hstraight, Nat.lt_of_not_le hpast,
      hbefore⟩

theorem le_of_visits (hwraps : ¬decoder.Wraps body routineEnd) {position : Nat}
    {leader address : Address} (hleader : leaders[position]? = some leader)
    (hvisits : decoder.Visits (stopAt leaders routineEnd position) leader address) :
    leader.toNat ≤ address.toNat ∧ address.toNat < stopAt leaders routineEnd position := by
  obtain ⟨_, middle, _, hsweeps, hbefore, rfl⟩ := hvisits
  have hmem := houtline.leader_mem (List.mem_of_getElem? hleader)
  obtain ⟨hle, hwithin⟩ := houtline.isBody.sweeps_le hsweeps (UInt16.ofNat_toNat.symm ▸ hmem)
    (Nat.le_of_lt_succ leader.toNat_lt) hbefore (stays_of_not_wraps hwraps leaders position)
  rw [UInt16.toNat_ofNat_of_lt' (Nat.lt_succ_of_le hwithin)]
  exact ⟨hle, hbefore⟩

theorem separate_or_wraps_of_closed (hclosed : decoder.Closed leaders routineEnd) :
    decoder.Separate body leaders ∨ decoder.Wraps body routineEnd := by
  by_cases hwraps : decoder.Wraps body routineEnd
  · exact .inr hwraps
  refine .inl fun location hmem instruction hdecoded hstraight => ?_
  obtain ⟨position, leader, hleader, hvisits⟩ := houtline.exists_visits hclosed hmem
  have hlocation := (placedAt_of_instruction? hdecoded).location_eq
  have hafter := (houtline.le_of_visits hwraps hleader hvisits).1
  have hend : location.toNat + instruction.length ≤ stopAt leaders routineEnd position ∧
      location.toNat + instruction.length ≤ 0xFFFF := by
    rcases hvisits.step hdecoded hstraight (hclosed position leader hleader) with
      ⟨hbefore, _⟩ | ⟨hstop, hwithin⟩
    · rw [hlocation] at hbefore
      exact ⟨Nat.le_of_lt hbefore, stays_of_not_wraps hwraps leaders position _ hmem instruction
        hdecoded hstraight hbefore⟩
    · rw [hlocation] at hstop
      exact ⟨Nat.le_of_eq hstop, hstop ▸ hwithin⟩
  refine ⟨hend.2, ?_⟩
  rintro other hother ⟨hlow, hhigh⟩
  have hlow : location.toNat < other.toNat := hlow
  rcases houtline.le_or_stop_le hleader hother with hle | hstop
  · have hle : other.toNat ≤ leader.toNat := hle
    omega
  · omega

end Outline

end Lift6502.Decoder
