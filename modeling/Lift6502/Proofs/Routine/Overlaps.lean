import Lift6502.Proofs.Routine.Outcome

/-! Instructions that lie over one another in a routine that is lifted. Apart
from sweeps that wrap, only a branch or a jump has another instruction of the
body among its bytes, and then a block starts among them. -/

namespace Lift6502

namespace Decoder

open Ssa Session

variable {decoder : Decoder} {platform : Platform} {entry : Address} {linkage : Linkage}
  {body : AddressSet} {leaders : List Address} {routineEnd : Nat}

/-- The instruction at an address of the body has another address of the body
among its operand bytes, `offset` bytes behind its opcode. -/
structure Overlaps (decoder : Decoder) (body : AddressSet) (location : Address)
    (instruction : Instruction) (offset : Nat) : Prop where
  location_mem : location ∈ body
  decoded : decoder.instruction? location = some instruction
  offset_pos : 0 < offset
  offset_lt : offset < instruction.length
  other_mem : location + UInt16.ofNat offset ∈ body

theorem toNat_add_ofNat (location : Address) {offset : Nat} (hoffset : offset < 65536) :
    (location + UInt16.ofNat offset).toNat = (location.toNat + offset) % 65536 := by
  rw [UInt16.toNat_add, UInt16.toNat_ofNat_of_lt' hoffset]

theorem add_ofNat_eq {location target : Address} {offset : Nat} (hoffset : offset < 65536)
    (htarget : (location.toNat + offset) % 65536 = target.toNat) :
    location + UInt16.ofNat offset = target :=
  UInt16.toNat_inj.mp ((toNat_add_ofNat location hoffset).trans htarget)

/-! Two addresses of one block -/

theorem Sweeps.linear {stop counter first second : Nat} {last lastFirst lastSecond : Address}
    {front other : List Instruction}
    (hfirst : decoder.Sweeps stop counter last front first lastFirst)
    (hsecond : decoder.Sweeps stop counter last other second lastSecond) :
    (∃ rest, decoder.Sweeps stop first lastFirst rest second lastSecond) ∨
      ∃ rest, decoder.Sweeps stop second lastSecond rest first lastFirst := by
  induction hfirst generalizing other with
  | nil counter last => exact .inl ⟨other, hsecond⟩
  | cons hbefore hdecoded hstraight hrest ih =>
      cases hsecond with
      | nil => exact .inr ⟨_, .cons hbefore hdecoded hstraight hrest⟩
      | cons _ hfound _ hrest' =>
          cases hdecoded.symm.trans hfound
          exact ih hrest'

theorem IsBody.end_le_of_sweeps (hbody : decoder.IsBody entry body) {stop counter final : Nat}
    {last lastFinal : Address} {instructions : List Instruction} {instruction : Instruction}
    (hsweeps : decoder.Sweeps stop counter last instructions final lastFinal)
    (hcounter : UInt16.ofNat counter ∈ body) (hstart : counter ≤ 0xFFFF) (hbefore : final < stop)
    (hstays : ∀ location ∈ body, ∀ instruction,
      decoder.instruction? location = some instruction → instruction.transfers = false →
      location.toNat + instruction.length < stop →
      location.toNat + instruction.length ≤ 0xFFFF)
    (hdecoded : decoder.instruction? (UInt16.ofNat counter) = some instruction)
    (hmoved : counter ≠ final) : counter + instruction.length ≤ final := by
  cases hsweeps with
  | nil => exact absurd rfl hmoved
  | cons _ hfound hstraight hrest =>
      cases hdecoded.symm.trans hfound
      have htoNat : (UInt16.ofNat counter).toNat = counter :=
        UInt16.toNat_ofNat_of_lt' (Nat.lt_succ_of_le hstart)
      have hnext : instruction.location.toNat + instruction.length < stop := by
        cases hrest with
        | nil => exact hbefore
        | cons hnext => exact hnext
      have hwithin := hstays _ hcounter instruction hdecoded hstraight
      have hfollowing := hbody.following_mem hcounter hdecoded hstraight
      rw [← instruction.ofNat_counter] at hfollowing
      rw [(placedAt_of_instruction? hdecoded).location_eq, htoNat] at hrest hnext hfollowing
      rw [htoNat] at hwithin
      exact (hbody.sweeps_le hrest hfollowing (hwithin hnext) hbefore hstays).1

namespace Outline

variable (houtline : decoder.Outline entry body leaders routineEnd)

include houtline

/-- Of two addresses that one block visits, the higher one is not within the
instruction at the lower one. -/
theorem end_le_of_visits (hwraps : ¬decoder.Wraps body routineEnd) {position : Nat}
    {leader low high : Address} {instruction : Instruction}
    (hleader : leaders[position]? = some leader)
    (hlow : decoder.Visits (stopAt leaders routineEnd position) leader low)
    (hhigh : decoder.Visits (stopAt leaders routineEnd position) leader high)
    (hdecoded : decoder.instruction? low = some instruction) (hlt : low.toNat < high.toNat) :
    low.toNat + instruction.length ≤ high.toNat := by
  obtain ⟨_, first, _, hfirst, hfirstBefore, rfl⟩ := hlow
  obtain ⟨_, second, _, hsecond, hsecondBefore, rfl⟩ := hhigh
  have hbody := houtline.isBody
  have hstays := stays_of_not_wraps hwraps leaders position
  have hleaderMem : UInt16.ofNat leader.toNat ∈ body :=
    UInt16.ofNat_toNat.symm ▸ houtline.leader_mem (List.mem_of_getElem? hleader)
  have hleaderLe : leader.toNat ≤ 0xFFFF := Nat.le_of_lt_succ leader.toNat_lt
  have hfirstLe := (hbody.sweeps_le hfirst hleaderMem hleaderLe hfirstBefore hstays).2
  have hsecondLe := (hbody.sweeps_le hsecond hleaderMem hleaderLe hsecondBefore hstays).2
  rw [UInt16.toNat_ofNat_of_lt' (Nat.lt_succ_of_le hfirstLe),
    UInt16.toNat_ofNat_of_lt' (Nat.lt_succ_of_le hsecondLe)] at hlt ⊢
  rcases hfirst.linear hsecond with ⟨_, hrest⟩ | ⟨_, hrest⟩
  · exact hbody.end_le_of_sweeps hrest (hbody.mem_of_sweeps hfirst hleaderMem) hfirstLe
      hsecondBefore hstays hdecoded (Nat.ne_of_lt hlt)
  · have hle := (hbody.sweeps_le hrest (hbody.mem_of_sweeps hsecond hleaderMem) hsecondLe
      hfirstBefore hstays).1
    omega

/-- Where an instruction runs over a higher address of the body, a block
starts behind the instruction's opcode and not behind that address. -/
theorem exists_leader_between (hclosed : decoder.Closed leaders routineEnd)
    (hwraps : ¬decoder.Wraps body routineEnd) {low high : Address} {instruction : Instruction}
    (hlow : low ∈ body) (hhigh : high ∈ body)
    (hdecoded : decoder.instruction? low = some instruction) (hlt : low.toNat < high.toNat)
    (hover : high.toNat < low.toNat + instruction.length) :
    ∃ leader ∈ leaders, low.toNat < leader.toNat ∧ leader.toNat ≤ high.toNat := by
  obtain ⟨position, first, hfirst, hvisitsLow⟩ := houtline.exists_visits hclosed hlow
  obtain ⟨position', second, hsecond, hvisitsHigh⟩ := houtline.exists_visits hclosed hhigh
  have hlowBounds := houtline.le_of_visits hwraps hfirst hvisitsLow
  have hhighBounds := houtline.le_of_visits hwraps hsecond hvisitsHigh
  refine ⟨second, List.mem_of_getElem? hsecond, ?_, hhighBounds.1⟩
  rcases Nat.lt_trichotomy position position' with hbefore | rfl | hafter
  · have hfirstLt : first.toNat < second.toNat := houtline.lt_of_lt hfirst hsecond hbefore
    rcases houtline.le_or_stop_le hfirst (List.mem_of_getElem? hsecond) with hle | hstop
    · exact absurd hfirstLt (Nat.not_lt_of_le hle)
    · exact Nat.lt_of_lt_of_le hlowBounds.2 hstop
  · cases hfirst.symm.trans hsecond
    have hend := houtline.end_le_of_visits hwraps hfirst hvisitsLow hvisitsHigh hdecoded hlt
    omega
  · have hsecondLt : second.toNat < first.toNat := houtline.lt_of_lt hsecond hfirst hafter
    rcases houtline.le_or_stop_le hsecond (List.mem_of_getElem? hfirst) with hle | hstop
    · exact absurd hsecondLt (Nat.not_lt_of_le hle)
    · omega

/-- The bytes of an instruction can go on at the lowest addresses, so a block
among them is given by its distance from the opcode. -/
theorem transfers_of_overlaps (hclosed : decoder.Closed leaders routineEnd)
    (hwraps : ¬decoder.Wraps body routineEnd) {location : Address} {instruction : Instruction}
    {offset : Nat} (hoverlaps : decoder.Overlaps body location instruction offset) :
    instruction.transfers = true ∧
      ∃ inner, 0 < inner ∧ inner ≤ offset ∧ location + UInt16.ofNat inner ∈ leaders := by
  obtain ⟨hmem, hdecoded, hpositive, hoffset, hother⟩ := hoverlaps
  have hseparate := (houtline.separate_or_wraps_of_closed hclosed).resolve_right hwraps
  have hlength := instruction.length_le
  have htoNat := toNat_add_ofNat location (show offset < 65536 by omega)
  by_cases hpast : location.toNat + offset < 65536
  · rw [Nat.mod_eq_of_lt hpast] at htoNat
    obtain ⟨leader, hleader, hbehind, hwithin⟩ := houtline.exists_leader_between hclosed hwraps
      hmem hother hdecoded (by omega) (by omega)
    constructor
    · by_contra hstraight
      exact (hseparate location hmem instruction hdecoded (Bool.eq_false_iff.mpr hstraight)).2
        leader hleader ⟨hbehind, by omega⟩
    · have hinner : location + UInt16.ofNat (leader.toNat - location.toNat) = leader :=
        add_ofNat_eq (by omega) (by omega)
      exact ⟨leader.toNat - location.toNat, by omega, by omega, by rwa [hinner]⟩
  · obtain ⟨position, leader, hleader, hvisits⟩ := houtline.exists_visits hclosed hother
    have hle := (houtline.le_of_visits hwraps hleader hvisits).1
    have hlocation := location.toNat_lt
    constructor
    · by_contra hstraight
      have hbound := (hseparate location hmem instruction hdecoded
        (Bool.eq_false_iff.mpr hstraight)).1
      omega
    · have hinner : location + UInt16.ofNat (65536 - location.toNat + leader.toNat) = leader :=
        add_ofNat_eq (by omega) (by omega)
      refine ⟨65536 - location.toNat + leader.toNat, by omega, by omega, ?_⟩
      rw [hinner]
      exact List.mem_of_getElem? hleader

/-- An instruction that wraps runs over the highest instruction. -/
theorem exists_overlap_of_wraps (hwraps : decoder.Wraps body routineEnd) :
    ∃ location instruction offset, decoder.Overlaps body location instruction offset ∧
      instruction.transfers = false := by
  obtain ⟨location, hmem, instruction, hdecoded, hstraight, hpast, hbefore⟩ := hwraps
  obtain ⟨highest, found, hhighest, hle, hfound, rfl⟩ := houtline.isEnd
  have hbound : location.toNat ≤ highest.toNat := hle location hmem
  have hne : location ≠ highest := by
    rintro rfl
    cases hdecoded.symm.trans hfound
    exact Nat.lt_irrefl _ hbefore
  have hlt : location.toNat < highest.toNat :=
    Nat.lt_of_le_of_ne hbound fun heq => hne (UInt16.toNat_inj.mp heq)
  have hsmall := highest.toNat_lt
  have hoffset : location + UInt16.ofNat (highest.toNat - location.toNat) = highest :=
    add_ofNat_eq (by omega) (by omega)
  exact ⟨location, instruction, highest.toNat - location.toNat, ⟨hmem, hdecoded, by omega,
    by omega, by rwa [hoffset]⟩, hstraight⟩

end Outline

/-- In a routine that is lifted, an instruction runs over another one of the
body only if it is a branch or a jump among whose bytes a block starts, unless
an instruction wraps; and one that wraps does run over another one. -/
theorem overlaps_of_liftRoutine {journal journal' : Journal} {function : Function}
    (hrun : decoder.liftRoutine platform entry linkage journal = .ok function journal') :
    ∃ body leaders routineEnd, (decoder.body entry).outcome journal = .ok body ∧
      (decoder.leaders entry body).outcome journal = .ok leaders ∧
      (decoder.bodyEnd entry body).outcome journal = .ok routineEnd ∧
      (∀ location instruction offset, decoder.Overlaps body location instruction offset →
        (instruction.transfers = true ∧
          ∃ inner, 0 < inner ∧ inner ≤ offset ∧ location + UInt16.ofNat inner ∈ leaders) ∨
        decoder.Wraps body routineEnd) ∧
      (decoder.Wraps body routineEnd →
        ∃ location instruction offset, decoder.Overlaps body location instruction offset ∧
          instruction.transfers = false) := by
  have hgives := (body_steady decoder entry).of_outcome
  cases hresult : (decoder.body entry).outcome {} with
  | error error =>
      rw [hresult] at hgives
      exact nomatch (liftRoutine_gives_of_body_error hgives platform linkage).of_ok hrun
  | ok body =>
      rw [hresult] at hgives
      obtain ⟨_, hbody⟩ := outcome_eq_ok_iff.mp hresult
      obtain ⟨leaders, routineEnd, hleaders, hend, houtline, houtcome⟩ :=
        (isBody_of_body hbody).liftRoutine_gives hgives platform linkage
      rcases houtcome with ⟨_, _, _, _, hclosed⟩ | ⟨error, hlifted, _⟩
      · refine ⟨body, leaders, routineEnd, hgives journal, hleaders journal, hend journal, ?_,
          houtline.exists_overlap_of_wraps⟩
        intro location instruction offset hoverlaps
        by_cases hwraps : decoder.Wraps body routineEnd
        · exact .inr hwraps
        · obtain ⟨htransfers, inner, hpositive, hle, hleader⟩ :=
            houtline.transfers_of_overlaps hclosed hwraps hoverlaps
          exact .inl ⟨htransfers, inner, hpositive, hle, Std.TreeSet.mem_toList.mp hleader⟩
      · exact nomatch hlifted.of_ok hrun

/-- A jump to its own first operand byte, which is a return. -/
def selfJump : Decoder where
  space := Image.space { base := 0x805F, bytes := #[0x4C, 0x60, 0x80] }
  policy := .strict

theorem overlaps_selfJump : ∃ function journal' body leaders instruction,
    selfJump.liftRoutine .flat 0x805F .external {} = .ok function journal' ∧
    (selfJump.body 0x805F).outcome {} = .ok body ∧
    (selfJump.leaders 0x805F body).outcome {} = .ok leaders ∧
    selfJump.Overlaps body 0x805F instruction 1 ∧
    instruction.transfers = true ∧ 0x8060 ∈ leaders := by
  obtain ⟨function, journal', hrun⟩ : ∃ function journal',
      selfJump.liftRoutine .flat 0x805F .external {} = .ok function journal' :=
    exists_of_isOk (by decide +kernel)
  obtain ⟨body, leaders, routineEnd, hbody, hleaders, _, hoverlaps, _⟩ :=
    overlaps_of_liftRoutine hrun
  have hlist : ((selfJump.body 0x805F).outcome {}).map Std.TreeSet.toList =
      .ok [0x805F, 0x8060] := rfl
  have hjump : selfJump.instruction? 0x805F =
      some ⟨0x805F, .jmp, some (.absolute 0x8060), none⟩ := rfl
  have hreturn : selfJump.instruction? 0x8060 = some ⟨0x8060, .rts, none, none⟩ := rfl
  rw [hbody] at hlist
  have hmem (address : Address) : address ∈ body ↔ address ∈ [0x805F, 0x8060] := by
    rw [← Std.TreeSet.mem_toList, Except.ok.inj hlist]
  have hoverlap : selfJump.Overlaps body 0x805F ⟨0x805F, .jmp, some (.absolute 0x8060), none⟩ 1 :=
    ⟨(hmem _).mpr (by decide), hjump, by decide, by decide, (hmem _).mpr (by decide)⟩
  refine ⟨function, journal', body, leaders, _, hrun, hbody, hleaders, hoverlap, ?_⟩
  rcases hoverlaps _ _ _ hoverlap with ⟨htransfers, inner, hpositive, hle, hleader⟩ |
    ⟨location, hlocation, instruction, hdecoded, hstraight, _⟩
  · cases Nat.le_antisymm hle hpositive
    exact ⟨htransfers, hleader⟩
  · rcases List.mem_pair.mp ((hmem location).mp hlocation) with rfl | rfl
    · cases hdecoded.symm.trans hjump
      cases hstraight
    · cases hdecoded.symm.trans hreturn
      cases hstraight

end Decoder

end Lift6502
