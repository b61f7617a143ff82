import Lift6502.Proofs.Routine.Boundaries
import Mathlib.Data.List.Nodup

/-! In a routine whose blocks close, every instruction of the body is swept
with one block, and once. A block other than the last one stays between its
leader and the next. The last one can wrap, but what it passes leads to the
highest instruction of the body, which transfers control; had it passed an
instruction of an earlier block, it would have come to another transfer or
back to its own leader. -/

namespace Lift6502.Decoder

variable {decoder : Decoder} {entry : Address} {body : AddressSet} {leaders : List Address}
  {routineEnd : Nat}

/-! Routes to a transfer -/

def TransfersAt (decoder : Decoder) (address : Address) : Prop :=
  ∃ instruction, decoder.instruction? address = some instruction ∧ instruction.transfers = true

/-- A route goes on to a transfer from wherever it has come to. -/
theorem Passes.rest {address middle final : Address} {front instructions : List Instruction}
    (hfront : decoder.Passes address front middle)
    (hpasses : decoder.Passes address instructions final)
    (htransfers : decoder.TransfersAt final) :
    ∃ back, decoder.Passes middle back final ∧ instructions = front ++ back := by
  induction hfront generalizing instructions with
  | nil address => exact ⟨instructions, hpasses, rfl⟩
  | cons hdecoded hstraight hrest ih =>
      cases hpasses with
      | nil =>
          obtain ⟨instruction, hfound, htransfer⟩ := htransfers
          cases hdecoded.symm.trans hfound
          exact absurd (htransfer.symm.trans hstraight) (by decide)
      | cons hfound _ hrest' =>
          cases hdecoded.symm.trans hfound
          obtain ⟨back, hback, rfl⟩ := ih hrest'
          exact ⟨back, hback, rfl⟩

theorem Passes.eq_of_transfersAt {address first second : Address}
    {instructions other : List Instruction} (hfirst : decoder.Passes address instructions first)
    (hsecond : decoder.Passes address other second) (htransfersFirst : decoder.TransfersAt first)
    (htransfersSecond : decoder.TransfersAt second) : first = second := by
  obtain ⟨back, hback, _⟩ := hfirst.rest hsecond htransfersSecond
  cases hback with
  | nil => rfl
  | cons hdecoded hstraight =>
      obtain ⟨instruction, hfound, htransfer⟩ := htransfersFirst
      cases hdecoded.symm.trans hfound
      exact absurd (htransfer.symm.trans hstraight) (by decide)

/-- A route that comes back never comes to a transfer. -/
theorem Passes.eq_nil_of_cycle {address final : Address} {loop instructions : List Instruction}
    (hloop : decoder.Passes address loop address)
    (hpasses : decoder.Passes address instructions final)
    (htransfers : decoder.TransfersAt final) : loop = [] := by
  by_contra hmoved
  induction hlength : instructions.length using Nat.strongRecOn generalizing instructions with
  | ind length ih =>
      obtain ⟨back, hback, rfl⟩ := hloop.rest hpasses htransfers
      refine ih back.length ?_ hback rfl
      have hpositive := List.length_pos_of_ne_nil hmoved
      rw [List.length_append] at hlength
      omega

/-! The instructions of a block -/

/-- The instructions that the sweep over a block comes to from a counter
on. -/
inductive Lists (decoder : Decoder) (stop : Nat) : Nat → List Instruction → Prop
  | stop {counter : Nat} (hstop : ¬counter < stop) : Lists decoder stop counter []
  | transfer {counter : Nat} {instruction : Instruction} (hbefore : counter < stop)
      (hdecoded : decoder.instruction? (UInt16.ofNat counter) = some instruction)
      (htransfers : instruction.transfers = true) : Lists decoder stop counter [instruction]
  | straight {counter : Nat} {instruction : Instruction} {rest : List Instruction}
      (hbefore : counter < stop)
      (hdecoded : decoder.instruction? (UInt16.ofNat counter) = some instruction)
      (hstraight : instruction.transfers = false)
      (hrest : Lists decoder stop (instruction.location.toNat + instruction.length) rest) :
      Lists decoder stop counter (instruction :: rest)

section Lists

variable {stop counter : Nat} {listed : List Instruction}

theorem Sweeps.lists {middle : Nat} {last lastMiddle : Address}
    {instructions : List Instruction}
    (hsweeps : decoder.Sweeps stop counter last instructions middle lastMiddle)
    (hlists : decoder.Lists stop middle listed) :
    decoder.Lists stop counter (instructions ++ listed) := by
  induction hsweeps with
  | nil counter last => exact hlists
  | cons hbefore hdecoded hstraight hrest ih =>
      exact .straight hbefore hdecoded hstraight (ih hlists)

theorem Lists.unique {other : List Instruction} (hlists : decoder.Lists stop counter listed)
    (hother : decoder.Lists stop counter other) : listed = other := by
  induction hlists generalizing other with
  | stop hstop =>
      cases hother with
      | stop => rfl
      | transfer hbefore | straight hbefore => exact absurd hbefore hstop
  | transfer hbefore hdecoded htransfers =>
      cases hother with
      | stop hstop => exact absurd hbefore hstop
      | transfer _ hfound =>
          cases hdecoded.symm.trans hfound
          rfl
      | straight _ hfound hstraight =>
          cases hdecoded.symm.trans hfound
          exact absurd (htransfers.symm.trans hstraight) (by decide)
  | straight hbefore hdecoded hstraight hrest ih =>
      cases hother with
      | stop hstop => exact absurd hbefore hstop
      | transfer _ hfound htransfers =>
          cases hdecoded.symm.trans hfound
          exact absurd (htransfers.symm.trans hstraight) (by decide)
      | straight _ hfound _ hrest' =>
          cases hdecoded.symm.trans hfound
          rw [ih hrest']

theorem Lists.exists_sweeps (hlists : decoder.Lists stop counter listed)
    {instruction : Instruction} (hmem : instruction ∈ listed) (last : Address) :
    ∃ front middle lastMiddle, decoder.Sweeps stop counter last front middle lastMiddle ∧
      middle < stop ∧ decoder.instruction? (UInt16.ofNat middle) = some instruction := by
  induction hlists generalizing last with
  | stop => cases hmem
  | transfer hbefore hdecoded =>
      cases List.mem_singleton.mp hmem
      exact ⟨[], _, last, .nil _ _, hbefore, hdecoded⟩
  | straight hbefore hdecoded hstraight hrest ih =>
      rcases List.mem_cons.mp hmem with rfl | hmem
      · exact ⟨[], _, last, .nil _ _, hbefore, hdecoded⟩
      · obtain ⟨front, middle, lastMiddle, hfront, hfound⟩ := ih hmem _
        exact ⟨_ :: front, middle, lastMiddle, .cons hbefore hdecoded hstraight hfront, hfound⟩

theorem Lists.mem_of_sweeps (hlists : decoder.Lists stop counter listed) {middle : Nat}
    {last lastMiddle : Address} {front : List Instruction} {instruction : Instruction}
    (hsweeps : decoder.Sweeps stop counter last front middle lastMiddle) (hbefore : middle < stop)
    (hdecoded : decoder.instruction? (UInt16.ofNat middle) = some instruction) :
    instruction ∈ listed := by
  induction hsweeps generalizing listed with
  | nil counter last =>
      cases hlists with
      | stop hstop => exact absurd hbefore hstop
      | transfer _ hfound | straight _ hfound =>
          cases hdecoded.symm.trans hfound
          exact List.mem_cons_self
  | cons hbefore' hdecoded' hstraight hrest ih =>
      cases hlists with
      | stop hstop => exact absurd hbefore' hstop
      | transfer _ hfound htransfers =>
          cases hdecoded'.symm.trans hfound
          exact absurd (htransfers.symm.trans hstraight) (by decide)
      | straight _ hfound _ hlists =>
          cases hdecoded'.symm.trans hfound
          exact List.mem_cons_of_mem _ (ih hlists hbefore hdecoded)

theorem Lists.decoded (hlists : decoder.Lists stop counter listed) {instruction : Instruction}
    (hmem : instruction ∈ listed) :
    decoder.instruction? instruction.location = some instruction := by
  obtain ⟨_, middle, _, _, _, hdecoded⟩ := hlists.exists_sweeps hmem 0
  rw [(placedAt_of_instruction? hdecoded).location_eq]
  exact hdecoded

/-- What is listed behind an instruction depends on the instruction only. -/
theorem Lists.rest_of_mem (hlists : decoder.Lists stop counter listed) {instruction : Instruction}
    (hmem : instruction ∈ listed) (hstraight : instruction.transfers = false) :
    ∃ back, decoder.Lists stop (instruction.location.toNat + instruction.length) back ∧
      back.length < listed.length := by
  induction hlists with
  | stop => cases hmem
  | transfer _ _ htransfers =>
      cases List.mem_singleton.mp hmem
      exact absurd (htransfers.symm.trans hstraight) (by decide)
  | straight _ _ _ hrest ih =>
      rcases List.mem_cons.mp hmem with rfl | hmem
      · exact ⟨_, hrest, Nat.lt_succ_self _⟩
      · obtain ⟨back, hback, hlength⟩ := ih hmem
        exact ⟨back, hback, Nat.lt_succ_of_lt hlength⟩

theorem Lists.nodup (hlists : decoder.Lists stop counter listed) :
    (listed.map Instruction.location).Nodup := by
  induction hlists with
  | stop => exact List.nodup_nil
  | transfer => exact List.nodup_singleton _
  | straight hbefore hdecoded hstraight hrest ih =>
      rename_i counter instruction rest
      refine List.nodup_cons.mpr ⟨?_, ih⟩
      intro hmem
      -- The same instruction again would have the whole rest behind it.
      obtain ⟨again, hagain, hlocation⟩ := List.mem_map.mp hmem
      have hfound := hrest.decoded hagain
      rw [hlocation, (placedAt_of_instruction? hdecoded).location_eq] at hfound
      cases hdecoded.symm.trans hfound
      obtain ⟨back, hback, hlength⟩ := hrest.rest_of_mem hagain hstraight
      rw [hback.unique hrest] at hlength
      exact Nat.lt_irrefl _ hlength

end Lists

theorem Lists.location_head {stop counter : Nat} {instruction : Instruction}
    {rest : List Instruction} (hlists : decoder.Lists stop counter (instruction :: rest)) :
    instruction.location = UInt16.ofNat counter := by
  cases hlists with
  | transfer _ hdecoded | straight _ hdecoded =>
      exact (placedAt_of_instruction? hdecoded).location_eq

theorem Lists.isChain {stop counter : Nat} {listed : List Instruction}
    (hlists : decoder.Lists stop counter listed) :
    listed.IsChain fun instruction next =>
      instruction.transfers = false ∧ next.location = instruction.following := by
  induction hlists with
  | stop => exact .nil
  | transfer => exact .singleton _
  | straight hbefore hdecoded hstraight hrest ih =>
      rename_i counter instruction rest
      cases rest with
      | nil => exact .singleton _
      | cons next rest =>
          refine .cons_cons ⟨hstraight, ?_⟩ ih
          rw [hrest.location_head, instruction.ofNat_counter]

/-- An instruction that goes on within the block is listed in front of the
following one. -/
theorem Lists.next {stop counter : Nat} {listed : List Instruction}
    (hlists : decoder.Lists stop counter listed) {instruction : Instruction}
    (hmem : instruction ∈ listed) (hstraight : instruction.transfers = false)
    (hbefore : instruction.location.toNat + instruction.length < stop) :
    ∃ next, [instruction, next].Sublist listed ∧ next.location = instruction.following := by
  induction hlists with
  | stop => cases hmem
  | transfer _ _ htransfers =>
      cases List.mem_singleton.mp hmem
      exact absurd (htransfers.symm.trans hstraight) (by decide)
  | straight _ _ _ hrest ih =>
      rcases List.mem_cons.mp hmem with rfl | hmem
      · cases hrest with
        | stop hstop => exact absurd hbefore hstop
        | transfer _ hdecoded | straight _ hdecoded =>
            refine ⟨_, ((List.nil_sublist _).cons_cons _).cons_cons _, ?_⟩
            rw [(placedAt_of_instruction? hdecoded).location_eq, instruction.ofNat_counter]
      · obtain ⟨next, hsublist, hlocation⟩ := ih hmem
        exact ⟨next, hsublist.cons _, hlocation⟩

theorem IsBody.pairwise_lists (hbody : decoder.IsBody entry body) {stop counter : Nat}
    {listed : List Instruction} (hlists : decoder.Lists stop counter listed)
    (hcounter : UInt16.ofNat counter ∈ body) (hstart : counter ≤ 0xFFFF)
    (hstays : ∀ location ∈ body, ∀ instruction,
      decoder.instruction? location = some instruction → instruction.transfers = false →
      location.toNat + instruction.length < stop →
      location.toNat + instruction.length ≤ 0xFFFF) :
    (listed.map Instruction.location).Pairwise (· < ·) ∧
      ∀ instruction ∈ listed, counter ≤ instruction.location.toNat := by
  induction hlists with
  | stop => exact ⟨.nil, nofun⟩
  | transfer _ hdecoded =>
      refine ⟨List.pairwise_singleton _ _, ?_⟩
      intro instruction hmem
      rw [List.mem_singleton.mp hmem, (placedAt_of_instruction? hdecoded).location_eq]
      exact Nat.le_of_eq (UInt16.toNat_ofNat_of_lt' (Nat.lt_succ_of_le hstart)).symm
  | straight hbefore hdecoded hstraight hrest ih =>
      rename_i counter instruction rest
      have hlocation := (placedAt_of_instruction? hdecoded).location_eq
      have htoNat : instruction.location.toNat = counter := by
        rw [hlocation]
        exact UInt16.toNat_ofNat_of_lt' (Nat.lt_succ_of_le hstart)
      have hlength := instruction.length_pos
      have hfollowing := hbody.following_mem hcounter hdecoded hstraight
      rw [← instruction.ofNat_counter] at hfollowing
      by_cases hnext : instruction.location.toNat + instruction.length < stop
      · have hwithin := hstays _ hcounter instruction hdecoded hstraight (hlocation ▸ hnext)
        rw [← hlocation] at hwithin
        obtain ⟨hpairwise, hle⟩ := ih hfollowing hwithin
        constructor
        · refine List.pairwise_cons.mpr ⟨?_, hpairwise⟩
          intro address haddress
          obtain ⟨later, hlater, rfl⟩ := List.mem_map.mp haddress
          have hbound := hle later hlater
          show instruction.location.toNat < later.location.toNat
          omega
        · intro other hother
          rcases List.mem_cons.mp hother with rfl | hother
          · omega
          · have hbound := hle other hother
            omega
      · cases hrest with
        | stop =>
            refine ⟨List.pairwise_singleton _ _, ?_⟩
            intro other hother
            rw [List.mem_singleton.mp hother]
            omega
        | transfer hbefore' | straight hbefore' => exact absurd hbefore' hnext

theorem Visits.passes {stop : Nat} {leader address : Address}
    (hvisits : decoder.Visits stop leader address) :
    ∃ route, decoder.Passes leader route address := by
  obtain ⟨route, middle, _, hsweeps, _, rfl⟩ := hvisits
  have hpasses := hsweeps.passes
  rw [UInt16.ofNat_toNat] at hpasses
  exact ⟨route, hpasses⟩

theorem Lists.visits {stop : Nat} {leader : Address} {listed : List Instruction}
    (hlists : decoder.Lists stop leader.toNat listed) {instruction : Instruction}
    (hmem : instruction ∈ listed) : decoder.Visits stop leader instruction.location := by
  obtain ⟨front, middle, lastMiddle, hsweeps, hbefore, hdecoded⟩ :=
    hlists.exists_sweeps hmem leader
  exact ⟨front, middle, lastMiddle, hsweeps, hbefore,
    (placedAt_of_instruction? hdecoded).location_eq.symm⟩

theorem Lists.mem_of_visits {stop : Nat} {leader address : Address} {listed : List Instruction}
    (hlists : decoder.Lists stop leader.toNat listed) {instruction : Instruction}
    (hvisits : decoder.Visits stop leader address)
    (hdecoded : decoder.instruction? address = some instruction) : instruction ∈ listed := by
  obtain ⟨_, _, _, hsweeps, hbefore, rfl⟩ := hvisits
  exact hlists.mem_of_sweeps hsweeps hbefore hdecoded

/-- The instructions of the blocks, one list for each leader. -/
structure Divides (decoder : Decoder) (leaders : List Address) (routineEnd : Nat)
    (blocks : List (List Instruction)) : Prop where
  length_eq : blocks.length = leaders.length
  lists : ∀ position leader listed, leaders[position]? = some leader →
    blocks[position]? = some listed →
      decoder.Lists (stopAt leaders routineEnd position) leader.toNat listed

namespace Outline

variable (houtline : decoder.Outline entry body leaders routineEnd)

include houtline

/-- A block with another one behind it stays below that one. -/
theorem bounds_of_visits {position : Nat} {leader next address : Address}
    (hleader : leaders[position]? = some leader) (hnext : leaders[position + 1]? = some next)
    (hvisits : decoder.Visits (stopAt leaders routineEnd position) leader address) :
    leader.toNat ≤ address.toNat ∧ address.toNat < next.toNat := by
  obtain ⟨_, middle, _, hsweeps, hbefore, rfl⟩ := hvisits
  have hstop : stopAt leaders routineEnd position = next.toNat := by
    unfold stopAt
    rw [hnext]
  rw [hstop] at hsweeps hbefore
  have hsmall := next.toNat_lt
  have hmem := houtline.leader_mem (List.mem_of_getElem? hleader)
  obtain ⟨hle, hwithin⟩ := houtline.isBody.sweeps_le hsweeps (UInt16.ofNat_toNat.symm ▸ hmem)
    (Nat.le_of_lt_succ leader.toNat_lt) hbefore fun _ _ _ _ _ hlt => by omega
  rw [UInt16.toNat_ofNat_of_lt' (Nat.lt_succ_of_le hwithin)]
  exact ⟨hle, hbefore⟩

variable (hclosed : decoder.Closed leaders routineEnd) {count : Nat}
  (hcount : leaders.length = count + 1) {final : Address} (hfinal : leaders[count]? = some final)

include hclosed hcount hfinal

/-- Control passes from the last leader to a transfer that is not below it. -/
theorem passes_transfer : ∃ route highest, decoder.Passes final route highest ∧
    decoder.TransfersAt highest ∧ final ≤ highest := by
  obtain ⟨highest, instruction, hmem, hle, hdecoded, hend⟩ := houtline.isEnd
  obtain ⟨route, hroute⟩ := houtline.passes_highest hcount hfinal
    (fun position earlier _ => hclosed position earlier) hmem hle
  have hfinalMem := houtline.leader_mem (List.mem_of_getElem? hfinal)
  refine ⟨route, highest, hroute, ⟨instruction, hdecoded, ?_⟩, hle final hfinalMem⟩
  cases hstraight : instruction.transfers with
  | true => rfl
  | false =>
      have hlast : ¬count + 1 < leaders.length := by omega
      have hcloses := hclosed count final hfinal
      have hvisits := houtline.visits_of_passes hlast hcloses hroute hfinalMem
        (houtline.visits_leader hfinal)
      have hbefore := (houtline.step_of_last hlast hcloses hmem hvisits hdecoded hstraight).1
      rw [(placedAt_of_instruction? hdecoded).location_eq, ← hend] at hbefore
      exact absurd hbefore (Nat.lt_irrefl _)

/-- From a block before the last one control comes to a transfer below the last
leader, or to that leader. -/
theorem passes_on {position : Nat} {leader address : Address} (hposition : position < count)
    (hleader : leaders[position]? = some leader)
    (hvisits : decoder.Visits (stopAt leaders routineEnd position) leader address) :
    ∃ route target, decoder.Passes address route target ∧
      (decoder.TransfersAt target ∧ target < final ∨ target = final) := by
  induction hgap : count - position generalizing position leader address with
  | zero => omega
  | succ gap ih =>
      obtain ⟨next, hnext, hstop⟩ := stopAt_eq (show position + 1 < leaders.length by omega)
      have hnextLe : next ≤ final := by
        rcases Nat.lt_or_eq_of_le (Nat.succ_le_of_lt hposition) with hlt | heq
        · exact UInt16.le_of_lt (houtline.lt_of_lt hnext hfinal hlt)
        · rw [← heq, Nat.succ_eq_add_one, hnext] at hfinal
          cases hfinal
          exact UInt16.le_rfl
      obtain ⟨swept, ended, lastEnded, hswept, hhalts, hend⟩ := hclosed position leader hleader
      obtain ⟨_, middle, _, hfront, hbefore, rfl⟩ := hvisits
      obtain ⟨route, hroute, _⟩ := hfront.rest hswept hhalts
      rcases hend with hinside | ⟨hexact, _⟩
      · refine ⟨route, _, hroute.passes, .inl ⟨hhalts hinside, ?_⟩⟩
        have hbelow : (UInt16.ofNat ended).toNat < next.toNat :=
          (houtline.bounds_of_visits hleader hnext ⟨_, _, _, hswept, hinside, rfl⟩).2
        exact Nat.lt_of_lt_of_le hbelow hnextLe
      · have hcomes := hroute.passes
        rw [hexact, hstop, UInt16.ofNat_toNat] at hcomes
        by_cases hlast : position + 1 = count
        · rw [hlast, hfinal] at hnext
          cases hnext
          exact ⟨route, final, hcomes, .inr rfl⟩
        · obtain ⟨rest, target, hrest, htarget⟩ := ih (show position + 1 < count by omega) hnext
            (houtline.visits_leader hnext) (by omega)
          exact ⟨route ++ rest, target, hcomes.append hrest, htarget⟩

theorem not_visits_of_lt {first second : Nat} {leader other address : Address}
    (hlt : first < second) (hleader : leaders[first]? = some leader)
    (hother : leaders[second]? = some other)
    (hfirst : decoder.Visits (stopAt leaders routineEnd first) leader address) :
    ¬decoder.Visits (stopAt leaders routineEnd second) other address := by
  intro hsecond
  have hbound := (List.getElem?_eq_some_iff.mp hother).1
  obtain ⟨next, hnext, hstop⟩ := stopAt_eq (show first + 1 < leaders.length by omega)
  have hbelow := (houtline.bounds_of_visits hleader hnext hfirst).2
  have hnextLe : next.toNat ≤ other.toNat := by
    rcases houtline.le_or_stop_le hleader (List.mem_of_getElem? hother) with hle | hle
    · exact absurd (houtline.lt_of_lt hleader hother hlt) (UInt16.not_lt.mpr hle)
    · rwa [hstop] at hle
  by_cases hlast : second = count
  · subst hlast
    cases hother.symm.trans hfinal
    obtain ⟨front, hfront⟩ := hsecond.passes
    obtain ⟨route, highest, hroute, htransfers, hle⟩ :=
      houtline.passes_transfer hclosed hcount hfinal
    obtain ⟨back, target, hback, ⟨htarget, hlow⟩ | rfl⟩ :=
      houtline.passes_on hclosed hcount hfinal hlt hleader hfirst
    · have heq := (hfront.append hback).eq_of_transfersAt hroute htarget htransfers
      rw [heq] at hlow
      exact absurd hlow (UInt16.not_lt.mpr hle)
    · have hnone := (hfront.append hback).eq_nil_of_cycle hroute htransfers
      rw [(List.append_eq_nil_iff.mp hnone).1] at hfront
      cases hfront
      omega
  · have hbehind := List.getElem?_eq_getElem (show second + 1 < leaders.length by omega)
    have habove := (houtline.bounds_of_visits hother hbehind hsecond).1
    omega

omit hcount hfinal

theorem position_eq {first second : Nat} {leader other address : Address}
    (hleader : leaders[first]? = some leader) (hother : leaders[second]? = some other)
    (hfirst : decoder.Visits (stopAt leaders routineEnd first) leader address)
    (hsecond : decoder.Visits (stopAt leaders routineEnd second) other address) :
    first = second := by
  have hbound := (List.getElem?_eq_some_iff.mp hother).1
  obtain ⟨count, hcount⟩ := Nat.exists_eq_add_one.mpr (Nat.zero_lt_of_lt hbound)
  have hfinal : leaders[count]? = some leaders[count] := List.getElem?_eq_getElem (by omega)
  rcases Nat.lt_trichotomy first second with hlt | heq | hgt
  · exact absurd hsecond
      (houtline.not_visits_of_lt hclosed hcount hfinal hlt hleader hother hfirst)
  · exact heq
  · exact absurd hfirst
      (houtline.not_visits_of_lt hclosed hcount hfinal hgt hother hleader hsecond)

/-! All blocks -/

variable {blocks : List (List Instruction)} (hdivides : decoder.Divides leaders routineEnd blocks)

include hdivides

omit houtline hclosed in
theorem exists_leader {position : Nat} {listed : List Instruction}
    (hlisted : blocks[position]? = some listed) :
    ∃ leader, leaders[position]? = some leader ∧
      decoder.Lists (stopAt leaders routineEnd position) leader.toNat listed := by
  have hlt := (List.getElem?_eq_some_iff.mp hlisted).1
  rw [hdivides.length_eq] at hlt
  have hleader := List.getElem?_eq_getElem hlt
  exact ⟨_, hleader, hdivides.lists position _ listed hleader hlisted⟩

theorem nodup_locations : (blocks.flatten.map Instruction.location).Nodup := by
  rw [List.map_flatten, List.nodup_flatten]
  constructor
  · intro locations hlocations
    obtain ⟨listed, hlisted, rfl⟩ := List.mem_map.mp hlocations
    obtain ⟨position, hposition⟩ := List.mem_iff_getElem?.mp hlisted
    obtain ⟨_, _, hlists⟩ := exists_leader hdivides hposition
    exact hlists.nodup
  · rw [List.pairwise_map, List.pairwise_iff_getElem]
    intro first second hfirst hsecond hlt address hleft hright
    obtain ⟨one, hone, rfl⟩ := List.mem_map.mp hleft
    obtain ⟨two, htwo, hsame⟩ := List.mem_map.mp hright
    obtain ⟨leader, hleader, hlists⟩ :=
      exists_leader hdivides (List.getElem?_eq_getElem hfirst)
    obtain ⟨other, hother, hlists'⟩ :=
      exists_leader hdivides (List.getElem?_eq_getElem hsecond)
    have heq := houtline.position_eq hclosed hleader hother (hlists.visits hone)
      (hsame ▸ hlists'.visits htwo)
    omega

omit houtline hclosed in
theorem decoded_of_mem {instruction : Instruction} (hmem : instruction ∈ blocks.flatten) :
    decoder.instruction? instruction.location = some instruction := by
  obtain ⟨listed, hlisted, hmem⟩ := List.mem_flatten.mp hmem
  obtain ⟨position, hposition⟩ := List.mem_iff_getElem?.mp hlisted
  obtain ⟨_, _, hlists⟩ := exists_leader hdivides hposition
  exact hlists.decoded hmem

omit hclosed in
theorem location_mem {instruction : Instruction} (hmem : instruction ∈ blocks.flatten) :
    instruction.location ∈ body := by
  obtain ⟨listed, hlisted, hmem⟩ := List.mem_flatten.mp hmem
  obtain ⟨position, hposition⟩ := List.mem_iff_getElem?.mp hlisted
  obtain ⟨leader, hleader, hlists⟩ := exists_leader hdivides hposition
  obtain ⟨route, hroute⟩ := (hlists.visits hmem).passes
  exact houtline.isBody.mem_of_passes hroute
    (houtline.leader_mem (List.mem_of_getElem? hleader))

/-- The blocks have every instruction of the body, and have it once. -/
theorem perm_locations : (blocks.flatten.map Instruction.location).Perm body.toList := by
  rw [List.perm_ext_iff_of_nodup (houtline.nodup_locations hclosed hdivides)
    (AddressSet.nodup_toList body)]
  intro address
  rw [Std.TreeSet.mem_toList, List.mem_map]
  constructor
  · rintro ⟨instruction, hmem, rfl⟩
    exact houtline.location_mem hdivides hmem
  · intro haddress
    obtain ⟨position, leader, hleader, hvisits⟩ := houtline.exists_visits hclosed haddress
    obtain ⟨instruction, hdecoded⟩ := houtline.isBody.decodes address haddress
    have hlt := (List.getElem?_eq_some_iff.mp hleader).1
    rw [← hdivides.length_eq] at hlt
    have hlisted := List.getElem?_eq_getElem hlt
    have hmem := (hdivides.lists position leader _ hleader hlisted).mem_of_visits hvisits hdecoded
    exact ⟨instruction, List.mem_flatten.mpr ⟨_, List.getElem_mem hlt, hmem⟩,
      (placedAt_of_instruction? hdecoded).location_eq⟩

theorem not_leader_of_mem_tail {position : Nat} {listed : List Instruction}
    (hlisted : blocks[position]? = some listed) {instruction : Instruction}
    (hmem : instruction ∈ listed.tail) : instruction.location ∉ leaders := by
  intro hfound
  obtain ⟨leader, hleader, hlists⟩ := exists_leader hdivides hlisted
  obtain ⟨place, hplace⟩ := List.mem_iff_getElem?.mp hfound
  have heq := houtline.position_eq hclosed hleader hplace
    (hlists.visits (List.mem_of_mem_tail hmem)) (houtline.visits_leader hplace)
  subst heq
  cases hleader.symm.trans hplace
  cases listed with
  | nil => cases hmem
  | cons head tail =>
      have hhead := hlists.location_head
      rw [UInt16.ofNat_toNat] at hhead
      exact (List.nodup_cons.mp hlists.nodup).1 (List.mem_map.mpr ⟨instruction, hmem, hhead.symm⟩)

theorem ne_of_wraps (hwraps : decoder.Wraps body routineEnd) :
    blocks.flatten.map Instruction.location ≠ body.toList := by
  intro heq
  obtain ⟨location, hmem, instruction, hdecoded, hstraight, hpast, _⟩ := hwraps
  obtain ⟨position, leader, hleader, hvisits⟩ := houtline.exists_visits hclosed hmem
  have hlocation := (placedAt_of_instruction? hdecoded).location_eq
  have hbefore : instruction.location.toNat + instruction.length <
      stopAt leaders routineEnd position := by
    rcases hvisits.step hdecoded hstraight (hclosed position leader hleader) with
      ⟨hlt, _⟩ | ⟨hstop, hwithin⟩
    · exact hlt
    · rw [hlocation] at hstop
      omega
  have hlt := (List.getElem?_eq_some_iff.mp hleader).1
  rw [← hdivides.length_eq] at hlt
  have hlists := hdivides.lists position leader _ hleader (List.getElem?_eq_getElem hlt)
  obtain ⟨next, hsublist, hnext⟩ :=
    hlists.next (hlists.mem_of_visits hvisits hdecoded) hstraight hbefore
  have hpair := (hsublist.trans (List.sublist_flatten_of_mem (List.getElem_mem hlt))).map
    Instruction.location
  rw [heq] at hpair
  have hless := List.rel_of_pairwise_cons
    ((AddressSet.pairwise_lt_toList body).sublist hpair) List.mem_cons_self
  rw [hnext, ← instruction.ofNat_counter, hlocation] at hless
  have hless : location.toNat < (UInt16.ofNat (location.toNat + instruction.length)).toNat :=
    hless
  rw [UInt16.toNat_ofNat'] at hless
  have hlength := instruction.length_le
  have hsmall := location.toNat_lt
  omega

theorem locations_of_not_wraps (hwraps : ¬decoder.Wraps body routineEnd) :
    blocks.flatten.map Instruction.location = body.toList := by
  refine List.Perm.eq_of_pairwise ?_ ?_ (AddressSet.pairwise_lt_toList body)
    (houtline.perm_locations hclosed hdivides)
  · intro first second _ _ hlt hgt
    exact absurd hlt (UInt16.lt_asymm hgt)
  rw [List.map_flatten, List.pairwise_flatten]
  constructor
  · intro locations hlocations
    obtain ⟨listed, hlisted, rfl⟩ := List.mem_map.mp hlocations
    obtain ⟨position, hposition⟩ := List.mem_iff_getElem?.mp hlisted
    obtain ⟨leader, hleader, hlists⟩ := exists_leader hdivides hposition
    exact (houtline.isBody.pairwise_lists hlists
      (UInt16.ofNat_toNat.symm ▸ houtline.leader_mem (List.mem_of_getElem? hleader))
      (Nat.le_of_lt_succ leader.toNat_lt) (stays_of_not_wraps hwraps leaders position)).1
  · rw [List.pairwise_map, List.pairwise_iff_getElem]
    intro first second hfirst hsecond hlt left hleft right hright
    obtain ⟨one, hone, rfl⟩ := List.mem_map.mp hleft
    obtain ⟨two, htwo, rfl⟩ := List.mem_map.mp hright
    obtain ⟨leader, hleader, hlists⟩ :=
      exists_leader hdivides (List.getElem?_eq_getElem hfirst)
    obtain ⟨other, hother, hlists'⟩ :=
      exists_leader hdivides (List.getElem?_eq_getElem hsecond)
    have hbelow := (houtline.le_of_visits hwraps hleader (hlists.visits hone)).2
    have habove := (houtline.le_of_visits hwraps hother (hlists'.visits htwo)).1
    show one.location.toNat < two.location.toNat
    rcases houtline.le_or_stop_le hleader (List.mem_of_getElem? hother) with hle | hle
    · exact absurd (houtline.lt_of_lt hleader hother hlt) (UInt16.not_lt.mpr hle)
    · omega

/-- The blocks have the instructions in ascending order, unless one wraps. -/
theorem locations_eq_iff :
    blocks.flatten.map Instruction.location = body.toList ↔ ¬decoder.Wraps body routineEnd :=
  ⟨fun heq hwraps => houtline.ne_of_wraps hclosed hdivides hwraps heq,
    houtline.locations_of_not_wraps hclosed hdivides⟩

end Outline

end Lift6502.Decoder
