import Lift6502.Proofs.ControlFlow

/-! Where the sweep over a block leads. It goes on from instruction to
instruction until one transfers control or the end of the block is reached.
Counters are not reduced to addresses, so they can pass the last address. -/

namespace Lift6502

theorem Instruction.ofNat_counter (instruction : Instruction) :
    UInt16.ofNat (instruction.location.toNat + instruction.length) = instruction.following := by
  unfold following
  rw [UInt16.ofNat_add, UInt16.ofNat_toNat]

namespace Decoder

variable {decoder : Decoder}

/-! Passing instructions -/

theorem Passes.append {address middle final : Address} {front back : List Instruction}
    (hfront : decoder.Passes address front middle) (hback : decoder.Passes middle back final) :
    decoder.Passes address (front ++ back) final := by
  induction hfront with
  | nil address => exact hback
  | cons hdecoded hstraight hrest ih => exact .cons hdecoded hstraight (ih hback)

/-- The addresses that control passes, and the one it comes to. -/
def route (instructions : List Instruction) (final : Address) : List Address :=
  instructions.map Instruction.location ++ [final]

theorem Passes.from_mem {address final stop : Address} {instructions : List Instruction}
    (hpasses : decoder.Passes address instructions final) (hmem : stop ∈ route instructions final) :
    ∃ rest, decoder.Passes stop rest final ∧
      (route rest final).Sublist (route instructions final) := by
  induction hpasses with
  | nil address =>
      have heq : stop = address := by simpa [route] using hmem
      subst heq
      exact ⟨[], .nil stop, List.Sublist.refl _⟩
  | cons hdecoded hstraight hrest ih =>
      rename_i address final instruction rest
      rcases List.mem_cons.mp hmem with rfl | hmem
      · refine ⟨instruction :: rest, .cons ?_ hstraight hrest, List.Sublist.refl _⟩
        rw [(placedAt_of_instruction? hdecoded).location_eq]
        exact hdecoded
      · obtain ⟨rest', hpasses', hsublist⟩ := ih hmem
        exact ⟨rest', hpasses', hsublist.cons _⟩

/-- A route can be chosen to come to no address twice. -/
theorem Passes.exists_nodup {address final : Address} {instructions : List Instruction}
    (hpasses : decoder.Passes address instructions final) :
    ∃ shorter, decoder.Passes address shorter final ∧ (route shorter final).Nodup := by
  induction hpasses with
  | nil address => exact ⟨[], .nil address, by simp [route]⟩
  | cons hdecoded hstraight hrest ih =>
      rename_i address final instruction rest
      obtain ⟨shorter, hshorter, hnodup⟩ := ih
      by_cases hmem : address ∈ route shorter final
      · obtain ⟨rest', hrest', hsublist⟩ := hshorter.from_mem hmem
        exact ⟨rest', hrest', hnodup.sublist hsublist⟩
      · refine ⟨instruction :: shorter, .cons hdecoded hstraight hshorter, ?_⟩
        have hlocation := (placedAt_of_instruction? hdecoded).location_eq
        exact List.nodup_cons.mpr ⟨hlocation ▸ hmem, hnodup⟩

theorem Passes.exists_short {address final : Address} {instructions : List Instruction}
    (hpasses : decoder.Passes address instructions final) :
    ∃ shorter, decoder.Passes address shorter final ∧ shorter.length < addressCount := by
  obtain ⟨shorter, hshorter, hnodup⟩ := hpasses.exists_nodup
  refine ⟨shorter, hshorter, ?_⟩
  have hlength := AddressSet.length_le_of_nodup hnodup
  unfold route at hlength
  rw [List.length_append, List.length_map, List.length_singleton] at hlength
  exact hlength

/-! Sweeps -/

/-- A sweep that ends its block at `stop` goes on over some instructions. The
counter and the address of the instruction before it are followed. -/
inductive Sweeps (decoder : Decoder) (stop : Nat) :
    Nat → Address → List Instruction → Nat → Address → Prop
  | nil (counter : Nat) (last : Address) : Sweeps decoder stop counter last [] counter last
  | cons {counter final : Nat} {last lastFinal : Address} {instruction : Instruction}
      {rest : List Instruction} (hbefore : counter < stop)
      (hdecoded : decoder.instruction? (UInt16.ofNat counter) = some instruction)
      (hstraight : instruction.transfers = false)
      (hrest : Sweeps decoder stop (instruction.location.toNat + instruction.length)
        instruction.location rest final lastFinal) :
      Sweeps decoder stop counter last (instruction :: rest) final lastFinal

variable {stop counter final : Nat} {last lastFinal : Address}
  {instructions : List Instruction}

theorem Sweeps.passes (hsweeps : decoder.Sweeps stop counter last instructions final lastFinal) :
    decoder.Passes (UInt16.ofNat counter) instructions (UInt16.ofNat final) := by
  induction hsweeps with
  | nil counter last => exact .nil _
  | cons hbefore hdecoded hstraight hrest ih =>
      rw [Instruction.ofNat_counter] at ih
      exact .cons hdecoded hstraight ih

theorem Sweeps.append {middle : Nat} {lastMiddle : Address} {front back : List Instruction}
    (hfront : decoder.Sweeps stop counter last front middle lastMiddle)
    (hback : decoder.Sweeps stop middle lastMiddle back final lastFinal) :
    decoder.Sweeps stop counter last (front ++ back) final lastFinal := by
  induction hfront with
  | nil counter last => exact hback
  | cons hbefore hdecoded hstraight hrest ih => exact .cons hbefore hdecoded hstraight (ih hback)

def Halts (decoder : Decoder) (stop counter : Nat) : Prop :=
  counter < stop → ∃ instruction, decoder.instruction? (UInt16.ofNat counter) = some instruction ∧
    instruction.transfers = true

/-- Of two sweeps from one counter, the one that has halted is the longer. -/
theorem Sweeps.rest {middle : Nat} {lastMiddle : Address} {front : List Instruction}
    (hfront : decoder.Sweeps stop counter last front middle lastMiddle)
    (hsweeps : decoder.Sweeps stop counter last instructions final lastFinal)
    (hhalts : decoder.Halts stop final) :
    ∃ back, decoder.Sweeps stop middle lastMiddle back final lastFinal ∧
      instructions = front ++ back := by
  induction hfront generalizing instructions with
  | nil counter last => exact ⟨instructions, hsweeps, rfl⟩
  | cons hbefore hdecoded hstraight hrest ih =>
      cases hsweeps with
      | nil =>
          obtain ⟨instruction, hfound, htransfers⟩ := hhalts hbefore
          cases hdecoded.symm.trans hfound
          exact absurd (htransfers.symm.trans hstraight) (by decide)
      | cons _ hfound _ hrest' =>
          cases hdecoded.symm.trans hfound
          obtain ⟨back, hback, rfl⟩ := ih hrest'
          exact ⟨back, hback, rfl⟩

theorem Sweeps.last_passed
    (hsweeps : decoder.Sweeps stop counter last instructions final lastFinal)
    (hmoved : instructions ≠ []) :
    ∃ instruction ∈ instructions, instruction.location = lastFinal ∧
      final = instruction.location.toNat + instruction.length := by
  induction hsweeps with
  | nil counter last => exact absurd rfl hmoved
  | cons hbefore hdecoded hstraight hrest ih =>
      rename_i instruction rest
      cases hrest with
      | nil => exact ⟨instruction, List.mem_cons_self, rfl, rfl⟩
      | cons hbefore' hdecoded' hstraight' hrest' =>
          obtain ⟨found, hfound, hrestFound⟩ := ih (List.cons_ne_nil _ _)
          exact ⟨found, List.mem_cons_of_mem _ hfound, hrestFound⟩

theorem Sweeps.split_of_mem
    (hsweeps : decoder.Sweeps stop counter last instructions final lastFinal)
    {instruction : Instruction} (hmem : instruction ∈ instructions) :
    ∃ front back middle lastMiddle,
      decoder.Sweeps stop counter last front middle lastMiddle ∧ middle < stop ∧
      decoder.instruction? (UInt16.ofNat middle) = some instruction ∧
      instruction.transfers = false ∧
      decoder.Sweeps stop (instruction.location.toNat + instruction.length)
        instruction.location back final lastFinal := by
  induction hsweeps with
  | nil counter last => cases hmem
  | cons hbefore hdecoded hstraight hrest ih =>
      rcases List.mem_cons.mp hmem with rfl | hmem
      · exact ⟨[], _, _, _, .nil _ _, hbefore, hdecoded, hstraight, hrest⟩
      · obtain ⟨front, back, middle, lastMiddle, hfront, hfound⟩ := ih hmem
        exact ⟨_ :: front, back, middle, lastMiddle, .cons hbefore hdecoded hstraight hfront,
          hfound⟩

/-! Sweeps within a body -/

variable {entry : Address} {body : AddressSet}

theorem IsBody.following_mem (hbody : decoder.IsBody entry body) {address : Address}
    {instruction : Instruction} (haddress : address ∈ body)
    (hdecoded : decoder.instruction? address = some instruction)
    (hstraight : instruction.transfers = false) : instruction.following ∈ body := by
  refine hbody.closed address haddress instruction hdecoded instruction.following ?_
  rw [Instruction.successors_of_not_transfers hstraight]
  exact List.mem_singleton_self _

theorem IsBody.mem_of_reaches (hbody : decoder.IsBody entry body) {address : Address}
    (hreaches : decoder.Reaches entry address) : address ∈ body := by
  induction hreaches with
  | entry => exact hbody.entry_mem
  | step hreaches hdecoded htarget ih => exact hbody.closed _ ih _ hdecoded _ htarget

theorem IsBody.mem_of_passes (hbody : decoder.IsBody entry body) {address last : Address}
    (hpasses : decoder.Passes address instructions last) (haddress : address ∈ body) :
    last ∈ body := by
  induction hpasses with
  | nil address => exact haddress
  | cons hdecoded hstraight hrest ih => exact ih (hbody.following_mem haddress hdecoded hstraight)

theorem IsBody.mem_of_sweeps (hbody : decoder.IsBody entry body)
    (hsweeps : decoder.Sweeps stop counter last instructions final lastFinal)
    (hcounter : UInt16.ofNat counter ∈ body) : UInt16.ofNat final ∈ body :=
  hbody.mem_of_passes hsweeps.passes hcounter

theorem IsBody.exists_sweep (hbody : decoder.IsBody entry body) (stop : Nat)
    (hstop : stop ≤ addressCount) (counter : Nat) (last : Address)
    (hcounter : UInt16.ofNat counter ∈ body) :
    ∃ instructions final lastFinal,
      decoder.Sweeps stop counter last instructions final lastFinal ∧
      decoder.Halts stop final ∧ instructions.length ≤ stop - counter := by
  -- A sweep that stops at an address comes to an end, as its counter only grows.
  by_cases hbefore : counter < stop
  · obtain ⟨instruction, hdecoded⟩ := hbody.decodes _ hcounter
    cases htransfers : instruction.transfers with
    | true =>
        exact ⟨[], counter, last, .nil _ _, fun _ => ⟨instruction, hdecoded, htransfers⟩,
          Nat.zero_le _⟩
    | false =>
        have hlocation := (placedAt_of_instruction? hdecoded).location_eq
        have htoNat : instruction.location.toNat = counter := by
          rw [hlocation]
          exact UInt16.toNat_ofNat_of_lt (Nat.lt_of_lt_of_le hbefore hstop)
        have hlength := instruction.length_pos
        have hnext : UInt16.ofNat (instruction.location.toNat + instruction.length) ∈ body := by
          rw [Instruction.ofNat_counter]
          exact hbody.following_mem hcounter hdecoded htransfers
        obtain ⟨rest, final, lastFinal, hrest, hhalts, hshort⟩ := hbody.exists_sweep stop hstop
          (instruction.location.toNat + instruction.length) instruction.location hnext
        refine ⟨instruction :: rest, final, lastFinal,
          .cons hbefore hdecoded htransfers hrest, hhalts, ?_⟩
        rw [List.length_cons]
        omega
  · exact ⟨[], counter, last, .nil _ _, fun hlt => absurd hlt hbefore, Nat.zero_le _⟩
termination_by stop - counter
decreasing_by omega

/-! Blocks of a routine -/

/-- The body of a routine with its leaders in ascending order, and the counter
past its highest instruction. -/
structure Outline (decoder : Decoder) (entry : Address) (body : AddressSet)
    (leaders : List Address) (routineEnd : Nat) : Prop where
  isBody : decoder.IsBody entry body
  sorted : leaders.Pairwise fun first second => first < second
  mem_iff : ∀ leader, leader ∈ leaders ↔ decoder.IsLeader entry body leader
  isEnd : ∃ highest instruction, highest ∈ body ∧ (∀ address ∈ body, address ≤ highest) ∧
    decoder.instruction? highest = some instruction ∧
    routineEnd = highest.toNat + instruction.length

/-- The counter at which the block of a leader ends. -/
def stopAt (leaders : List Address) (routineEnd position : Nat) : Nat :=
  match leaders[position + 1]? with
  | some next => next.toNat
  | none => routineEnd

/-- The sweep over a block ends in a transfer, or exactly where the block
ends. -/
def Closes (decoder : Decoder) (stop : Nat) (leader : Address) : Prop :=
  ∃ instructions final lastFinal,
    decoder.Sweeps stop leader.toNat leader instructions final lastFinal ∧
    decoder.Halts stop final ∧ (final < stop ∨ final = stop ∧ stop ≤ 0xFFFF)

/-- How a block ends is seen from any sweep over it that has halted. -/
theorem Sweeps.closes_iff {leader : Address}
    (hsweeps : decoder.Sweeps stop leader.toNat leader instructions final lastFinal)
    (hhalts : decoder.Halts stop final) :
    decoder.Closes stop leader ↔ final < stop ∨ final = stop ∧ stop ≤ 0xFFFF := by
  constructor
  · rintro ⟨closing, closed, lastClosed, hclosing, hhalts', hend⟩
    obtain ⟨back, hback, _⟩ := hsweeps.rest hclosing hhalts'
    cases hback with
    | nil => exact hend
    | cons hbefore hdecoded hstraight =>
        obtain ⟨instruction, hfound, htransfers⟩ := hhalts hbefore
        cases hdecoded.symm.trans hfound
        exact absurd (htransfers.symm.trans hstraight) (by decide)
  · exact fun hend => ⟨instructions, final, lastFinal, hsweeps, hhalts, hend⟩

def Visits (decoder : Decoder) (stop : Nat) (leader address : Address) : Prop :=
  ∃ instructions middle lastMiddle,
    decoder.Sweeps stop leader.toNat leader instructions middle lastMiddle ∧ middle < stop ∧
    UInt16.ofNat middle = address

/-- Behind an address that it visits, a closing block goes on or ends. -/
theorem Visits.step {leader address : Address} {instruction : Instruction}
    (hvisits : decoder.Visits stop leader address)
    (hdecoded : decoder.instruction? address = some instruction)
    (hstraight : instruction.transfers = false) (hcloses : decoder.Closes stop leader) :
    instruction.location.toNat + instruction.length < stop ∧
        decoder.Visits stop leader instruction.following ∨
      instruction.location.toNat + instruction.length = stop ∧ stop ≤ 0xFFFF := by
  obtain ⟨instructions, middle, lastMiddle, hsweeps, hbefore, rfl⟩ := hvisits
  have hnext := hsweeps.append (.cons hbefore hdecoded hstraight (.nil _ _))
  by_cases hlt : instruction.location.toNat + instruction.length < stop
  · exact .inl ⟨hlt, _, _, _, hnext, hlt, instruction.ofNat_counter⟩
  · obtain ⟨closing, final, lastFinal, hclosing, hhalts, hend⟩ := hcloses
    obtain ⟨back, hback, _⟩ := hnext.rest hclosing hhalts
    cases hback with
    | nil =>
        refine .inr ?_
        omega
    | cons hbefore' => exact absurd hbefore' hlt

namespace Outline

variable {leaders : List Address} {routineEnd : Nat}
  (houtline : decoder.Outline entry body leaders routineEnd)

include houtline

theorem leader_mem {leader : Address} (hleader : leader ∈ leaders) : leader ∈ body :=
  houtline.isBody.mem_of_isLeader ((houtline.mem_iff leader).mp hleader)

theorem target_mem {address target : Address} {instruction : Instruction}
    (haddress : address ∈ body) (hdecoded : decoder.instruction? address = some instruction)
    (hleader : target ∈ instruction.leaders) : target ∈ leaders :=
  (houtline.mem_iff target).mpr (.inr ⟨address, haddress, instruction, hdecoded, hleader⟩)

theorem lt_of_lt {first second : Nat} {low high : Address} (hlow : leaders[first]? = some low)
    (hhigh : leaders[second]? = some high) (hlt : first < second) : low < high := by
  obtain ⟨hfirst, rfl⟩ := List.getElem?_eq_some_iff.mp hlow
  obtain ⟨hsecond, rfl⟩ := List.getElem?_eq_some_iff.mp hhigh
  exact List.pairwise_iff_getElem.mp houtline.sorted first second hfirst hsecond hlt

omit houtline in
theorem stopAt_eq {position : Nat} (hposition : position + 1 < leaders.length) :
    ∃ next, leaders[position + 1]? = some next ∧
      stopAt leaders routineEnd position = next.toNat := by
  refine ⟨leaders[position + 1], List.getElem?_eq_getElem hposition, ?_⟩
  unfold stopAt
  rw [List.getElem?_eq_getElem hposition]

omit houtline in
theorem stopAt_last {position : Nat} (hlast : ¬position + 1 < leaders.length) :
    stopAt leaders routineEnd position = routineEnd := by
  unfold stopAt
  rw [List.getElem?_eq_none (Nat.le_of_not_lt hlast)]

theorem leader_lt_stop {position : Nat} {leader : Address}
    (hleader : leaders[position]? = some leader) :
    leader.toNat < stopAt leaders routineEnd position := by
  unfold stopAt
  cases hnext : leaders[position + 1]? with
  | some next => exact houtline.lt_of_lt hleader hnext (Nat.lt_succ_self _)
  | none =>
      obtain ⟨highest, instruction, _, hle, _, rfl⟩ := houtline.isEnd
      have hmem := houtline.leader_mem (List.mem_of_getElem? hleader)
      have hbound : leader.toNat ≤ highest.toNat := hle leader hmem
      have hlength := instruction.length_pos
      show leader.toNat < highest.toNat + instruction.length
      omega

theorem visits_leader {position : Nat} {leader : Address}
    (hleader : leaders[position]? = some leader) :
    decoder.Visits (stopAt leaders routineEnd position) leader leader :=
  ⟨[], leader.toNat, leader, .nil _ _, houtline.leader_lt_stop hleader, UInt16.ofNat_toNat⟩

/-- Blocks that close cover the body, except for what control passes from the
last leader on. -/
theorem covered {count : Nat} (hcount : leaders.length = count + 1)
    (hcloses : ∀ position leader, position < count → leaders[position]? = some leader →
      decoder.Closes (stopAt leaders routineEnd position) leader)
    {address : Address} (haddress : address ∈ body) :
    (∃ position leader, position < count ∧ leaders[position]? = some leader ∧
        decoder.Visits (stopAt leaders routineEnd position) leader address) ∨
      ∃ leader instructions, leaders[count]? = some leader ∧
        decoder.Passes leader instructions address := by
  have hcovered : ∀ leader ∈ leaders,
      (∃ position first, position < count ∧ leaders[position]? = some first ∧
        decoder.Visits (stopAt leaders routineEnd position) first leader) ∨
      ∃ first instructions, leaders[count]? = some first ∧
        decoder.Passes first instructions leader := by
    intro leader hleader
    obtain ⟨position, hposition⟩ := List.mem_iff_getElem?.mp hleader
    have hlt := (List.getElem?_eq_some_iff.mp hposition).1
    by_cases hlast : position = count
    · subst hlast
      exact .inr ⟨leader, [], hposition, .nil leader⟩
    · exact .inl ⟨position, leader, by omega, hposition, houtline.visits_leader hposition⟩
  have hreached := houtline.isBody.reached address haddress
  induction hreached with
  | entry => exact hcovered entry ((houtline.mem_iff entry).mpr (.inl rfl))
  | step hreaches hdecoded htarget ih =>
      rename_i address target instruction
      have hmem := houtline.isBody.mem_of_reaches hreaches
      cases htransfers : instruction.transfers with
      | true =>
          exact hcovered target (houtline.target_mem hmem hdecoded
            (Instruction.successors_subset_leaders_of_transfers htransfers htarget))
      | false =>
          rw [Instruction.successors_of_not_transfers htransfers, List.mem_singleton] at htarget
          rcases ih hmem with ⟨position, leader, hposition, hleader, hvisits⟩ |
            ⟨leader, instructions, hleader, hpasses⟩
          · rcases hvisits.step hdecoded htransfers
              (hcloses position leader hposition hleader) with ⟨_, hvisits⟩ | ⟨hstop, _⟩
            · rw [htarget]
              exact .inl ⟨position, leader, hposition, hleader, hvisits⟩
            · obtain ⟨next, hnext, hstopAt⟩ := stopAt_eq
                (show position + 1 < leaders.length by omega)
              rw [htarget, ← instruction.ofNat_counter, hstop, hstopAt, UInt16.ofNat_toNat]
              exact hcovered next (List.mem_of_getElem? hnext)
          · rw [htarget]
            exact .inr ⟨leader, _, hleader, hpasses.append (.cons hdecoded htransfers (.nil _))⟩

end Outline

end Decoder

end Lift6502
