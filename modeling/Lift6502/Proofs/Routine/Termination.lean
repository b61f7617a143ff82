import Lift6502.Proofs.Reachability
import Lift6502.Proofs.Routine.Outcome
import Lift6502.Proofs.Routine.Partition

/-! The sweeps that are made when a routine is lifted come to an end by
themselves. A sweep can pass the last address and go on from the first, so its
counter need not grow; but no sweep decodes an address twice. -/

namespace Lift6502.Decoder

open Ssa Session

/-! Sweeps without a bound -/

section Model

variable (decoder : Decoder) (platform : Platform) (sites : Sites)

/-- The sweep as a loop with no bound on its turns. The addresses that are
decoded are listed in their order. -/
inductive SweepRuns (entry : Address) (stop : Nat) :
    Nat → Address → Frame → Journal → List Address → EStateM.Result LiftError Journal Frame → Prop
  | falls {counter : Nat} {last : Address} {frame : Frame} {journal : Journal}
      (hstop : ¬counter < stop) :
      SweepRuns entry stop counter last frame journal []
        (leave sites entry stop counter last frame journal)
  | fails {counter : Nat} {last : Address} {frame : Frame} {journal journal' : Journal}
      {error : LiftError} (hbefore : counter < stop)
      (hturn : decoder.turn platform sites (UInt16.ofNat counter) frame journal =
        .error error journal') :
      SweepRuns entry stop counter last frame journal [UInt16.ofNat counter]
        (.error error journal')
  | transfers {counter : Nat} {last : Address} {frame frame' : Frame}
      {journal journal' : Journal} {instruction : Instruction} (hbefore : counter < stop)
      (hturn : decoder.turn platform sites (UInt16.ofNat counter) frame journal =
        .ok (instruction, frame') journal')
      (htransfers : instruction.transfers = true) :
      SweepRuns entry stop counter last frame journal [UInt16.ofNat counter] (.ok frame' journal')
  | goesOn {counter : Nat} {last : Address} {frame frame' : Frame} {journal journal' : Journal}
      {instruction : Instruction} {decoded : List Address}
      {result : EStateM.Result LiftError Journal Frame} (hbefore : counter < stop)
      (hturn : decoder.turn platform sites (UInt16.ofNat counter) frame journal =
        .ok (instruction, frame') journal')
      (hstraight : instruction.transfers = false)
      (hrest : SweepRuns entry stop (instruction.location.toNat + instruction.length)
        instruction.location frame' journal' decoded result) :
      SweepRuns entry stop counter last frame journal (UInt16.ofNat counter :: decoded) result

/-- The start of the block behind some blocks that are left. -/
def nextStart (routineEnd : Nat) : List (Address × Site) → Nat
  | (next, _) :: _ => next.toNat
  | [] => routineEnd

/-- The blocks one after another, each by a sweep with no bound, up to the
first that fails. -/
inductive BlockRuns (entry : Address) (routineEnd : Nat) :
    List (Address × Site) → Function → Journal → List (List Address) →
      EStateM.Result LiftError Journal Function → Prop
  | done (function : Function) (journal : Journal) :
      BlockRuns entry routineEnd [] function journal [] (.ok function journal)
  | fails {address : Address} {site : Site} {rest : List (Address × Site)} {function : Function}
      {journal journal' : Journal} {decoded : List Address} {error : LiftError}
      (hsweep : decoder.SweepRuns platform sites entry (nextStart routineEnd rest) address.toNat
        address ⟨function, site.block, site.registers.values⟩ journal decoded
        (.error error journal')) :
      BlockRuns entry routineEnd ((address, site) :: rest) function journal [decoded]
        (.error error journal')
  | next {address : Address} {site : Site} {rest : List (Address × Site)} {function : Function}
      {frame : Frame} {journal journal' : Journal} {decoded : List Address}
      {sweeps : List (List Address)} {result : EStateM.Result LiftError Journal Function}
      (hsweep : decoder.SweepRuns platform sites entry (nextStart routineEnd rest) address.toNat
        address ⟨function, site.block, site.registers.values⟩ journal decoded
        (.ok frame journal'))
      (hrest : BlockRuns entry routineEnd rest frame.function journal' sweeps result) :
      BlockRuns entry routineEnd ((address, site) :: rest) function journal (decoded :: sweeps)
        result

end Model

variable {decoder : Decoder} {platform : Platform} {sites : Sites} {entry : Address}
  {stop counter : Nat} {last : Address} {frame : Frame} {journal : Journal}

section Sweep

variable {decoded : List Address} {result : EStateM.Result LiftError Journal Frame}

/-- A bound that the turns do not exceed makes no difference. -/
theorem SweepRuns.sweep_eq
    (hruns : decoder.SweepRuns platform sites entry stop counter last frame journal decoded result)
    {steps : Nat} (hsteps : decoded.length ≤ steps) :
    decoder.sweep platform sites entry stop steps counter last frame journal = result := by
  induction hruns generalizing steps with
  | falls hstop => rw [sweep_of_stop hstop]
  | fails hbefore hturn =>
      obtain ⟨steps, rfl⟩ := Nat.exists_eq_add_one.mpr hsteps
      rw [sweep_of_lt hbefore, bind_run_error hturn]
  | transfers hbefore hturn htransfers =>
      obtain ⟨steps, rfl⟩ := Nat.exists_eq_add_one.mpr hsteps
      rw [sweep_of_lt hbefore, bind_run_ok hturn]
      simp only [htransfers, if_true]
      rfl
  | goesOn hbefore hturn hstraight hrest ih =>
      obtain ⟨steps, rfl⟩ := Nat.exists_eq_add_one.mpr (Nat.zero_lt_of_lt hsteps)
      rw [sweep_of_lt hbefore, bind_run_ok hturn]
      simp only [hstraight, Bool.false_eq_true, if_false]
      exact ih (Nat.le_of_succ_le_succ hsteps)

theorem SweepRuns.unique {other : List Address} {result' : EStateM.Result LiftError Journal Frame}
    (hruns : decoder.SweepRuns platform sites entry stop counter last frame journal decoded result)
    (hother : decoder.SweepRuns platform sites entry stop counter last frame journal other
      result') : other = decoded ∧ result' = result := by
  induction hruns generalizing other with
  | falls hstop =>
      cases hother with
      | falls => exact ⟨rfl, rfl⟩
      | fails hbefore | transfers hbefore | goesOn hbefore => exact absurd hbefore hstop
  | fails hbefore hturn =>
      cases hother with
      | falls hstop => exact absurd hbefore hstop
      | fails _ hturn' =>
          cases hturn.symm.trans hturn'
          exact ⟨rfl, rfl⟩
      | transfers _ hturn' | goesOn _ hturn' => cases hturn.symm.trans hturn'
  | transfers hbefore hturn htransfers =>
      cases hother with
      | falls hstop => exact absurd hbefore hstop
      | fails _ hturn' => cases hturn.symm.trans hturn'
      | transfers _ hturn' =>
          cases hturn.symm.trans hturn'
          exact ⟨rfl, rfl⟩
      | goesOn _ hturn' hstraight =>
          cases hturn.symm.trans hturn'
          cases htransfers.symm.trans hstraight
  | goesOn hbefore hturn hstraight hrest ih =>
      cases hother with
      | falls hstop => exact absurd hbefore hstop
      | fails _ hturn' => cases hturn.symm.trans hturn'
      | transfers _ hturn' htransfers =>
          cases hturn.symm.trans hturn'
          cases htransfers.symm.trans hstraight
      | goesOn _ hturn' _ hrest' =>
          cases hturn.symm.trans hturn'
          obtain ⟨rfl, rfl⟩ := ih hrest'
          exact ⟨rfl, rfl⟩

theorem instruction?_of_turn {address : Address} {instruction : Instruction} {frame' : Frame}
    {journal' : Journal}
    (hturn : decoder.turn platform sites address frame journal =
      .ok (instruction, frame') journal') :
    decoder.instruction? address = some instruction := by
  obtain ⟨found, middle, hdecode, hrest⟩ := exists_of_bind_ok hturn
  obtain ⟨_, noted, _, hrest⟩ := exists_of_bind_ok hrest
  obtain ⟨_, _, _, hpure⟩ := exists_of_bind_ok hrest
  cases hpure
  exact instruction?_of_decode (ok_of_adaptExcept hdecode)

/-- If the instructions of a block can be listed, the sweep over it comes to
an end, and it decodes no others. It may fail before the last of them. -/
theorem Lists.exists_sweepRuns {listed : List Instruction}
    (hlists : decoder.Lists stop counter listed) (last : Address) (frame : Frame)
    (journal : Journal) :
    ∃ decoded result,
      decoder.SweepRuns platform sites entry stop counter last frame journal decoded result ∧
      decoded <+: listed.map Instruction.location := by
  induction hlists generalizing last frame journal with
  | stop hstop => exact ⟨[], _, .falls hstop, List.nil_prefix⟩
  | transfer hbefore hdecoded htransfers =>
      rename_i counter instruction
      have hlocation := (placedAt_of_instruction? hdecoded).location_eq
      have hprefix : [UInt16.ofNat counter] <+: [instruction].map Instruction.location := by
        simp [hlocation]
      cases hturn : decoder.turn platform sites (UInt16.ofNat counter) frame journal with
      | error error journal' => exact ⟨_, _, .fails hbefore hturn, hprefix⟩
      | ok reached journal' =>
          cases hdecoded.symm.trans (instruction?_of_turn hturn)
          exact ⟨_, _, .transfers hbefore hturn htransfers, hprefix⟩
  | straight hbefore hdecoded hstraight hrest ih =>
      rename_i counter instruction rest
      have hlocation := (placedAt_of_instruction? hdecoded).location_eq
      rw [List.map_cons, hlocation]
      cases hturn : decoder.turn platform sites (UInt16.ofNat counter) frame journal with
      | error error journal' =>
          exact ⟨_, _, .fails hbefore hturn, List.prefix_append [UInt16.ofNat counter] _⟩
      | ok reached journal' =>
          cases hdecoded.symm.trans (instruction?_of_turn hturn)
          obtain ⟨decoded, result, hruns, hprefix⟩ := ih reached.1.location reached.2 journal'
          exact ⟨_, result, .goesOn hbefore hturn hstraight hruns,
            (List.prefix_cons_inj _).mpr hprefix⟩

theorem of_leave {frame' : Frame} {journal' : Journal}
    (hleave : leave sites entry stop counter last frame journal = .ok frame' journal') :
    counter = stop ∧ stop ≤ 0xFFFF := by
  obtain ⟨reached, middle, hfalls, _⟩ := exists_of_bind_ok hleave
  cases hresult : fallThrough sites entry stop counter last frame with
  | error error =>
      rw [hresult] at hfalls
      cases hfalls
  | ok reached =>
      unfold fallThrough at hresult
      split at hresult
      · cases hresult
      · split at hresult
        · cases hresult
        · omega

theorem SweepRuns.exists_sweeps
    (hruns : decoder.SweepRuns platform sites entry stop counter last frame journal decoded result)
    {frame' : Frame} {journal' : Journal} (hok : result = .ok frame' journal') :
    ∃ instructions final lastFinal,
      decoder.Sweeps stop counter last instructions final lastFinal ∧ decoder.Halts stop final ∧
      (final < stop ∨ final = stop ∧ stop ≤ 0xFFFF) := by
  induction hruns with
  | falls hstop =>
      exact ⟨[], _, _, .nil _ _, fun hbefore => absurd hbefore hstop, .inr (of_leave hok)⟩
  | fails => cases hok
  | transfers hbefore hturn htransfers =>
      exact ⟨[], _, _, .nil _ _, fun _ => ⟨_, instruction?_of_turn hturn, htransfers⟩,
        .inl hbefore⟩
  | goesOn hbefore hturn hstraight hrest ih =>
      obtain ⟨instructions, final, lastFinal, hsweeps, hend⟩ := ih hok
      exact ⟨_, final, lastFinal, .cons hbefore (instruction?_of_turn hturn) hstraight hsweeps,
        hend⟩

theorem SweepRuns.first {frame' : Frame} {journal' : Journal} {instruction : Instruction}
    (hruns : decoder.SweepRuns platform sites entry stop counter last frame journal decoded
      (.ok frame' journal'))
    (hbefore : counter < stop)
    (hdecoded : decoder.instruction? (UInt16.ofNat counter) = some instruction)
    (hstraight : instruction.transfers = false) :
    ∃ rest frame₁ journal₁, decoded = UInt16.ofNat counter :: rest ∧
      decoder.SweepRuns platform sites entry stop
        (instruction.location.toNat + instruction.length) instruction.location frame₁ journal₁
        rest (.ok frame' journal') := by
  generalize hresult : EStateM.Result.ok frame' journal' = result at hruns
  cases hruns with
  | falls hstop => exact absurd hbefore hstop
  | fails => cases hresult
  | transfers _ hturn htransfers =>
      cases hdecoded.symm.trans (instruction?_of_turn hturn)
      cases hstraight.symm.trans htransfers
  | goesOn _ hturn _ hrest =>
      cases hdecoded.symm.trans (instruction?_of_turn hturn)
      exact ⟨_, _, _, rfl, hrest⟩

end Sweep

/-! All blocks -/

section Blocks

variable {routineEnd : Nat} {blocks : List (Address × Site)} {function : Function}
  {sweeps : List (List Address)} {result : EStateM.Result LiftError Journal Function}

theorem lowerBlocks_cons (address : Address) (site : Site) (rest : List (Address × Site))
    (function : Function) :
    decoder.lowerBlocks platform sites entry routineEnd ((address, site) :: rest) function =
      decoder.sweep platform sites entry (nextStart routineEnd rest) addressCount address.toNat
        address ⟨function, site.block, site.registers.values⟩ >>= fun frame =>
          decoder.lowerBlocks platform sites entry routineEnd rest frame.function := by
  cases rest <;> rfl

theorem BlockRuns.lowerBlocks_eq
    (hruns : decoder.BlockRuns platform sites entry routineEnd blocks function journal sweeps
      result)
    (hshort : ∀ decoded ∈ sweeps, decoded.length ≤ addressCount) :
    decoder.lowerBlocks platform sites entry routineEnd blocks function journal = result := by
  induction hruns with
  | done => rfl
  | fails hsweep =>
      rw [lowerBlocks_cons]
      exact bind_run_error (hsweep.sweep_eq (hshort _ List.mem_cons_self))
  | next hsweep hrest ih =>
      rw [lowerBlocks_cons, bind_run_ok (hsweep.sweep_eq (hshort _ List.mem_cons_self))]
      exact ih fun decoded hdecoded => hshort decoded (List.mem_cons_of_mem _ hdecoded)

theorem BlockRuns.unique {others : List (List Address)}
    {result' : EStateM.Result LiftError Journal Function}
    (hruns : decoder.BlockRuns platform sites entry routineEnd blocks function journal sweeps
      result)
    (hothers : decoder.BlockRuns platform sites entry routineEnd blocks function journal others
      result') : others = sweeps ∧ result' = result := by
  induction hruns generalizing others with
  | done =>
      cases hothers
      exact ⟨rfl, rfl⟩
  | fails hsweep =>
      cases hothers with
      | fails hsweep' =>
          obtain ⟨rfl, heq⟩ := hsweep.unique hsweep'
          cases heq
          exact ⟨rfl, rfl⟩
      | next hsweep' => cases (hsweep.unique hsweep').2
  | next hsweep hrest ih =>
      cases hothers with
      | fails hsweep' => cases (hsweep.unique hsweep').2
      | next hsweep' hrest' =>
          obtain ⟨rfl, heq⟩ := hsweep.unique hsweep'
          cases heq
          obtain ⟨rfl, rfl⟩ := ih hrest'
          exact ⟨rfl, rfl⟩

variable {body : AddressSet} {leaders : List Address}

/-- The sweep over a block ends by itself if the blocks before it close. -/
theorem Outline.exists_sweepRuns (houtline : decoder.Outline entry body leaders routineEnd)
    {position : Nat} {leader : Address} (hleader : leaders[position]? = some leader)
    (hcloses : ∀ before earlier, before < position → leaders[before]? = some earlier →
      decoder.Closes (stopAt leaders routineEnd before) earlier)
    (frame : Frame) (journal : Journal) :
    ∃ decoded result, decoder.SweepRuns platform sites entry (stopAt leaders routineEnd position)
      leader.toNat leader frame journal decoded result ∧ decoded.Nodup := by
  obtain ⟨instructions, final, lastFinal, hsweeps, hhalts, _⟩ :=
    houtline.exists_sweep hleader hcloses
  have hrest : ∃ rest, decoder.Lists (stopAt leaders routineEnd position) final rest := by
    by_cases hbefore : final < stopAt leaders routineEnd position
    · obtain ⟨instruction, hdecoded, htransfers⟩ := hhalts hbefore
      exact ⟨[instruction], .transfer hbefore hdecoded htransfers⟩
    · exact ⟨[], .stop hbefore⟩
  obtain ⟨rest, hrest⟩ := hrest
  have hlists := hsweeps.lists hrest
  obtain ⟨decoded, result, hruns, hprefix⟩ := hlists.exists_sweepRuns leader frame journal
  exact ⟨decoded, result, hruns, hlists.nodup.sublist hprefix.sublist⟩

theorem Outline.exists_blockRuns (houtline : decoder.Outline entry body leaders routineEnd)
    (platform : Platform) (sites : Sites) {position : Nat} {rest : List Address}
    (hdrop : leaders.drop position = rest)
    (hcloses : ∀ before earlier, before < position → leaders[before]? = some earlier →
      decoder.Closes (stopAt leaders routineEnd before) earlier)
    (function : Function) (journal : Journal) :
    ∃ sweeps result, decoder.BlockRuns platform sites entry routineEnd
      (Draft.sitesFrom position rest) function journal sweeps result ∧
      ∀ decoded ∈ sweeps, decoded.Nodup := by
  induction rest generalizing position function journal with
  | nil =>
      refine ⟨[], _, .done function journal, fun decoded hdecoded => ?_⟩
      cases hdecoded
  | cons leader tail ih =>
      obtain ⟨hleader, htail⟩ := head_of_drop hdrop
      have hstop : nextStart routineEnd (Draft.sitesFrom (position + 1) tail) =
          stopAt leaders routineEnd position := by
        rw [← stopAt_of_drop routineEnd hdrop]
        cases tail <;> rfl
      obtain ⟨decoded, result, hruns, hnodup⟩ := houtline.exists_sweepRuns hleader hcloses
        ⟨function, (Draft.site position).block, (Draft.site position).registers.values⟩ journal
      rw [← hstop] at hruns
      cases result with
      | error error journal' =>
          refine ⟨[decoded], _, .fails hruns, fun other hother => ?_⟩
          cases List.mem_singleton.mp hother
          exact hnodup
      | ok frame journal' =>
          -- A sweep that succeeds has closed its block, and the sweeps behind it need that.
          have hclosed := hruns.exists_sweeps rfl
          rw [hstop] at hclosed
          obtain ⟨sweeps, result, hrest, hall⟩ := ih htail
            (closes_before_succ hleader hcloses hclosed) frame.function journal'
          refine ⟨decoded :: sweeps, result, .next hruns hrest, fun other hother => ?_⟩
          rcases List.mem_cons.mp hother with rfl | hother
          · exact hnodup
          · exact hall other hother

end Blocks

/-! What is prepared -/

theorem outline_of_prepared {linkage : Linkage} {routineEnd : Nat} {function : Function}
    {middle : Journal}
    (hprepared : decoder.prepared entry linkage journal =
      .ok (sites, routineEnd, function) middle) :
    ∃ body leaders, decoder.Outline entry body leaders routineEnd ∧
      sites = Draft.sites leaders := by
  obtain ⟨body, _, hbody, _⟩ := exists_of_bind_ok hprepared
  have hrun := ok_of_adaptExcept hbody
  obtain ⟨leaders, ended, hleaders, hend, houtline⟩ := (isBody_of_body hrun).exists_outline
  obtain ⟨position, _, hgives⟩ := houtline.prepared_gives
    ((body_steady decoder entry).gives_of_ok hrun) hleaders hend linkage
  cases hgives.of_ok hprepared
  exact ⟨body, leaders.toList, houtline, rfl⟩

/-! Code that goes round -/

/-- Code that fills the address space. Control goes on from 0xFFFE to the first
address and over all the others to a jump at 0xFFFF, which leads back. -/
def circular : Decoder where
  space :=
    { read := fun address =>
        if address = 0x0000 then 0xFE
        else if address = 0x0001 then 0xFF
        else if address < 0xFFFD then 0xEA
        else if address < 0xFFFF then 0xA9
        else 0x4C
      backed := fun _ => true }

namespace circular

theorem instruction?_nop {address : Address} (hlow : 1 < address) (hhigh : address < 0xFFFD) :
    circular.instruction? address = some ⟨address, .nop, none, none⟩ := by
  have hread : circular.space.read address = 0xEA := by
    show (if _ then _ else _) = _
    rw [if_neg (by grind), if_neg (by grind), if_pos hhigh]
  have hbyte : circular.byte address address = pure 0xEA := by
    unfold byte
    rw [hread]
    rfl
  unfold instruction? decode
  rw [hbyte, pure_bind]
  rfl

theorem instruction?_load :
    circular.instruction? 0xFFFE = some ⟨0xFFFE, .lda, some (.immediate 0x4C), none⟩ :=
  rfl

theorem instruction?_increment :
    circular.instruction? 0x0000 = some ⟨0x0000, .inc, some (.absoluteX 0xEAFF), none⟩ :=
  rfl

theorem instruction?_skip :
    circular.instruction? 0xFFFD = some ⟨0xFFFD, .lda, some (.immediate 0xA9), none⟩ :=
  rfl

theorem instruction?_jump :
    circular.instruction? 0xFFFF = some ⟨0xFFFF, .jmp, some (.absolute 0xFFFE), none⟩ :=
  rfl

theorem sweeps_nops (count : Nat) (hcount : count ≤ 0xFFFA) (last : Address) :
    ∃ instructions lastFinal, circular.Sweeps 0x10002 (0xFFFD - count) last instructions 0xFFFD
      lastFinal := by
  induction count generalizing last with
  | zero => exact ⟨[], last, .nil _ _⟩
  | succ count ih =>
      have hsmall : 0xFFFD - (count + 1) < 65536 := by omega
      generalize hcounter : 0xFFFD - (count + 1) = counter at hsmall ⊢
      have htoNat : (UInt16.ofNat counter).toNat = counter := UInt16.toNat_ofNat_of_lt' hsmall
      have hlow : 1 < UInt16.ofNat counter := by
        rw [UInt16.lt_iff_toNat_lt, htoNat]
        show 1 < counter
        omega
      have hhigh : UInt16.ofNat counter < 0xFFFD := by
        rw [UInt16.lt_iff_toNat_lt, htoNat]
        show counter < 0xFFFD
        omega
      obtain ⟨instructions, lastFinal, hsweeps⟩ := ih (by omega) (UInt16.ofNat counter)
      refine ⟨_ :: instructions, lastFinal, .cons (by omega) (instruction?_nop hlow hhigh) rfl ?_⟩
      have hnext : 0xFFFD - count = (UInt16.ofNat counter).toNat + 1 := by omega
      rw [hnext] at hsweeps
      exact hsweeps

theorem exists_sweeps : ∃ instructions lastFinal,
    circular.Sweeps 0x10002 0xFFFE 0xFFFE instructions 0xFFFF lastFinal := by
  obtain ⟨instructions, lastFinal, hnops⟩ := sweeps_nops 0xFFFA (Nat.le_refl _) 0x0000
  have hskip : circular.Sweeps 0x10002 0xFFFD lastFinal [_] 0xFFFF 0xFFFD :=
    .cons (by decide) instruction?_skip rfl (.nil _ _)
  have hlow : circular.Sweeps 0x10002 0x10000 0xFFFE _ 0xFFFF 0xFFFD :=
    .cons (by decide) instruction?_increment rfl (hnops.append hskip)
  exact ⟨_, _, .cons (by decide) instruction?_load rfl hlow⟩

theorem exists_instruction {address : Address} (hother : address ≠ 1) :
    ∃ instruction next, circular.instruction? address = some instruction ∧
      instruction.successors = [next] ∧ next ≠ 1 ∧ instruction.leaders ⊆ [0xFFFE] := by
  by_cases hfirst : address = 0x0000
  · subst hfirst
    exact ⟨_, 0x0003, instruction?_increment, rfl, by decide, List.nil_subset _⟩
  by_cases hskip : address = 0xFFFD
  · subst hskip
    exact ⟨_, 0xFFFF, instruction?_skip, rfl, by decide, List.nil_subset _⟩
  by_cases hload : address = 0xFFFE
  · subst hload
    exact ⟨_, 0x0000, instruction?_load, rfl, by decide, List.nil_subset _⟩
  by_cases hjump : address = 0xFFFF
  · subst hjump
    exact ⟨_, 0xFFFE, instruction?_jump, rfl, by decide, List.Subset.refl _⟩
  refine ⟨_, address + 1, instruction?_nop (by grind) (by grind), rfl, ?_, List.nil_subset _⟩
  show address + 1 ≠ 0 + 1
  exact fun heq => hfirst ((UInt16.add_left_inj 1).mp heq)

theorem ne_one_of_reaches {address : Address} (hreaches : circular.Reaches 0xFFFE address) :
    address ≠ 1 := by
  induction hreaches with
  | entry => decide
  | step hreaches hdecoded htarget ih =>
      obtain ⟨instruction, next, hfound, hsuccessors, hnext, _⟩ := exists_instruction ih
      cases hdecoded.symm.trans hfound
      rw [hsuccessors] at htarget
      cases List.mem_singleton.mp htarget
      exact hnext

theorem exists_body : ∃ body, (circular.body 0xFFFE).Gives (.ok body) := by
  have hgives := (body_steady circular 0xFFFE).of_outcome
  cases houtcome : (circular.body 0xFFFE).outcome {} with
  | ok body => exact ⟨body, houtcome ▸ hgives⟩
  | error error =>
      obtain ⟨address, hreaches, hfails⟩ := reaches_of_body_error houtcome
      obtain ⟨instruction, _, hfound, _⟩ := exists_instruction (ne_one_of_reaches hreaches)
      cases (instruction?_eq_some_iff.mp hfound).symm.trans hfails

theorem eq_of_outline {body : AddressSet} {leaders : List Address} {routineEnd : Nat}
    (houtline : circular.Outline 0xFFFE body leaders routineEnd) :
    leaders = [0xFFFE] ∧ routineEnd = 0x10002 := by
  constructor
  · apply houtline.sorted.eq_of_mem_iff (List.pairwise_singleton _ _)
    intro leader
    rw [houtline.mem_iff, List.mem_singleton]
    constructor
    · rintro (rfl | ⟨address, haddress, instruction, hdecoded, hleader⟩)
      · rfl
      · have hreaches := houtline.isBody.reached address haddress
        obtain ⟨found, _, hfound, _, _, hleaders⟩ :=
          exists_instruction (ne_one_of_reaches hreaches)
        cases hdecoded.symm.trans hfound
        exact List.mem_singleton.mp (hleaders hleader)
    · exact .inl
  · obtain ⟨instructions, lastFinal, hsweeps⟩ := exists_sweeps
    have hlast := houtline.isBody.mem_of_sweeps hsweeps houtline.isBody.entry_mem
    obtain ⟨highest, instruction, _, hhighest, hdecoded, rfl⟩ := houtline.isEnd
    have hle : 0xFFFF ≤ highest.toNat := hhighest _ hlast
    have hlt := highest.toNat_lt
    have hsame : highest = 0xFFFF := by
      apply UInt16.toNat.inj
      show highest.toNat = 0xFFFF
      omega
    subst hsame
    cases hdecoded.symm.trans instruction?_jump
    rfl

theorem closed : circular.Closed [0xFFFE] 0x10002 := by
  intro position leader hleader
  obtain ⟨instructions, lastFinal, hsweeps⟩ := exists_sweeps
  cases position with
  | zero =>
      cases hleader
      exact ⟨instructions, _, lastFinal, hsweeps, fun _ => ⟨_, instruction?_jump, rfl⟩,
        .inl (by decide)⟩
  | succ position => cases hleader

end circular

/-! Routines -/

/-- Every sweep that is made when a routine is lifted ends by itself: it
decodes no address twice, and so it takes at most as many turns as there are
addresses. Lifting with bounded sweeps comes to the same as with unbounded
ones. -/
theorem sweeps_terminate (decoder : Decoder) (platform : Platform) (entry : Address)
    (linkage : Linkage) (journal : Journal) :
    (∃ error middle, decoder.prepared entry linkage journal = .error error middle ∧
      decoder.liftRoutine platform entry linkage journal = .error error middle) ∨
    ∃ sites routineEnd function middle sweeps result,
      decoder.prepared entry linkage journal = .ok (sites, routineEnd, function) middle ∧
      (∀ found result', decoder.BlockRuns platform sites entry routineEnd sites.toList function
        middle found result' ↔ found = sweeps ∧ result' = result) ∧
      (∀ decoded ∈ sweeps, decoded.Nodup ∧ decoded.length ≤ addressCount) ∧
      decoder.lowerBlocks platform sites entry routineEnd sites.toList function middle = result ∧
      decoder.liftRoutine platform entry linkage journal =
        (decoder.lowerBlocks platform sites entry routineEnd sites.toList function >>=
          assembled) middle := by
  rw [liftRoutine_eq]
  cases hprepared : decoder.prepared entry linkage journal with
  | error error middle => exact .inl ⟨error, middle, rfl, bind_run_error hprepared⟩
  | ok reached middle =>
      obtain ⟨sites, routineEnd, function⟩ := reached
      obtain ⟨body, leaders, houtline, rfl⟩ := outline_of_prepared hprepared
      obtain ⟨sweeps, result, hruns, hnodup⟩ :=
        houtline.exists_blockRuns platform (Draft.sites leaders) List.drop_zero
          (fun before earlier hbefore => absurd hbefore (Nat.not_lt_zero _)) function middle
      rw [← Draft.toList_sites houtline.sorted] at hruns
      have hshort : ∀ decoded ∈ sweeps, decoded.length ≤ addressCount := fun decoded hdecoded =>
        AddressSet.length_le_of_nodup (hnodup decoded hdecoded)
      refine .inr ⟨_, routineEnd, function, middle, sweeps, result, rfl, ?_, ?_,
        hruns.lowerBlocks_eq hshort, bind_run_ok hprepared⟩
      · intro found result'
        refine ⟨hruns.unique, ?_⟩
        rintro ⟨rfl, rfl⟩
        exact hruns
      · exact fun decoded hdecoded => ⟨hnodup decoded hdecoded, hshort decoded hdecoded⟩

theorem sweeps_terminate_circular : ∃ sites function middle decoded result,
    circular.prepared 0xFFFE .external {} = .ok (sites, 0x10002, function) middle ∧
    circular.BlockRuns .flat sites 0xFFFE 0x10002 sites.toList function middle [decoded] result ∧
    decoded.Nodup ∧ decoded.length ≤ addressCount ∧ [0xFFFE, 0x0000] <+: decoded := by
  obtain ⟨body, hbody⟩ := circular.exists_body
  obtain ⟨_, hrun⟩ := outcome_eq_ok_iff.mp (hbody {})
  obtain ⟨leaders, routineEnd, _, _, houtline, hlifted⟩ :=
    (isBody_of_body hrun).liftRoutine_gives hbody .flat .external
  obtain ⟨hleaders, rfl⟩ := circular.eq_of_outline houtline
  rw [hleaders] at hlifted
  obtain ⟨draft, hlifts, _⟩ := hlifted.resolve_right fun ⟨_, _, _, hopen⟩ =>
    hopen circular.closed
  obtain ⟨_, hlifts⟩ := outcome_eq_ok_iff.mp (hlifts {})
  -- As the routine is lifted, no turn of its sweep fails.
  rcases sweeps_terminate circular .flat 0xFFFE .external {} with
    ⟨error, middle, _, hfails⟩ | ⟨sites, ended, function, middle, swept, result, hprepared, hruns,
      hnodup, hlowered, hsame⟩
  · cases hlifts.symm.trans hfails
  obtain ⟨body, leaders, houtline, rfl⟩ := outline_of_prepared hprepared
  obtain ⟨rfl, rfl⟩ := circular.eq_of_outline houtline
  have hblocks := (hruns swept result).mpr ⟨rfl, rfl⟩
  rw [hlifts] at hsame
  obtain ⟨_, _, hlowers, _⟩ := exists_of_bind_ok hsame.symm
  rw [hlowered] at hlowers
  subst hlowers
  have hsites : (Draft.sites [0xFFFE]).toList = [(0xFFFE, Draft.site 0)] :=
    Draft.toList_sites houtline.sorted
  have hfirst := hblocks
  rw [hsites] at hfirst
  cases hfirst with
  | next hsweep hrest =>
      cases hrest
      obtain ⟨_, _, _, rfl, hsecond⟩ := hsweep.first (by decide) circular.instruction?_load rfl
      obtain ⟨rest, _, _, rfl, _⟩ := hsecond.first (by decide) circular.instruction?_increment rfl
      obtain ⟨hdistinct, hshort⟩ := hnodup _ List.mem_cons_self
      exact ⟨_, function, middle, _, _, hprepared, hblocks, hdistinct, hshort,
        List.prefix_append [0xFFFE, 0x0000] rest⟩

end Lift6502.Decoder
