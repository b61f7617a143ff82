import Lift6502.Proofs.Lowering.Platforms
import Lift6502.Proofs.Routine.Listing

/-! A routine lifted for the two platforms. The liftings decode the same
instructions and fail alike, and the functions that they give are the same but
for the accesses. -/

namespace Lift6502

open Ssa Session

/-! Sessions side by side -/

namespace Session

variable {ε α β : Type}

/-- From every journal, two sessions fail alike, or they both succeed with
results that are related. They leave the same journal. -/
def InStep (related : α → α → Prop) (first second : Session ε α) : Prop :=
  ∀ journal,
    (∃ error journal', first journal = .error error journal' ∧
      second journal = .error error journal') ∨
    ∃ result result' journal', first journal = .ok result journal' ∧
      second journal = .ok result' journal' ∧ related result result'

variable {related : α → α → Prop} {related' : β → β → Prop} {first second : Session ε α}

theorem inStep_refl (session : Session ε α) : InStep Eq session session := by
  intro journal
  cases hrun : session journal with
  | error error journal' => exact .inl ⟨error, journal', rfl, rfl⟩
  | ok result journal' => exact .inr ⟨result, result, journal', rfl, rfl, rfl⟩

theorem inStep_pure {result result' : α} (hrelated : related result result') :
    InStep related (pure result : Session ε α) (pure result') :=
  fun journal => .inr ⟨result, result', journal, rfl, rfl, hrelated⟩

theorem InStep.bind {next next' : α → Session ε β} (hsession : InStep related first second)
    (hnext : ∀ result result', related result result' →
      InStep related' (next result) (next' result')) :
    InStep related' (first >>= next) (second >>= next') := by
  intro journal
  rcases hsession journal with
    ⟨error, journal', hfirst, hsecond⟩ | ⟨result, result', journal', hfirst, hsecond, hrelated⟩
  · exact .inl ⟨error, journal', bind_run_error hfirst, bind_run_error hsecond⟩
  · rw [bind_run_ok hfirst, bind_run_ok hsecond]
    exact hnext result result' hrelated journal'

theorem InStep.after {next next' : α → Session ε β} (session : Session ε α)
    (hnext : ∀ result, InStep related' (next result) (next' result)) :
    InStep related' (session >>= next) (session >>= next') := by
  refine (inStep_refl session).bind ?_
  rintro result _ rfl
  exact hnext result

end Session

/-- Frames of the two platforms at the same point of the same code. -/
structure Frame.Twins (sites : Sites) (accesses : List (Option Address)) (flat nes : Frame) :
    Prop where
  functions : Lift6502.Twins sites accesses flat.registers flat.function nes.function
  block_eq : nes.block = flat.block
  registers_eq : nes.registers = flat.registers

theorem Lowering.InStep.session {α : Type} {sites : Sites} {flat nes : Lowering α}
    {accesses more : List (Option Address)} {known : α → List ValueId} {frame other : Frame}
    (hstep : InStep sites [] flat nes more known) (htwins : frame.Twins sites accesses other) :
    Session.InStep (fun reached reached' => reached'.1 = reached.1 ∧
        reached.2.Twins sites (accesses ++ more) reached'.2)
      (Session.ofExcept (flat frame)) (Session.ofExcept (nes other)) := by
  obtain ⟨function, block, registers⟩ := frame
  obtain ⟨_, _, _⟩ := other
  obtain ⟨hfunctions, rfl, rfl⟩ := htwins
  intro journal
  rcases hstep accesses _ _ _ _ hfunctions (fun _ hid => nomatch hid) with
    ⟨error, hflat, hnes⟩ | ⟨result, registers', function', other', hflat, hnes, hfunctions', _⟩
  · rw [hflat, hnes]
    exact .inl ⟨error, journal, rfl, rfl⟩
  · rw [hflat, hnes]
    exact .inr ⟨_, _, journal, rfl, rfl, rfl, hfunctions', rfl, rfl⟩

namespace Ssa.Function

variable {accesses : List (Option Address)} {flat nes : Function}

theorem Matches.agree_phi (hmatches : flat.Matches accesses nes) {id : ValueId}
    (hphi : flat.IsPhi id) : flat.Agree nes id := by
  obtain ⟨value, hvalue, hisPhi⟩ := hphi
  exact ⟨value, value, hvalue, (hmatches.phi_iff hisPhi).mpr hvalue, rfl, rfl⟩

theorem verifyPhi_of_not_phi {function : Function} {id : ValueId} {value : Value}
    (hvalue : function.values[id.index]? = some value) (hnot : value.inst.isPhi = false)
    (block : Block) (edges : List BlockId) : function.verifyPhi block edges id = .ok () := by
  apply verifyPhi_eq_ok block hvalue
  intro incoming hphi
  rw [hphi] at hnot
  cases hnot

theorem verifyPhi_congr {id : ValueId} (hname : nes.name = flat.name)
    (hvalue : nes.values[id.index]? = flat.values[id.index]?)
    (hsize : nes.values.size = flat.values.size) (block : Block) (edges : List BlockId) :
    nes.verifyPhi block edges id = flat.verifyPhi block edges id := by
  have hlookup : nes.value id = flat.value id := by
    unfold Function.value
    rw [hvalue, hsize]
  unfold verifyPhi valueName
  rw [hlookup, hname]

theorem Matches.verifyPhi_eq (hmatches : flat.Matches accesses nes) (block : Block)
    (edges : List BlockId) (id : ValueId) :
    nes.verifyPhi block edges id = flat.verifyPhi block edges id := by
  have hname := hmatches.name_eq
  have hsize := hmatches.size_eq
  by_cases hindex : id.index < flat.values.size
  · have hflat := Array.getElem?_eq_getElem hindex
    have hnes := Array.getElem?_eq_getElem (hsize ▸ hindex)
    cases hphi : flat.values[id.index].inst.isPhi with
    | true =>
        apply verifyPhi_congr hname _ hsize
        rw [(hmatches.phi_iff hphi).mpr hflat, hflat]
    | false =>
        have hnot : (nes.values[id.index]).inst.isPhi = false := by
          by_contra hother
          have hsame := (hmatches.phi_iff (Bool.eq_true_of_not_eq_false hother)).mp hnes
          rw [hflat, Option.some.injEq] at hsame
          rw [hsame] at hphi
          exact hother hphi
        rw [verifyPhi_of_not_phi hflat hphi, verifyPhi_of_not_phi hnes hnot]
  · apply verifyPhi_congr hname _ hsize
    rw [Array.getElem?_eq_none (by omega), Array.getElem?_eq_none (by omega)]

/-- The check of a function looks at blocks and phis. -/
theorem Matches.verify_eq (hmatches : flat.Matches accesses nes) : nes.verify = flat.verify := by
  have hphis := hmatches.verifyPhi_eq
  have hsources : nes.predecessors = flat.predecessors := by rw [hmatches.same]; rfl
  unfold verify unterminated?
  rw [hmatches.blocks_eq, hmatches.name_eq, hsources]
  simp only [funext (hphis _ _)]

end Ssa.Function

/-! Sweeps and blocks -/

def LoweredStep.accesses (steps : List LoweredStep) : List (Option Address) :=
  steps.flatMap fun step => step.instruction.accesses

namespace Decoder

variable {sites : Sites} {entry : Address} {stop routineEnd : Nat}
  {accesses : List (Option Address)}

theorem inStep_fallThrough (counter : Nat) (last : Address) {frame other : Frame}
    (htwins : frame.Twins sites accesses other) :
    Session.InStep (fun reached reached' => reached'.2 = reached.2 ∧
        reached.1.Twins sites (accesses ++ LoweredStep.accesses reached.2) reached'.1)
      (do return ((← Session.ofExcept (fallThrough sites entry stop counter last frame)).2, []) :
        Session LiftError (Frame × List LoweredStep))
      (do return ((← Session.ofExcept (fallThrough sites entry stop counter last other)).2,
        [])) := by
  have hfalls : Lowering.InStep sites [] (fallThrough sites entry stop counter last)
      (fallThrough sites entry stop counter last) [] fun _ => [] := by
    unfold fallThrough
    split
    · exact Lowering.inStep_throw _
    · split
      · exact Lowering.inStep_throw _
      · exact Lowering.inStep_goTo _ _
  exact (hfalls.session htwins).bind fun _ _ hreached => inStep_pure ⟨rfl, hreached.2⟩

theorem inStep_tracedSweep (decoder : Decoder) (steps counter : Nat) (last : Address)
    {frame other : Frame} (htwins : frame.Twins sites accesses other) :
    Session.InStep (fun reached reached' => reached'.2 = reached.2 ∧
        reached.1.Twins sites (accesses ++ LoweredStep.accesses reached.2) reached'.1)
      (decoder.tracedSweep .flat sites entry stop steps counter last frame)
      (decoder.tracedSweep .nes sites entry stop steps counter last other) := by
  induction steps generalizing counter last frame other accesses with
  | zero => exact inStep_fallThrough counter last htwins
  | succ steps ih =>
      unfold tracedSweep
      split
      · refine .after _ fun instruction => .after _ fun _ => ?_
        refine ((Lowering.inStep_lower instruction).session htwins).bind ?_
        rintro ⟨_, frame⟩ ⟨_, other⟩ ⟨_, hlowered⟩
        have hstep : (⟨other.block, instruction, other.registers⟩ : LoweredStep) =
            ⟨frame.block, instruction, frame.registers⟩ := by
          rw [hlowered.block_eq, hlowered.registers_eq]
        dsimp only
        split
        · refine inStep_pure ⟨congrArg ([·]) hstep, ?_⟩
          simpa [LoweredStep.accesses] using hlowered
        · refine (ih _ _ hlowered).bind ?_
          rintro ⟨final, rest⟩ ⟨final', _⟩ ⟨rfl, hswept⟩
          refine inStep_pure ⟨congrArg (· :: _) hstep, ?_⟩
          simpa [LoweredStep.accesses] using hswept
      · exact inStep_fallThrough counter last htwins

/-- The registers of a block start as phis of the arena. -/
theorem inStep_tracedBlocks (decoder : Decoder) (blocks : List (Address × Site))
    (hsites : ∀ address site, (address, site) ∈ blocks → sites[address]? = some site ∧
      site.registers.values = site.registers.phis) {flat nes : Function}
    (hmatches : flat.Matches accesses nes)
    (hphis : ∀ (target : Address) (site : Site), sites[target]? = some site → ∀ register,
      flat.IsPhi (site.registers.phi register)) :
    Session.InStep (fun reached reached' => reached'.2 = reached.2 ∧
        reached.1.Matches (accesses ++ LoweredStep.accesses reached.2.flatten) reached'.1)
      (decoder.tracedBlocks .flat sites entry routineEnd blocks flat)
      (decoder.tracedBlocks .nes sites entry routineEnd blocks nes) := by
  induction blocks generalizing accesses flat nes with
  | nil =>
      refine inStep_pure ⟨rfl, ?_⟩
      simpa [LoweredStep.accesses] using hmatches
  | cons block rest ih =>
      obtain ⟨address, site⟩ := block
      obtain ⟨hsite, hvalues⟩ := hsites address site List.mem_cons_self
      have htwins : Frame.Twins sites accesses ⟨flat, site.block, site.registers.values⟩
          ⟨nes, site.block, site.registers.values⟩ := by
        refine ⟨⟨hmatches, fun register => ?_, hphis⟩, rfl, rfl⟩
        rw [hvalues]
        exact hmatches.agree_phi (hphis address site hsite register)
      unfold tracedBlocks
      refine (inStep_tracedSweep decoder _ _ _ htwins).bind ?_
      rintro ⟨frame, steps⟩ ⟨other, _⟩ ⟨rfl, hswept⟩
      refine (ih (fun address site hmem => hsites address site (List.mem_cons_of_mem _ hmem))
        hswept.functions.functions hswept.functions.phis).bind ?_
      rintro ⟨function, others⟩ ⟨function', _⟩ ⟨rfl, hfunctions⟩
      refine inStep_pure ⟨rfl, ?_⟩
      simpa [LoweredStep.accesses] using hfunctions

end Decoder

/-! Routines -/

namespace Draft

variable {entry : Address} {linkage : Linkage} {leaders : List Address}

theorem matches_laidOut :
    (laidOut entry linkage leaders).function.Matches [] (laidOut entry linkage leaders).function
    where
  same := rfl
  values := by
    apply Counterparts.refl
    intro value hvalue
    simp only [function, laidOut, List.flatMap_nil, List.append_nil] at hvalue
    obtain ⟨index, _, rfl⟩ := List.mem_map.mp hvalue
    unfold seedValue
    split <;> rfl

variable (hsorted : leaders.Pairwise fun first second => first < second)

include hsorted

theorem isPhi_laidOut {target : Address} {site : Site}
    (hsite : (sites leaders)[target]? = some site) (register : Register) :
    (laidOut entry linkage leaders).function.IsPhi (site.registers.phi register) := by
  obtain ⟨position, hposition, rfl⟩ := (getElem?_sites_iff hsorted).mp hsite
  have hphi := getElem?_values_phi (laidOut entry linkage leaders)
    (List.getElem?_eq_some_iff.mp hposition).1 register
  show Function.IsPhi _ ((seeds ⟨position + 1⟩).get register)
  rw [get_seeds]
  exact ⟨_, hphi, rfl⟩

theorem twins_laidOut :
    Frame.Twins (sites leaders) []
      ⟨(laidOut entry linkage leaders).function, ⟨0⟩, Decoder.parameters⟩
      ⟨(laidOut entry linkage leaders).function, ⟨0⟩, Decoder.parameters⟩ where
  functions := by
    refine ⟨matches_laidOut, fun register => ?_, fun target site => isPhi_laidOut hsorted⟩
    have hparam := getElem?_values_param (laidOut entry linkage leaders) register
    rw [Decoder.parameters, PerRegister.get_ofFn]
    exact ⟨_, _, hparam, hparam, rfl, rfl⟩
  block_eq := rfl
  registers_eq := rfl

end Draft

namespace Decoder

variable (decoder : Decoder) (entry : Address) (linkage : Linkage)

theorem inStep_tracedRoutine :
    Session.InStep (fun reached reached' => reached'.2 = reached.2 ∧
        reached.1.Matches (LoweredStep.accesses reached.2.flatten) reached'.1)
      (decoder.tracedRoutine .flat entry linkage) (decoder.tracedRoutine .nes entry linkage) := by
  unfold tracedRoutine
  refine .after _ fun body => .after _ fun leaders => ?_
  have hlayOut := Draft.layOut_eq entry linkage leaders
  have hsorted := AddressSet.pairwise_lt_toList leaders
  simp only [Session.ofBuilder, hlayOut]
  refine ((Lowering.inStep_goTo entry entry).session (Draft.twins_laidOut hsorted)).bind ?_
  rintro ⟨_, frame⟩ ⟨_, other⟩ ⟨_, hstarted⟩
  refine .after _ fun routineEnd => ?_
  refine (inStep_tracedBlocks decoder _ ?_ hstarted.functions.functions
    hstarted.functions.phis).bind ?_
  · intro address site hmem
    have hsite := Std.TreeMap.mem_toList_iff_getElem?_eq_some.mp hmem
    obtain ⟨position, _, rfl⟩ := (Draft.getElem?_sites_iff hsorted).mp hsite
    exact ⟨hsite, rfl⟩
  · rintro ⟨flat, blocks⟩ ⟨nes, _⟩ ⟨rfl, hlowered⟩
    have hmatches : flat.Matches (LoweredStep.accesses _) nes := hlowered
    simp only [hmatches.name_eq, hmatches.blocks_eq, hmatches.verify_eq]
    exact .after _ fun _ => .after _ fun _ => inStep_pure ⟨rfl, hmatches⟩

/-- A routine lifted for the flat platform and for the other one. Both
liftings fail alike or both succeed, and they leave the same journal. The
functions have the same signature and the same blocks. Their arenas have the
same entries but for the accesses, which the instructions that were lowered
make in their order: an access at a fixed address has that address for its
index on the flat platform, and the address that stands for its mirrors on the
other one. -/
theorem liftRoutine_platforms (journal : Journal) :
    (∃ error journal', decoder.liftRoutine .flat entry linkage journal = .error error journal' ∧
      decoder.liftRoutine .nes entry linkage journal = .error error journal') ∨
    ∃ (flat nes : Function) (journal' : Journal) (lowered : List Instruction),
      decoder.liftRoutine .flat entry linkage journal = .ok flat journal' ∧
      decoder.liftRoutine .nes entry linkage journal = .ok nes journal' ∧
      journal'.traces = journal.traces ++ lowered.map Event.lowering ∧
      flat.Matches (lowered.flatMap Instruction.accesses) nes := by
  rw [← map_fst_tracedRoutine, ← map_fst_tracedRoutine]
  rcases decoder.inStep_tracedRoutine entry linkage journal with
    ⟨error, journal', hflat, hnes⟩ |
    ⟨⟨flat, _⟩, ⟨nes, blocks⟩, journal', hflat, hnes, rfl, hmatches⟩
  · exact .inl ⟨error, journal', bind_run_error hflat, bind_run_error hnes⟩
  · refine .inr ⟨flat, nes, journal', blocks.flatten.map LoweredStep.instruction,
      bind_run_ok hflat, bind_run_ok hnes, ?_, ?_⟩
    · rw [traces_of_tracedRoutine hflat, List.map_map]
      rfl
    · rwa [List.flatMap_map]

end Decoder

end Lift6502
