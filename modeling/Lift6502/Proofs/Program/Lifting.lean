import Lift6502.Program
import Lift6502.Proofs.General
import Lift6502.Proofs.Routine.Outcome

/-! What a module is made of when a program is lifted, and what the errors
are. -/

namespace Lift6502

open Ssa Session

theorem LiftError.fault_of_mapError {checked : Except VerifyError Unit} {fault : Fault}
    (hfails : checked.mapError LiftError.ofVerifyError = .error (.fault fault)) :
    checked = .error (.fault fault) := by
  cases checked with
  | ok => cases hfails
  | error failure =>
      cases failure with
      | defect flaw => cases hfails
      | fault misuse =>
          cases hfails
          rfl

namespace Decoder

variable {decoder : Decoder} {platform : Platform} {entry : Address}

/-- A function has been lifted from the routine at an address. -/
def Lifted (decoder : Decoder) (platform : Platform) (entry address : Address)
    (function : Function) : Prop :=
  ∃ journal journal', decoder.liftRoutine platform address
    (if address = entry then .external else .internal) journal = .ok function journal'

theorem exists_routine {addresses : List Address} {functions : List Function}
    (hlifted : List.Forall₂ (decoder.Lifted platform entry) addresses functions)
    {function : Function} (hfunction : function ∈ functions) :
    ∃ address ∈ addresses, decoder.Lifted platform entry address function :=
  (List.Forall₂.flip hlifted).exists_of_mem hfunction

theorem liftRoutines_ok {addresses : List Address} {module module' : Ssa.Module}
    {journal journal' : Journal}
    (hrun : decoder.liftRoutines platform entry addresses module journal =
      .ok module' journal') :
    ∃ functions, List.Forall₂ (decoder.Lifted platform entry) addresses functions ∧
      module' = { module with functions := module.functions ++ functions.toArray } := by
  induction addresses generalizing module journal with
  | nil =>
      cases hrun
      exact ⟨[], .nil, by simp⟩
  | cons address rest ih =>
      obtain ⟨function, middle, hlifted, hrest⟩ := exists_of_bind_ok hrun
      obtain ⟨functions, hfunctions, rfl⟩ := ih hrest
      refine ⟨function :: functions, .cons ⟨journal, middle, hlifted⟩ hfunctions, ?_⟩
      simp [Ssa.Module.addFunction]

theorem liftRoutines_error {addresses : List Address} {module : Ssa.Module}
    {journal journal' : Journal} {error : LiftError}
    (hrun : decoder.liftRoutines platform entry addresses module journal =
      .error error journal') :
    ∃ address linkage journal middle,
      decoder.liftRoutine platform address linkage journal = .error error middle := by
  induction addresses generalizing module journal with
  | nil => cases hrun
  | cons address rest ih =>
      rcases cases_of_bind_error hrun with hfails | ⟨function, middle, _, hrest⟩
      · exact ⟨address, _, journal, journal', hfails⟩
      · exact ih hrest

/-- A routine is not lifted because it cannot be decoded, or because an
instruction runs out or over. -/
theorem cause_of_liftRoutine_error {address : Address} {linkage : Linkage}
    {journal journal' : Journal} {error : LiftError}
    (hrun : decoder.liftRoutine platform address linkage journal = .error error journal') :
    (∃ cause, error = .decode cause) ∨
      ∃ body leaders, decoder.Blames address body leaders error := by
  have hgives := (body_steady decoder address).of_outcome
  cases hresult : (decoder.body address).outcome {} with
  | error cause =>
      rw [hresult] at hgives
      have hfails := (liftRoutine_gives_of_body_error hgives platform linkage).of_error hrun
      exact .inl ⟨cause, (Except.error.inj hfails).symm⟩
  | ok body =>
      rw [hresult] at hgives
      obtain ⟨_, hbody⟩ := outcome_eq_ok_iff.mp hresult
      obtain ⟨leaders, _, _, _, _, houtcome⟩ :=
        (isBody_of_body hbody).liftRoutine_gives hgives platform linkage
      rcases houtcome with ⟨draft, hlifted, _⟩ | ⟨blamed, hlifted, hblames, _⟩
      · exact nomatch hlifted.of_error hrun
      · rw [← Except.error.inj (hlifted.of_error hrun)]
        exact .inr ⟨body, leaders.toList, hblames⟩

/-- A module has what its platform declares and the functions of the routines
in ascending order, and it passes its check. -/
theorem liftProgram_ok {name : String} {module : Ssa.Module} {journal journal' : Journal}
    (hrun : decoder.liftProgram platform entry name journal = .ok module journal') :
    ∃ routines functions, (decoder.routines entry).outcome journal = .ok routines ∧
      List.Forall₂ (decoder.Lifted platform entry) routines.toList functions ∧
      module = { platform.declare { name } with functions := functions.toArray } ∧
      module.verify = .ok () := by
  obtain ⟨routines, journal₁, hroutines, hrun⟩ := exists_of_bind_ok hrun
  obtain ⟨_, journal₂, _, hrun⟩ := exists_of_bind_ok hrun
  obtain ⟨lifted, journal₃, hlifted, hrun⟩ := exists_of_bind_ok hrun
  obtain ⟨_, journal₄, hverify, hrun⟩ := exists_of_bind_ok hrun
  cases hrun
  obtain ⟨functions, hfunctions, rfl⟩ := liftRoutines_ok hlifted
  have hempty : (platform.declare { name }).functions = #[] := by
    cases platform <;> rfl
  refine ⟨routines, functions, outcome_eq_ok_iff.mpr ⟨_, ok_of_adaptExcept hroutines⟩, hfunctions,
    ?_, ?_⟩
  · rw [hempty, Array.empty_append]
  · have hpassed := (gives_ofExcept _).of_ok hverify
    cases hcheck : Ssa.Module.verify { platform.declare { name } with
        functions := (platform.declare { name }).functions ++ functions.toArray } with
    | ok => rfl
    | error failure =>
        rw [hcheck] at hpassed
        cases hpassed

theorem Lifted.verify_eq_ok {address : Address} {function : Function}
    (hlifted : decoder.Lifted platform entry address function) : function.verify = .ok () := by
  obtain ⟨_, _, hrun⟩ := hlifted
  obtain ⟨_, _, _, draft, _, hbuilt, hcomplete, rfl⟩ := exists_built_of_liftRoutine hrun
  exact hbuilt.verify_eq_ok hcomplete

/-- Construction is never misused when a program is lifted. -/
theorem liftProgram_error_ne_fault {name : String} {journal journal' : Journal}
    {error : LiftError}
    (hrun : decoder.liftProgram platform entry name journal = .error error journal')
    (fault : Fault) : error ≠ .fault fault := by
  rintro rfl
  rcases cases_of_bind_error hrun with hroutines | ⟨routines, _, _, hrun⟩
  · obtain ⟨cause, hcause, _⟩ := error_of_adaptExcept hroutines
    cases hcause
  rcases cases_of_bind_error hrun with hnote | ⟨_, _, _, hrun⟩
  · cases hnote
  rcases cases_of_bind_error hrun with hlift | ⟨lifted, _, hlifted, hrun⟩
  · obtain ⟨address, linkage, _, _, hfails⟩ := liftRoutines_error hlift
    rcases cause_of_liftRoutine_error hfails with ⟨cause, hcause⟩ | ⟨body, leaders, hblames⟩
    · cases hcause
    · exact hblames
  rcases cases_of_bind_error hrun with hverify | ⟨_, _, _, hrun⟩
  · obtain ⟨functions, hfunctions, rfl⟩ := liftRoutines_ok hlifted
    have hfailed := (gives_ofExcept _).of_error hverify
    refine Ssa.Module.verify_ne_fault ?_ fault (LiftError.fault_of_mapError hfailed)
    intro function hfunction
    have hmem : function ∈ functions := by
      cases platform <;> simpa [Platform.declare, Ssa.Module.addGlobal, Ssa.Module.addImport]
        using hfunction
    obtain ⟨address, _, hfound⟩ := exists_routine hfunctions hmem
    exact hfound.verify_eq_ok
  · cases hrun

end Decoder

end Lift6502
