import Lift6502.Proofs.Program.Lifting
import Lift6502.Proofs.Routine.SingleAssignment

/-! Lifted modules are well typed, and lifting never combines values of
different types. -/

namespace Lift6502

open Ssa

namespace Ssa

/-- The parameters and the result that a module declares for a callee. -/
def Module.Declares (module : Module) (callee : String) (params : List Ty) (result : Ty) :
    Prop :=
  match module.function? callee with
  | some function =>
      function.params.map function.type? = params.map some ∧ function.result = result
  | none => ∃ provided ∈ module.imports, provided.name = callee ∧ provided.params = params ∧
      provided.result = result

/-- All instructions and terminators suit the types of what they refer to. -/
structure Function.WellTyped (function : Function)
    (Declares : String → List Ty → Ty → Prop) : Prop where
  insts : ∀ value ∈ function.values, value.inst.Typed function.type? Declares value.type
  terminators : ∀ block ∈ function.blocks, ∀ terminator,
    block.terminator = some terminator → terminator.Typed function.type?

theorem Terminator.Typed.mono {type? other? : ValueId → Option Ty} {terminator : Terminator}
    (htyped : terminator.Typed type?)
    (htypes : ∀ id found, type? id = some found → other? id = some found) :
    terminator.Typed other? := by
  cases terminator with
  | br target => trivial
  | condBr cond thenBlock elseBlock => exact htypes cond _ htyped
  | ret value => exact htypes value _ htyped

end Ssa

/-! Functions -/

theorem Draft.Built.wellTyped {decoder : Decoder} {platform : Platform} {entry : Address}
    {linkage : Linkage} {leaders : List Address} {draft : Draft}
    (hbuilt : Draft.Built decoder platform entry linkage leaders draft)
    (hcomplete : draft.pieces.length = draft.leaders.length + 1) :
    draft.function.WellTyped platform.Declares where
  insts value hmem := by
    obtain ⟨index, hindex⟩ := Array.mem_iff_getElem?.mp hmem
    have hvalue : draft.function.values[(⟨index⟩ : ValueId).index]? = some value := hindex
    rcases hbuilt.value_cases hcomplete hvalue with ⟨register, _, hinst⟩ |
      ⟨position, register, hposition, hid, _⟩ |
      ⟨_, before, code, values, targets, terminator, place, _, hfinished, hplace, _⟩
    · rw [hinst]
      trivial
    · rw [hid, get_seeds, draft.getElem?_values_phi hposition] at hvalue
      cases hvalue
      intro entry hentry
      obtain ⟨edge, hedge, rfl⟩ := List.mem_map.mp hentry
      obtain ⟨_, before, code, _, _, hfinished⟩ :=
        hbuilt.finished_of_edge hcomplete (List.mem_filter.mp hedge).1
      exact hfinished.type? (hfinished.ended.sound.held_typed register)
    · exact (hfinished.ended.sound.typed value (List.mem_of_getElem? hplace)).mono
        (fun _ _ _ htype => hfinished.type? htype) (fun _ _ _ _ hdeclares => hdeclares)
  terminators block hblock terminator hterminator := by
    obtain ⟨index, _, before, code, values, targets, terminator', rfl, hfinished⟩ :=
      hbuilt.exists_of_mem_blocks hcomplete hblock
    cases hterminator.symm.trans hfinished.terminator_eq
    exact hfinished.ended.typed.mono fun _ _ htype => hfinished.type? htype

namespace Decoder

open Session

variable {decoder : Decoder} {platform : Platform} {entry address : Address}
  {function : Function}

theorem Lifted.wellTyped (hlifted : decoder.Lifted platform entry address function) :
    function.WellTyped platform.Declares := by
  obtain ⟨_, _, hrun⟩ := hlifted
  obtain ⟨_, _, _, draft, _, hbuilt, hcomplete, rfl⟩ := exists_built_of_liftRoutine hrun
  exact hbuilt.wellTyped hcomplete

theorem Lifted.signature (hlifted : decoder.Lifted platform entry address function) :
    function.name = routineName address ∧ function.result = .regs ∧
      function.params.map function.type? = (Register.all.map Register.type).map some := by
  obtain ⟨_, _, hrun⟩ := hlifted
  obtain ⟨_, _, _, draft, _, hbuilt, _, rfl⟩ := exists_built_of_liftRoutine hrun
  refine ⟨congrArg routineName hbuilt.extends.1, rfl, ?_⟩
  show (seeds ⟨0⟩).toList.map draft.function.type? = _
  rw [PerRegister.toList_eq_map_all, List.map_map, List.map_map]
  refine List.map_congr_left fun register _ => ?_
  show draft.function.type? ((seeds ⟨0⟩).get register) = some register.type
  unfold Function.type?
  rw [get_seeds, Nat.mul_zero, Nat.zero_add, draft.getElem?_values_param]
  rfl

/-! Modules -/

section Modules

variable {name : String} {addresses : List Address} {functions : List Function}
  (hfunctions : List.Forall₂ (decoder.Lifted platform entry) addresses functions)

include hfunctions

theorem mem_of_function? {callee : String}
    (hfound : Ssa.Module.function?
      { platform.declare { name } with functions := functions.toArray } callee = some function) :
    function.name = callee ∧
      ∃ address ∈ addresses, decoder.Lifted platform entry address function := by
  have hname := Array.find?_some hfound
  have hmem := Array.mem_of_find?_eq_some hfound
  exact ⟨by simpa using hname, exists_routine hfunctions (by simpa using hmem)⟩

/-- The imports are not hidden by functions of the module. -/
theorem function?_eq_none {callee : String} (hcallee : ∀ address, routineName address ≠ callee) :
    Ssa.Module.function? { platform.declare { name } with functions := functions.toArray } callee =
      none := by
  cases hfound : Ssa.Module.function?
      { platform.declare { name } with functions := functions.toArray } callee with
  | none => rfl
  | some function =>
      obtain ⟨hname, address, _, hlifted⟩ := mem_of_function? hfunctions hfound
      exact absurd (hlifted.signature.1.symm.trans hname) (hcallee address)

/-- What lifted code calls is declared by the module as the code expects
it. -/
theorem declares_of_isCallable {callee : String} {params : List Ty} {result : Ty}
    (hcallable : Ssa.Module.isCallable
      { platform.declare { name } with functions := functions.toArray } callee = true)
    (hdeclares : platform.Declares callee params result) :
    Ssa.Module.Declares { platform.declare { name } with functions := functions.toArray }
      callee params result := by
  unfold Ssa.Module.Declares
  cases hdeclares with
  | routine target =>
      cases hfound : Ssa.Module.function?
          { platform.declare { name } with functions := functions.toArray }
          (routineName target) with
      | some function =>
          obtain ⟨_, address, _, hlifted⟩ := mem_of_function? hfunctions hfound
          exact ⟨hlifted.signature.2.2, hlifted.signature.2.1⟩
      | none =>
          -- A routine that is no function of the module would have to be an import.
          have himport : (platform.declare { name }).imports.any
              (fun provided => provided.name == routineName target) = true := by
            refine (Bool.or_eq_true_iff.mp hcallable).resolve_right fun hfunction => ?_
            obtain ⟨function, hmem, hname⟩ := Array.any_eq_true'.mp hfunction
            exact absurd hname (by simpa using Array.find?_eq_none.mp hfound function hmem)
          cases platform with
          | flat => simp [Platform.declare, Ssa.Module.addGlobal] at himport
          | nes =>
              simp [Platform.declare, Ssa.Module.addImport,
                Ne.symm (routineName_ne_hostRead target),
                Ne.symm (routineName_ne_hostWrite target)] at himport
  | read hplatform =>
      subst hplatform
      rw [function?_eq_none hfunctions routineName_ne_hostRead]
      exact ⟨⟨Platform.hostRead, [.i16], .i8⟩,
        by simp [Platform.declare, Ssa.Module.addImport], rfl, rfl, rfl⟩
  | write hplatform =>
      subst hplatform
      rw [function?_eq_none hfunctions routineName_ne_hostWrite]
      exact ⟨⟨Platform.hostWrite, [.i16, .i8], .void⟩,
        by simp [Platform.declare, Ssa.Module.addImport], rfl, rfl, rfl⟩

end Modules

/-- A call as the platform knows it and as the module declares it: routines
take and give the registers, a host read takes an address and gives a byte, a
host write takes an address and a byte. -/
def Agrees (platform : Platform) (module : Ssa.Module) (callee : String) (params : List Ty)
    (result : Ty) : Prop :=
  platform.Declares callee params result ∧ module.Declares callee params result

/-- Lifting a program never combines values of different types, and all
functions of a lifted module are well typed. -/
theorem liftProgram_wellTyped (decoder : Decoder) (platform : Platform) (entry : Address)
    (name : String) (journal : Journal) :
    match (decoder.liftProgram platform entry name).outcome journal with
    | .ok module => ∀ function ∈ module.functions, function.WellTyped (Agrees platform module)
    | .error error => ∀ op, error ≠ .fault (.typeMismatch op) := by
  cases houtcome : (decoder.liftProgram platform entry name).outcome journal with
  | error error =>
      obtain ⟨journal', hrun⟩ := outcome_eq_error_iff.mp houtcome
      exact fun op => liftProgram_error_ne_fault hrun (.typeMismatch op)
  | ok module =>
      obtain ⟨journal', hrun⟩ := outcome_eq_ok_iff.mp houtcome
      obtain ⟨routines, functions, _, hfunctions, rfl, hverify⟩ := liftProgram_ok hrun
      intro function hfunction
      obtain ⟨address, _, hlifted⟩ := exists_routine hfunctions (by simpa using hfunction)
      have htyped := hlifted.wellTyped
      refine ⟨fun value hvalue => ?_, htyped.terminators⟩
      refine (htyped.insts value hvalue).mono (fun _ _ _ htype => htype) ?_
      intro callee args params hcall hdeclares
      have hcallable := Ssa.Module.isCallable_of_verify hverify
        (Array.mem_toList_iff.mpr hfunction) hvalue hcall
      exact ⟨hdeclares, declares_of_isCallable hfunctions hcallable hdeclares⟩

end Decoder

end Lift6502
