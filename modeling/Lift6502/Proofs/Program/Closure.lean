import Lift6502.Proofs.Lowering.Symbols
import Lift6502.Proofs.Program.Routines
import Lift6502.Proofs.Program.Typing
import Mathlib.Order.Bounds.Defs

/-! A lifted module is closed: it has the functions of all routines that calls
lead to from the entry, and of no others, and its code refers to nothing that
it does not declare. So a program is lifted if all its routines are. -/

namespace Lift6502

open Ssa

/-! Symbols of lifted functions -/

namespace Ssa.Module

/-- What an entry refers to is declared: a call names a function that takes
and gives all registers, or an import; and an access names a global. -/
def Refers (module : Module) (value : Value) : Prop :=
  match value.inst with
  | .call callee args =>
      (∃ called ∈ module.functions, called.name = callee ∧ called.params.length = 7 ∧
        called.result = .regs ∧ args.length = 7 ∧ value.type = .regs) ∨
      ∃ provided ∈ module.imports, provided.name = callee
  | .load global _ | .store global _ _ => ∃ declared ∈ module.globals, declared.name = global
  | .param _ | .const _ | .phi _ | .binary .. | .compare .. | .zext _ | .trunc _ | .makeRegs _
  | .extractReg .. => True

theorem Refers.undeclared?_eq_none {module : Module} {value : Value}
    (hrefers : module.Refers value) : module.undeclared? value.inst = none := by
  unfold Refers at hrefers
  cases hinst : value.inst with
  | call callee args =>
      rw [hinst] at hrefers
      refine if_pos (Bool.or_eq_true_iff.mpr ?_)
      rcases hrefers with ⟨called, hmem, hname, _⟩ | ⟨provided, hmem, hname⟩
      · exact .inr (Array.any_eq_true'.mpr ⟨called, hmem, beq_iff_eq.mpr hname⟩)
      · exact .inl (Array.any_eq_true'.mpr ⟨provided, hmem, beq_iff_eq.mpr hname⟩)
  | load global index | store global index stored =>
      rw [hinst] at hrefers
      obtain ⟨declared, hmem, hname⟩ := hrefers
      have hglobal : module.isGlobal global = true :=
        Array.any_eq_true'.mpr ⟨declared, hmem, beq_iff_eq.mpr hname⟩
      exact if_pos hglobal
  | _ => rfl

end Ssa.Module

theorem seedValue_names {platform : Platform} {callable : Address → Prop}
    (leaders : List Address) (feeds : Feeds) (index : Nat) :
    platform.Names callable (seedValue leaders feeds index).inst := by
  unfold seedValue
  split <;> trivial

theorem Platform.Declares.of_routineName {platform : Platform} {target : Address}
    {params : List Ty} {result : Ty}
    (hdeclares : platform.Declares (routineName target) params result) :
    params = Register.all.map Register.type ∧ result = .regs := by
  generalize hcallee : routineName target = callee at hdeclares
  cases hdeclares with
  | routine => exact ⟨rfl, rfl⟩
  | read => exact absurd hcallee (routineName_ne_hostRead target)
  | write => exact absurd hcallee (routineName_ne_hostWrite target)

def Platform.symbols : Platform → List String
  | .flat => [Platform.ram]
  | .nes => [Platform.hostRead, Platform.hostWrite]

theorem Platform.nodup_symbols (platform : Platform) : platform.symbols.Nodup := by
  cases platform <;> decide

theorem Platform.routineName_not_mem_symbols (platform : Platform) (entry : Address) :
    routineName entry ∉ platform.symbols := by
  intro hmem
  cases platform with
  | flat =>
      have hhead := congrArg (fun name => name.toList.head?) (List.mem_singleton.mp hmem)
      simp [toList_routineName, Platform.ram] at hhead
  | nes =>
      rcases List.mem_pair.mp hmem with hread | hwrite
      · exact routineName_ne_hostRead entry hread
      · exact routineName_ne_hostWrite entry hwrite

namespace Draft

variable {platform : Platform} {callable : Address → Prop} {draft : Draft}

theorem names_function_iff : draft.function.Names platform callable ↔
    ∀ piece ∈ draft.pieces, ∀ value ∈ piece.code, platform.Names callable value.inst := by
  -- Parameters and phis name nothing, so only the code of the blocks counts.
  have hmem (value : Value) : value ∈ draft.function.values ↔
      value ∈ seedValues draft.leaders (Edge.feeds draft.edges) ∨
        ∃ piece ∈ draft.pieces, value ∈ piece.code := by
    simp [function]
  constructor
  · intro hnames piece hpiece value hvalue
    obtain ⟨position, hposition⟩ :=
      Array.mem_iff_getElem?.mp ((hmem value).mpr (.inr ⟨piece, hpiece, hvalue⟩))
    exact hnames position value hposition
  · intro hpieces position value hposition
    rcases (hmem value).mp (Array.mem_of_getElem? hposition) with hseed | ⟨piece, hpiece, hvalue⟩
    · obtain ⟨index, _, rfl⟩ := List.mem_map.mp hseed
      exact seedValue_names _ _ _
    · exact hpieces piece hpiece value hvalue

/-- The code of every block names the platform's symbols and what the
instructions of the routine call. -/
theorem Built.names {decoder : Decoder} {entry : Address} {linkage : Linkage}
    {leaders : List Address}
    (hbuilt : Built decoder platform entry linkage leaders draft)
    (hcallable : ∀ leader ∈ leaders, ∀ instructions final,
      decoder.Passes leader instructions final → ∀ instruction ∈ instructions, ∀ target,
        instruction.callTarget? = some target → callable target) :
    draft.function.Names platform callable := by
  induction hbuilt with
  | start hentry =>
      refine names_function_iff.mpr fun piece hpiece value hvalue => ?_
      rw [List.mem_singleton.mp hpiece] at hvalue
      cases hvalue
  | block hbuilt hposition hleader hpasses hlowers hsound hends ih =>
      rename_i before place leader address instructions code code' values targets terminator
      have hcode : ∀ value ∈ code, platform.Names callable value.inst := by
        intro value hvalue
        have hnames := hlowers.names hpasses
          (hcallable leader (List.mem_of_getElem? hleader) instructions address hpasses) ih
        obtain ⟨position, hposition⟩ := List.mem_iff_getElem?.mp hvalue
        refine hnames (before.function.values.size + position) value ?_
        rw [Function.append_value_within]
        exact hposition
      have hcode' : ∀ value ∈ code', platform.Names callable value.inst := by
        cases hends with
        | fall | jump | branch => exact hcode
        | ret =>
            intro value hvalue
            rcases List.mem_append.mp hvalue with hvalue | hvalue
            · exact hcode value hvalue
            · rw [List.mem_singleton.mp hvalue]
              trivial
      refine names_function_iff.mpr fun piece hpiece value hvalue => ?_
      rcases List.mem_append.mp hpiece with hpiece | hpiece
      · exact names_function_iff.mp ih piece hpiece value hvalue
      · rw [List.mem_singleton.mp hpiece] at hvalue
        exact hcode' value hvalue

end Draft

namespace Decoder

open Session

variable {decoder : Decoder} {platform : Platform} {entry : Address} {routines : AddressSet}

theorem Lifted.names {address : Address} {function : Function}
    (hlifted : decoder.Lifted platform entry address function) {value : Value}
    (hvalue : value ∈ function.values) : platform.Names (decoder.Calls address) value.inst := by
  obtain ⟨_, _, hrun⟩ := hlifted
  obtain ⟨body, leaders, routineEnd, draft, houtline, hbuilt, _, rfl⟩ :=
    exists_built_of_liftRoutine hrun
  obtain ⟨position, hposition⟩ := Array.mem_iff_getElem?.mp hvalue
  refine hbuilt.names (fun leader hleader instructions final hpasses instruction hmem target
    htarget => ?_) position value hposition
  exact hpasses.calls (houtline.isBody.reached leader (houtline.leader_mem hleader)) hmem htarget

/-! Modules -/

/-- The module made of what the platform declares and of functions. -/
def assemble (platform : Platform) (name : String) (functions : List Function) : Ssa.Module :=
  { platform.declare { name } with functions := functions.toArray }

section Modules

variable {name : String} {functions : List Function}
  (hclosed : decoder.CallClosed entry routines)
  (hfunctions : List.Forall₂ (decoder.Lifted platform entry) routines.toList functions)

include hclosed hfunctions

theorem refers_assemble {function : Function} (hfunction : function ∈ functions)
    {value : Value} (hvalue : value ∈ function.values) :
    (assemble platform name functions).Refers value := by
  obtain ⟨address, haddress, hlifted⟩ := exists_routine hfunctions hfunction
  have hnames := hlifted.names hvalue
  have htyped := hlifted.wellTyped.insts value hvalue
  unfold Ssa.Module.Refers
  cases hinst : value.inst with
  | load global index | store global index stored =>
      rw [hinst] at hnames
      obtain ⟨rfl, rfl⟩ := hnames
      exact ⟨_, Array.mem_singleton_self _, rfl⟩
  | call callee args =>
      rw [hinst] at hnames htyped
      rcases hnames with ⟨target, hcalls, rfl⟩ | ⟨rfl, rfl | rfl⟩
      · have htarget := hclosed.closed address (Std.TreeSet.mem_toList.mp haddress) target hcalls
        obtain ⟨called, hcalled, hcallee⟩ :=
          hfunctions.exists_of_mem (Std.TreeSet.mem_toList.mpr htarget)
        obtain ⟨hname, hresult, hparams⟩ := hcallee.signature
        obtain ⟨params, hdeclares, hargs⟩ := htyped
        refine .inl ⟨called, by simpa [assemble] using hcalled, hname, ?_, hresult, ?_⟩
        · have hlength := congrArg List.length hparams
          rw [List.length_map] at hlength
          exact hlength
        · have hlength := congrArg List.length hargs
          rw [List.length_map, List.length_map] at hlength
          obtain ⟨hparams, hregs⟩ := hdeclares.of_routineName
          rw [hlength, hparams]
          exact ⟨rfl, hregs⟩
      · exact .inr ⟨⟨Platform.hostRead, [.i16], .i8⟩,
          by simp [assemble, Platform.declare, Ssa.Module.addImport], rfl⟩
      · exact .inr ⟨⟨Platform.hostWrite, [.i16, .i8], .void⟩,
          by simp [assemble, Platform.declare, Ssa.Module.addImport], rfl⟩
  | _ => trivial

theorem verify_assemble : (assemble platform name functions).verify = .ok () := by
  refine List.forM_eq_ok_iff.mpr fun function hfunction => ?_
  have hmem : function ∈ functions := by simpa [assemble] using hfunction
  obtain ⟨address, _, hlifted⟩ := exists_routine hfunctions hmem
  have hsymbols : (assemble platform name functions).verifySymbols function = .ok () := by
    unfold Ssa.Module.verifySymbols
    rw [List.findSome?_eq_none_iff.mpr fun value hvalue => (refers_assemble hclosed hfunctions
      hmem (Array.mem_toList_iff.mp hvalue)).undeclared?_eq_none]
  show (function.verify >>= fun _ => _) = _
  rw [hlifted.verify_eq_ok]
  exact hsymbols

omit hclosed

theorem map_name_functions : functions.map Function.name = routines.toList.map routineName := by
  generalize routines.toList = addresses at hfunctions
  induction hfunctions with
  | nil => rfl
  | cons hfirst _ ih => rw [List.map_cons, List.map_cons, hfirst.signature.1, ih]

theorem nodup_names :
    ((assemble platform name functions).functions.toList.map Function.name ++
      ((assemble platform name functions).imports.toList.map Import.name ++
        (assemble platform name functions).globals.toList.map Global.name)).Nodup := by
  have hfunctionNames : (assemble platform name functions).functions.toList.map Function.name =
      routines.toList.map routineName := map_name_functions hfunctions
  have hdeclared : (assemble platform name functions).imports.toList.map Import.name ++
      (assemble platform name functions).globals.toList.map Global.name = platform.symbols := by
    cases platform <;> rfl
  rw [hfunctionNames, hdeclared, List.nodup_append]
  refine ⟨?_, platform.nodup_symbols, ?_⟩
  · exact (AddressSet.nodup_toList routines).map_on fun _ _ _ _ => routineName_inj
  · intro callee hcallee other hother hsame
    obtain ⟨address, _, rfl⟩ := List.mem_map.mp hcallee
    exact platform.routineName_not_mem_symbols address (hsame ▸ hother)

theorem linkage_eq_external_iff {function : Function} (hfunction : function ∈ functions) :
    function.linkage = .external ↔ function.name = routineName entry := by
  obtain ⟨address, _, hlifted⟩ := exists_routine hfunctions hfunction
  rw [hlifted.signature.1]
  obtain ⟨_, _, hrun⟩ := hlifted
  obtain ⟨_, _, _, draft, _, hbuilt, _, rfl⟩ := exists_built_of_liftRoutine hrun
  show draft.linkage = .external ↔ _
  rw [hbuilt.extends.2.1]
  constructor
  · intro hlinkage
    split at hlinkage
    · next hentry => rw [hentry]
    · cases hlinkage
  · intro hname
    rw [if_pos (routineName_inj hname)]

end Modules

/-! Lifting one routine after another -/

/-- The routine at an address is lifted, whatever the journal. -/
def Lifts (decoder : Decoder) (platform : Platform) (address : Address) (linkage : Linkage) :
    Prop :=
  ∃ function, (decoder.liftRoutine platform address linkage).Gives (.ok function)

theorem lifts_or_blames {address : Address} {body : AddressSet}
    (hbody : (decoder.body address).Gives (.ok body)) (platform : Platform) (linkage : Linkage) :
    decoder.Lifts platform address linkage ∨ ∃ error leaders,
      (decoder.liftRoutine platform address linkage).Gives (.error error) ∧
        decoder.Blames address body leaders error := by
  obtain ⟨_, hrun⟩ := outcome_eq_ok_iff.mp (hbody {})
  obtain ⟨leaders, routineEnd, _, _, _, houtcome⟩ :=
    (isBody_of_body hrun).liftRoutine_gives hbody platform linkage
  rcases houtcome with ⟨draft, hlifted, _⟩ | ⟨error, hfails, hblames, _⟩
  · exact .inl ⟨draft.function, hlifted⟩
  · exact .inr ⟨error, leaders.toList, hfails, hblames⟩

theorem Blames.runs_out_or_over {address : Address} {body : AddressSet} {leaders : List Address}
    {error : LiftError} (hblames : decoder.Blames address body leaders error) :
    (∃ location, error = .leavesRoutine address location) ∨
      ∃ location leader, error = .overlap location leader := by
  cases error with
  | leavesRoutine routine location => exact .inl ⟨location, hblames.1 ▸ rfl⟩
  | overlap location leader => exact .inr ⟨location, leader, rfl⟩
  | decode | missingBlock | unusableOperand | defect | fault => exact hblames.elim

theorem runs_out_or_over_of_fails {address : Address} {body : AddressSet} {linkage : Linkage}
    {error : LiftError} (hbody : (decoder.body address).Gives (.ok body))
    (hfails : (decoder.liftRoutine platform address linkage).Gives (.error error)) :
    (∃ location, error = .leavesRoutine address location) ∨
      ∃ location leader, error = .overlap location leader := by
  rcases lifts_or_blames hbody platform linkage with
    ⟨function, hlifted⟩ | ⟨found, leaders, hfound, hblames⟩
  · cases (hlifted {}).symm.trans (hfails {})
  · cases (hfound {}).symm.trans (hfails {})
    exact hblames.runs_out_or_over

/-- Whether a routine is lifted does not depend on who may see it. -/
theorem Lifts.linkage {address : Address} {body : AddressSet} {linkage : Linkage}
    (hlifts : decoder.Lifts platform address linkage)
    (hbody : (decoder.body address).Gives (.ok body)) (other : Linkage) :
    decoder.Lifts platform address other := by
  obtain ⟨function, hfunction⟩ := hlifts
  obtain ⟨_, hrun⟩ := outcome_eq_ok_iff.mp (hbody {})
  have hisBody := isBody_of_body hrun
  obtain ⟨leaders, routineEnd, hleaders, hend, _, houtcome⟩ :=
    hisBody.liftRoutine_gives hbody platform linkage
  obtain ⟨leaders', routineEnd', hleaders', hend', _, houtcome'⟩ :=
    hisBody.liftRoutine_gives hbody platform other
  cases (hleaders {}).symm.trans (hleaders' {})
  cases (hend {}).symm.trans (hend' {})
  rcases houtcome with ⟨_, _, _, _, hclosed⟩ | ⟨error, hfails, _⟩
  · rcases houtcome' with ⟨draft, hlifted, _⟩ | ⟨_, _, _, hopen⟩
    · exact ⟨draft.function, hlifted⟩
    · exact absurd hclosed hopen
  · cases (hfunction {}).symm.trans (hfails {})

/-- Either all routines are lifted, or the error is that of the first one that
is not. -/
theorem liftRoutines_gives {addresses : List Address}
    (hbodies : ∀ address ∈ addresses, ∃ body, (decoder.body address).Gives (.ok body))
    (platform : Platform) (entry : Address) (module : Ssa.Module) :
    (∃ functions, List.Forall₂ (fun address function => (decoder.liftRoutine platform address
          (if address = entry then .external else .internal)).Gives (.ok function))
        addresses functions ∧
      (decoder.liftRoutines platform entry addresses module).Gives
        (.ok { module with functions := module.functions ++ functions.toArray })) ∨
    ∃ before address after error, addresses = before ++ address :: after ∧
      (∀ earlier ∈ before, decoder.Lifts platform earlier
        (if earlier = entry then .external else .internal)) ∧
      (decoder.liftRoutine platform address
        (if address = entry then .external else .internal)).Gives (.error error) ∧
      (decoder.liftRoutines platform entry addresses module).Gives (.error error) := by
  induction addresses generalizing module with
  | nil =>
      have hsame : { module with functions := module.functions ++ [].toArray } = module := by simp
      refine .inl ⟨[], .nil, ?_⟩
      rw [hsame]
      exact gives_pure module
  | cons address rest ih =>
      obtain ⟨body, hbody⟩ := hbodies address List.mem_cons_self
      rcases lifts_or_blames hbody platform (if address = entry then .external else .internal) with
        ⟨function, hlifted⟩ | ⟨error, _, hfails, _⟩
      · have hrest := ih (fun other hother => hbodies other (List.mem_cons_of_mem _ hother))
          (module.addFunction function)
        rcases hrest with ⟨functions, hfunctions, hrest⟩ |
          ⟨before, failing, after, error, rfl, hbefore, hfails, hrest⟩
        · refine .inl ⟨function :: functions, .cons hlifted hfunctions, hlifted.bind_ok ?_⟩
          simpa [Ssa.Module.addFunction] using hrest
        · refine .inr ⟨address :: before, failing, after, error, rfl, ?_, hfails,
            hlifted.bind_ok hrest⟩
          exact List.forall_mem_cons.mpr ⟨⟨function, hlifted⟩, hbefore⟩
      · refine .inr ⟨[], address, rest, error, rfl, ?_, hfails, hfails.bind_error⟩
        exact fun _ hearlier => (List.not_mem_nil hearlier).elim

theorem mem_before {before after : List Address} {address earlier : Address}
    (hlist : routines.toList = before ++ address :: after) (hearlier : earlier ∈ routines)
    (hless : earlier < address) : earlier ∈ before := by
  have hsorted := AddressSet.pairwise_lt_toList routines
  rw [hlist] at hsorted
  rw [← Std.TreeSet.mem_toList, hlist] at hearlier
  rcases List.mem_append.mp hearlier with hearlier | hearlier
  · exact hearlier
  rcases List.mem_cons.mp hearlier with rfl | hlater
  · exact absurd hless (UInt16.lt_irrefl _)
  · have hgreater := (List.pairwise_cons.mp (List.pairwise_append.mp hsorted).2.1).1
    exact absurd hless (UInt16.lt_asymm (hgreater earlier hlater))

/-! Programs -/

/-- The sets that have the entry and whatever the bodies of their members
call. -/
def callClosedSets (decoder : Decoder) (entry : Address) : Set (Set Address) :=
  {found | entry ∈ found ∧ ∀ routine ∈ found, ∀ target, decoder.BodyCalls routine target →
    target ∈ found}

theorem isLeast_routines {journal journal' : Journal}
    (hrun : decoder.routines entry journal = .ok routines journal') :
    IsLeast (decoder.callClosedSets entry) {address | address ∈ routines} := by
  have hclosed := callClosed_of_routines hrun
  refine ⟨⟨hclosed.entry_mem, ?_⟩, ?_⟩
  · intro routine hroutine target hcalls
    exact hclosed.closed routine hroutine target hcalls.calls
  · rintro found ⟨hentry, hfound⟩ routine hroutine
    exact (mem_of_routines hentry hfound hrun routine hroutine).1

/-- What a lifted module has: a function for each routine in ascending order,
names that tell everything apart, and nothing that is not declared. -/
structure Assembles (decoder : Decoder) (platform : Platform) (entry : Address)
    (routines : AddressSet) (module : Ssa.Module) : Prop where
  lifted : List.Forall₂ (decoder.Lifted platform entry) routines.toList module.functions.toList
  ascending : routines.toList.Pairwise fun first second => first < second
  names : module.functions.toList.map Function.name = routines.toList.map routineName
  distinct : (module.functions.toList.map Function.name ++
    (module.imports.toList.map Import.name ++ module.globals.toList.map Global.name)).Nodup
  external : ∀ function ∈ module.functions,
    function.linkage = .external ↔ function.name = routineName entry
  refers : ∀ function ∈ module.functions, ∀ value ∈ function.values, module.Refers value
  verified : module.verify = .ok ()

theorem assembles_assemble {functions : List Function} (name : String)
    (hclosed : decoder.CallClosed entry routines)
    (hfunctions : List.Forall₂ (decoder.Lifted platform entry) routines.toList functions) :
    decoder.Assembles platform entry routines (assemble platform name functions) where
  lifted := hfunctions
  ascending := AddressSet.pairwise_lt_toList routines
  names := map_name_functions hfunctions
  distinct := nodup_names hfunctions
  external _ hfunction :=
    linkage_eq_external_iff hfunctions (by simpa [assemble] using hfunction)
  refers _ hfunction _ hvalue :=
    refers_assemble hclosed hfunctions (by simpa [assemble] using hfunction) hvalue
  verified := verify_assemble hclosed hfunctions

section Outcomes

variable {name : String} (hroutines : (decoder.routines entry).Gives (.ok routines))

include hroutines

/-- Up to the check of the module, lifting a program is lifting its routines. -/
theorem liftProgram_gives_of_routines {result : Except LiftError Ssa.Module}
    (hrest : Gives (do
      let module ← decoder.liftRoutines platform entry routines.toList (platform.declare { name })
      Session.ofExcept (module.verify.mapError .ofVerifyError)
      return module) result) :
    (decoder.liftProgram platform entry name).Gives result :=
  (hroutines.adaptExcept LiftError.decode).bind_ok ((gives_note _).bind_ok hrest)

theorem liftProgram_gives_of_verified {module : Ssa.Module}
    (hgives : (decoder.liftRoutines platform entry routines.toList
      (platform.declare { name })).Gives (.ok module))
    (hverified : module.verify = .ok ()) :
    (decoder.liftProgram platform entry name).Gives (.ok module) := by
  refine liftProgram_gives_of_routines hroutines (hgives.bind_ok ?_)
  rw [hverified]
  exact (gives_ofExcept _).bind_ok (gives_pure module)

theorem liftProgram_gives_of_error {error : LiftError}
    (hgives : (decoder.liftRoutines platform entry routines.toList
      (platform.declare { name })).Gives (.error error)) :
    (decoder.liftProgram platform entry name).Gives (.error error) :=
  liftProgram_gives_of_routines hroutines hgives.bind_error

end Outcomes

/-- A program is lifted if and only if its routines are found and each of them
is lifted. The routines are the least set that has the entry and whatever the
bodies call, and the module has them and all that they refer to. Otherwise the
error is that of the search or of the lowest routine that is not lifted. -/
theorem liftProgram_outcome (decoder : Decoder) (platform : Platform) (entry : Address)
    (name : String) (journal : Journal) :
    match (decoder.routines entry).outcome journal with
    | .error error =>
        (decoder.liftProgram platform entry name).outcome journal = .error (.decode error)
    | .ok routines =>
        IsLeast (decoder.callClosedSets entry) {address | address ∈ routines} ∧
        (∀ address ∈ routines, ∃ body, (decoder.body address).Gives (.ok body)) ∧
        match (decoder.liftProgram platform entry name).outcome journal with
        | .ok module =>
            (∀ address ∈ routines, ∀ linkage, decoder.Lifts platform address linkage) ∧
            decoder.Assembles platform entry routines module
        | .error error => ∃ address ∈ routines,
            (decoder.liftRoutine platform address
              (if address = entry then .external else .internal)).Gives (.error error) ∧
            (∀ earlier ∈ routines, earlier < address → ∀ linkage,
              decoder.Lifts platform earlier linkage) ∧
            ((∃ location, error = .leavesRoutine address location) ∨
              ∃ location leader, error = .overlap location leader) := by
  have hsteady := (routines_steady decoder entry).of_outcome
  rw [hsteady journal]
  cases hfound : (decoder.routines entry).outcome {} with
  | error error =>
      rw [hfound] at hsteady
      exact (hsteady.adaptExcept LiftError.decode).bind_error journal
  | ok routines =>
      rw [hfound] at hsteady
      obtain ⟨_, hrun⟩ := outcome_eq_ok_iff.mp hfound
      have hclosed := callClosed_of_routines hrun
      have hbodies (address : Address) (haddress : address ∈ routines) :=
        (mem_of_routines trivial (fun _ _ _ _ => trivial) hrun address haddress).2
      refine ⟨isLeast_routines hrun, hbodies, ?_⟩
      rcases liftRoutines_gives
          (fun address haddress => hbodies address (Std.TreeSet.mem_toList.mp haddress)) platform
          entry (platform.declare { name }) with
        ⟨functions, hfunctions, hgives⟩ |
        ⟨before, address, after, error, hlist, hbefore, hfails, hgives⟩
      · have hempty : (platform.declare { name }).functions = #[] := by
          cases platform <;> rfl
        rw [hempty, Array.empty_append] at hgives
        have hassembles : decoder.Assembles platform entry routines
            (assemble platform name functions) :=
          assembles_assemble name hclosed (hfunctions.imp fun address function hfunction =>
            ⟨{}, outcome_eq_ok_iff.mp (hfunction {})⟩)
        rw [liftProgram_gives_of_verified hsteady hgives hassembles.verified journal]
        refine ⟨fun address haddress linkage => ?_, hassembles⟩
        obtain ⟨body, hbody⟩ := hbodies address haddress
        obtain ⟨function, _, hfunction⟩ :=
          hfunctions.exists_of_mem (Std.TreeSet.mem_toList.mpr haddress)
        exact Lifts.linkage ⟨function, hfunction⟩ hbody linkage
      · rw [liftProgram_gives_of_error hsteady hgives journal]
        have haddress : address ∈ routines := by
          rw [← Std.TreeSet.mem_toList, hlist]
          exact List.mem_append_right _ List.mem_cons_self
        obtain ⟨body, hbody⟩ := hbodies address haddress
        refine ⟨address, haddress, hfails, ?_, runs_out_or_over_of_fails hbody hfails⟩
        intro earlier hearlier hless linkage
        obtain ⟨other, hother⟩ := hbodies earlier hearlier
        exact (hbefore earlier (mem_before hlist hearlier hless)).linkage hother linkage

end Decoder

end Lift6502
