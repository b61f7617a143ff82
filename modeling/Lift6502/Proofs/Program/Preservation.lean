import Lift6502.Proofs.Program.Routines
import Lift6502.Proofs.Program.Typing
import Lift6502.Proofs.Routine.Execution

/-! A lifted program does what the machine does. The two are followed from
leader to leader: where the machine stands at the leader of a block, the
module stands at the block, and its phis hold the registers. -/

namespace Lift6502

open Ssa

theorem Registers.words_inj {first second : Registers} (hwords : first.words = second.words) :
    first = second := by
  have hbyte (register : ByteRegister) : first.byte register = second.byte register := by
    have hword := congrArg (PerRegister.get · (.byte register)) hwords
    cases register <;> exact UInt8.toUInt16_inj.mp hword
  have hflag (flag : Flag) : first.flag flag = second.flag flag := by
    have hword := congrArg (PerRegister.get · (.flag flag)) hwords
    simp only [← Registers.flag_toUInt16] at hword
    revert hword
    cases first.flag flag <;> cases second.flag flag <;> decide
  cases first
  cases second
  have ha := hbyte .a
  have hx := hbyte .x
  have hy := hbyte .y
  have hn := hflag .n
  have hv := hflag .v
  have hz := hflag .z
  have hc := hflag .c
  simp only [byte, flag] at ha hx hy hn hv hz hc
  rw [ha, hx, hy, hn, hv, hz, hc]

theorem Registers.datum_inj {first second : Registers} (hdatum : first.datum = second.datum) :
    first = second :=
  Registers.words_inj (Datum.regs.inj hdatum)

/-! Modules of lifted routines -/

/-- The environment of a function of a module while it runs a block. -/
def Ssa.Module.calling {σ : Type} (module : Ssa.Module) (environment : Environment σ)
    (fuel : Nat) : Environment σ :=
  { environment with
    call := fun callee args state =>
      match module.function? callee with
      | some function =>
          module.runFrom environment fuel ⟨function, args⟩ ⟨0⟩ ⟨0⟩ (fun _ => none) state
      | none => environment.call callee args state }

theorem Ssa.Module.runFrom_succ {σ : Type} (module : Ssa.Module) (environment : Environment σ)
    (fuel : Nat) (activation : Activation) (source target : BlockId) (locals : Locals)
    (state : σ) :
    module.runFrom environment (fuel + 1) activation source target locals state =
      (activation.runBlock (module.calling environment fuel) source target locals state).bind
        fun outcome =>
          match outcome.1 with
          | .goTo next =>
              module.runFrom environment fuel activation target next outcome.2.1 outcome.2.2
          | .ret result => some (result, outcome.2.2) := by
  rfl

theorem Platform.call_routineName {σ : Type} (platform : Platform) (host : Host σ)
    (target : Address) (args : List Datum) (state : σ) :
    (platform.bind host).call (routineName target) args state = none := by
  cases platform with
  | flat => rfl
  | nes =>
      unfold Platform.bind
      simp only [routineName_ne_hostRead, routineName_ne_hostWrite, if_false]
      split <;> rfl

namespace Decoder

variable {decoder : Decoder} {platform : Platform} {entry : Address} {routines : AddressSet}
  {module : Ssa.Module}

/-- A module has a function for every routine of a closed set, and no other
functions. -/
structure Renders (decoder : Decoder) (platform : Platform) (entry : Address)
    (routines : AddressSet) (module : Ssa.Module) : Prop where
  closed : decoder.CallClosed entry routines
  exists_function : ∀ routine ∈ routines, ∃ function,
    module.function? (routineName routine) = some function
  lifted : ∀ routine function, module.function? (routineName routine) = some function →
    routine ∈ routines ∧ decoder.Lifted platform entry routine function
  others : ∀ callee, (∀ routine, routineName routine ≠ callee) → module.function? callee = none

theorem exists_renders {name : String} {journal journal' : Journal}
    (hrun : decoder.liftProgram platform entry name journal = .ok module journal') :
    ∃ routines, decoder.Renders platform entry routines module := by
  obtain ⟨routines, functions, hroutines, hfunctions, rfl, _⟩ := liftProgram_ok hrun
  obtain ⟨_, hroutines⟩ := Session.outcome_eq_ok_iff.mp hroutines
  refine ⟨routines, callClosed_of_routines hroutines, ?_, ?_, ?_⟩
  · intro routine hroutine
    obtain ⟨function, hfunction, hlifted⟩ :=
      hfunctions.exists_of_mem (Std.TreeSet.mem_toList.mpr hroutine)
    refine Option.isSome_iff_exists.mp (Array.find?_isSome.mpr ⟨function, ?_, ?_⟩)
    · simpa using hfunction
    · simpa using hlifted.signature.1
  · intro routine function hfound
    obtain ⟨hname, address, haddress, hlifted⟩ := mem_of_function? hfunctions hfound
    cases routineName_inj (hlifted.signature.1.symm.trans hname)
    exact ⟨Std.TreeSet.mem_toList.mp haddress, hlifted⟩
  · exact fun callee => function?_eq_none hfunctions

theorem Renders.serves {σ : Type} {host : Host σ}
    (hrenders : decoder.Renders platform entry routines module)
    (hmirrored : platform = .nes → Platform.Mirrored host) (fuel : Nat) :
    platform.Serves host (module.calling (platform.bind host) fuel) where
  load := rfl
  store := rfl
  call callee hcallee := by
    have hnone : module.function? callee = none := by
      refine hrenders.others callee ?_
      rcases hcallee with rfl | rfl
      · exact routineName_ne_hostRead
      · exact routineName_ne_hostWrite
    funext args state
    simp only [Ssa.Module.calling, hnone]
  mirrored := hmirrored

/-! From leader to leader -/

/-- The module stands at the block of a leader, with the registers in its
phis. -/
def Stands (decoder : Decoder) (platform : Platform) (routines : AddressSet)
    (activation : Activation) (source target : BlockId) (locals : Locals)
    (registers : Registers) (leader : Address) : Prop :=
  ∃ routine ∈ routines, ∃ body leaders routineEnd linkage draft position,
    decoder.Outline routine body leaders routineEnd ∧
    Draft.Built decoder platform routine linkage leaders draft ∧
    draft.pieces.length = draft.leaders.length + 1 ∧
    activation.function = draft.function ∧ leaders[position]? = some leader ∧
    target = ⟨position + 1⟩ ∧ activation.Arrives source target locals registers

/-- Where the module stands after a block, if the machine goes to `next`. -/
def Proceeds (decoder : Decoder) (platform : Platform) (routines : AddressSet)
    (activation : Activation) (block : BlockId) (locals : Locals) (registers : Registers) :
    Activation.Exit → Option Address → Prop
  | .goTo target, some leader =>
      decoder.Stands platform routines activation block target locals registers leader
  | .ret result, none => result = registers.datum
  | .goTo _, none | .ret _, some _ => False

variable {activation : Activation} {source target : BlockId} {locals : Locals}
  {registers : Registers} {leader : Address}

/-- A function hands its arguments on and then stands at its entry. -/
theorem Lifted.enters {routine : Address} {function : Function}
    (hlifted : decoder.Lifted platform entry routine function) (hroutine : routine ∈ routines)
    {σ : Type} (environment : Environment σ) (registers : Registers) (state : σ) :
    ∃ target, Activation.runBlock ⟨function, registers.args⟩ environment ⟨0⟩ ⟨0⟩
        (fun _ => none) state = some (.goTo target, fun _ => none, state) ∧
      decoder.Stands platform routines ⟨function, registers.args⟩ ⟨0⟩ target (fun _ => none)
        registers routine := by
  obtain ⟨_, _, hrun⟩ := hlifted
  obtain ⟨body, leaders, routineEnd, draft, houtline, hbuilt, hcomplete, rfl⟩ :=
    exists_built_of_liftRoutine hrun
  obtain ⟨position, hentry, henters⟩ := hbuilt.enters hcomplete
  obtain ⟨hrunBlock, harrives⟩ := henters environment registers state
  exact ⟨_, hrunBlock, routine, hroutine, body, leaders, routineEnd, _, draft, position, houtline,
    hbuilt, hcomplete, rfl, hentry, rfl, harrives⟩

/-- From where the module stands it does what the machine does up to the next
leader. -/
theorem Stands.exists_stretch
    (hstands : decoder.Stands platform routines activation source target locals registers leader)
    (hclosed : decoder.CallClosed entry routines) :
    ∃ instructions address, decoder.Passes leader instructions address ∧
      (∀ instruction ∈ instructions, ∀ callee, instruction.callTarget? = some callee →
        callee ∈ routines) ∧
      ∀ {σ : Type} {host : Host σ} {environment : Environment σ} {state : σ},
        platform.Serves host environment →
        (∀ {registers' state'},
          Machine.Advances host environment.calls instructions registers state registers'
            state' →
          ∃ exit locals' next,
            activation.runBlock environment source target locals state =
              some (exit, locals', state') ∧
            Machine.Leaves decoder host leader address registers' state' next ∧
            decoder.Proceeds platform routines activation target locals' registers' exit next) ∧
        (environment.Answers → ∀ {outcome},
          activation.runBlock environment source target locals state = some outcome →
          ∃ registers' state', Machine.Advances host environment.calls instructions registers
            state registers' state') := by
  obtain ⟨routine, hroutine, body, leaders, routineEnd, linkage, draft, position, houtline,
    hbuilt, hcomplete, hfunction, hleader, rfl, harrives⟩ := hstands
  obtain ⟨function, args⟩ := activation
  cases hfunction
  obtain ⟨_, _, hleaders, _⟩ := hbuilt.extends
  obtain ⟨instructions, address, hpasses, henacts⟩ := hbuilt.exists_enacts hcomplete hleader
  refine ⟨instructions, address, hpasses, ?_, fun hserves => ⟨fun hadvances => ?_, ?_⟩⟩
  · intro instruction hmem callee hcallee
    have hreaches := houtline.isBody.reached leader
      (houtline.leader_mem (List.mem_of_getElem? hleader))
    exact hclosed.closed routine hroutine callee (hpasses.calls hreaches hmem hcallee)
  · obtain ⟨exit, locals', next, hrunBlock, hleaves, hfollows⟩ :=
      henacts.runs hserves harrives hadvances
    refine ⟨exit, locals', next, hrunBlock, hleaves, ?_⟩
    match exit, next, hfollows with
    | .goTo _, some next, ⟨harrives', place, hplace, hnext⟩ =>
        exact ⟨routine, hroutine, body, leaders, routineEnd, linkage, draft, place, houtline,
          hbuilt, hcomplete, rfl, hleaders ▸ hnext, hplace, harrives'⟩
    | .ret _, none, hresult => exact hresult
  · exact fun hanswers _ houtcome => henacts.advances hserves hanswers harrives houtcome

/-! Runs -/

theorem Lifted.exists_runFrom_eq {routine : Address} {function : Function}
    (hlifted : decoder.Lifted platform entry routine function) (hroutine : routine ∈ routines)
    {σ : Type} (environment : Environment σ) (fuel : Nat) (registers : Registers) (state : σ) :
    ∃ target, module.runFrom environment (fuel + 1) ⟨function, registers.args⟩ ⟨0⟩ ⟨0⟩
        (fun _ => none) state =
          module.runFrom environment fuel ⟨function, registers.args⟩ ⟨0⟩ target (fun _ => none)
            state ∧
      decoder.Stands platform routines ⟨function, registers.args⟩ ⟨0⟩ target (fun _ => none)
        registers routine := by
  obtain ⟨target, hrunBlock, hstands⟩ :=
    hlifted.enters hroutine (module.calling environment fuel) registers state
  refine ⟨target, ?_, hstands⟩
  rw [Ssa.Module.runFrom_succ, hrunBlock]
  rfl

theorem Renders.exists_call_eq {σ : Type}
    (hrenders : decoder.Renders platform entry routines module) {routine : Address}
    (hroutine : routine ∈ routines) (environment : Environment σ) (fuel : Nat)
    (registers : Registers) (state : σ) :
    ∃ activation target,
      (module.calling environment (fuel + 1)).call (routineName routine) registers.args state =
        module.runFrom environment fuel activation ⟨0⟩ target (fun _ => none) state ∧
      decoder.Stands platform routines activation ⟨0⟩ target (fun _ => none) registers
        routine := by
  obtain ⟨function, hfunction⟩ := hrenders.exists_function routine hroutine
  obtain ⟨_, hlifted⟩ := hrenders.lifted routine function hfunction
  obtain ⟨target, hstart, hstands⟩ :=
    hlifted.exists_runFrom_eq hroutine environment fuel registers state
  refine ⟨⟨function, registers.args⟩, target, ?_, hstands⟩
  unfold Ssa.Module.calling
  simp only [hfunction]
  exact hstart

theorem Renders.of_call {σ : Type} {host : Host σ} {fuel : Nat} {routine : Address}
    {args : List Datum} {state : σ} {outcome : Datum × σ}
    (hrenders : decoder.Renders platform entry routines module)
    (hcall : (module.calling (platform.bind host) fuel).call (routineName routine) args state =
      some outcome) : routine ∈ routines ∧ ∃ less, fuel = less + 1 := by
  unfold Ssa.Module.calling at hcall
  cases hfunction : module.function? (routineName routine) with
  | none =>
      simp only [hfunction, Platform.call_routineName] at hcall
      cases hcall
  | some function =>
      refine ⟨(hrenders.lifted routine function hfunction).1, ?_⟩
      simp only [hfunction] at hcall
      cases fuel with
      | zero => cases hcall
      | succ less => exact ⟨less, rfl⟩

section Simulation

variable {σ : Type} {host : Host σ} {count fuel : Nat} {registers' : Registers}
  {state state' : σ} {result : Datum}
  (hrenders : decoder.Renders platform entry routines module)
  (hmirrored : platform = .nes → Platform.Mirrored host)

include hrenders hmirrored

/-- The module needs no more fuel than the machine takes instructions. -/
theorem Renders.runFrom_of_runs
    (hstands : decoder.Stands platform routines activation source target locals registers leader)
    (hruns : Machine.Runs decoder host count leader registers state registers' state')
    (hfuel : count ≤ fuel) :
    module.runFrom (platform.bind host) fuel activation source target locals state =
      some (registers'.datum, state') := by
  induction count using Nat.strongRecOn generalizing activation source target locals registers
    leader state registers' state' fuel with
  | ind count ih =>
      -- The runs of callees and the run behind the stretch are both shorter.
      obtain ⟨fuel, rfl⟩ := Nat.exists_eq_add_of_lt (Nat.lt_of_lt_of_le hruns.count_pos hfuel)
      rw [Nat.zero_add] at hfuel ⊢
      obtain ⟨instructions, address, hpasses, hcallees, hstretch⟩ :=
        hstands.exists_stretch hrenders.closed
      obtain ⟨rest, registers₁, state₁, hadvances, hruns', hlength⟩ := hruns.advances hpasses
      have hcalls : Machine.Advances host (module.calling (platform.bind host) fuel).calls
          instructions registers state registers₁ state₁ := by
        refine hadvances.imp fun instruction hmem callee hcallee registers state registers'
          state' hcalled => ?_
        obtain ⟨inner, hinner, hcalled⟩ := hcalled
        obtain ⟨fuel, rfl⟩ := Nat.exists_eq_add_of_lt (show 0 < fuel by omega)
        rw [Nat.zero_add]
        obtain ⟨activation, target, hcall, hstands⟩ := hrenders.exists_call_eq
          (hcallees instruction hmem callee hcallee) (platform.bind host) fuel registers state
        unfold Ssa.Environment.calls
        rw [hcall]
        exact ih inner (by omega) hstands hcalled (by omega)
      obtain ⟨exit, locals', next, hrunBlock, hleaves, hproceeds⟩ :=
        (hstretch (hrenders.serves hmirrored fuel)).1 hcalls
      rw [Ssa.Module.runFrom_succ, hrunBlock, Option.bind_some]
      cases exit with
      | goTo block =>
          cases next with
          | none => exact hproceeds.elim
          | some leader' =>
              obtain ⟨rest', hless, hruns''⟩ := hleaves.exists_runs hpasses hruns'
              exact ih rest' (by omega) hproceeds hruns'' (by omega)
      | ret result =>
          cases next with
          | some leader' => exact hproceeds.elim
          | none =>
              obtain ⟨rfl, rfl⟩ := hleaves.runs_none_iff.mp ⟨rest, hruns'⟩
              have hresult : result = registers'.datum := hproceeds
              rw [hresult]

/-- What the module comes to, the machine comes to as well. -/
theorem Renders.exists_runs_of_runFrom
    (hstands : decoder.Stands platform routines activation source target locals registers leader)
    (hrun : module.runFrom (platform.bind host) fuel activation source target locals state =
      some (result, state')) :
    ∃ registers' count, result = Registers.datum registers' ∧
      Machine.Runs decoder host count leader registers state registers' state' := by
  induction fuel using Nat.strongRecOn generalizing activation source target locals registers
    leader state result state' with
  | ind fuel ih =>
      cases fuel with
      | zero => cases hrun
      | succ fuel =>
          -- Callees are followed first, as the stretch is only passed if they answer.
          have hcalled {callee : Address} {registers : Registers} {state state' : σ}
              {result : Datum}
              (hcall : (module.calling (platform.bind host) fuel).call (routineName callee)
                registers.args state = some (result, state')) :
              ∃ registers' inner, result = Registers.datum registers' ∧
                Machine.Runs decoder host inner callee registers state registers' state' := by
            obtain ⟨hcallee, fuel, rfl⟩ := hrenders.of_call hcall
            obtain ⟨activation, target, hcall', hstands⟩ :=
              hrenders.exists_call_eq hcallee (platform.bind host) fuel registers state
            rw [hcall'] at hcall
            exact ih fuel (by omega) hstands hcall
          have hanswers : (module.calling (platform.bind host) fuel).Answers := by
            intro callee registers state result state' hcall
            obtain ⟨registers', _, hresult, _⟩ := hcalled hcall
            exact ⟨registers', hresult⟩
          obtain ⟨instructions, address, hpasses, hcallees, hstretch⟩ :=
            hstands.exists_stretch hrenders.closed
          obtain ⟨hblock, hpassed⟩ := hstretch (hrenders.serves hmirrored fuel)
          rw [Ssa.Module.runFrom_succ] at hrun
          obtain ⟨outcome, hrunBlock, hrest⟩ := Option.bind_eq_some_iff.mp hrun
          obtain ⟨registers₁, state₁, hadvances⟩ := hpassed hanswers hrunBlock
          obtain ⟨exit, locals', next, hrunBlock', hleaves, hproceeds⟩ := hblock hadvances
          cases hrunBlock.symm.trans hrunBlock'
          have hmachine : Machine.Advances host (fun target registers state registers' state' =>
              ∃ inner, Machine.Runs decoder host inner target registers state registers' state')
              instructions registers state registers₁ state₁ := by
            refine hadvances.imp fun _ _ callee _ registers state registers' state' hcall => ?_
            obtain ⟨found, inner, hsame, hruns⟩ := hcalled hcall
            cases Registers.datum_inj hsame
            exact ⟨inner, hruns⟩
          cases exit with
          | goTo block =>
              cases next with
              | none => exact hproceeds.elim
              | some leader' =>
                  obtain ⟨registers', _, hresult, hruns⟩ :=
                    ih fuel (Nat.lt_succ_self _) hproceeds hrest
                  obtain ⟨_, hruns⟩ := hleaves.runs hruns
                  obtain ⟨count, hruns⟩ := hmachine.runs hpasses hruns
                  exact ⟨registers', count, hresult, hruns⟩
          | ret found =>
              cases next with
              | some leader' => exact hproceeds.elim
              | none =>
                  cases hrest
                  obtain ⟨_, hruns⟩ := hleaves.runs_none_iff.mpr ⟨rfl, rfl⟩
                  obtain ⟨count, hruns⟩ := hmachine.runs hpasses hruns
                  exact ⟨registers₁, count, hproceeds, hruns⟩

/-- The function of the entry comes to a result exactly if the machine returns
with it. -/
theorem Renders.evaluates_iff :
    module.Evaluates (platform.bind host) (routineName entry) registers.args state result state' ↔
      ∃ registers', result = Registers.datum registers' ∧
        Machine.Returns decoder host entry registers state registers' state' := by
  obtain ⟨function, hfunction⟩ := hrenders.exists_function entry hrenders.closed.entry_mem
  obtain ⟨hroutine, hlifted⟩ := hrenders.lifted entry function hfunction
  have hinvoke (fuel : Nat) : module.invoke (platform.bind host) fuel (routineName entry)
      registers.args state = module.runFrom (platform.bind host) fuel ⟨function, registers.args⟩
        ⟨0⟩ ⟨0⟩ (fun _ => none) state := by
    unfold Ssa.Module.invoke
    rw [hfunction]
    rfl
  constructor
  · rintro ⟨fuel, hrun⟩
    rw [hinvoke] at hrun
    cases fuel with
    | zero => cases hrun
    | succ fuel =>
        obtain ⟨target, hstart, hstands⟩ :=
          hlifted.exists_runFrom_eq hroutine (platform.bind host) fuel registers state
        rw [hstart] at hrun
        obtain ⟨registers', count, hresult, hruns⟩ :=
          hrenders.exists_runs_of_runFrom hmirrored hstands hrun
        exact ⟨registers', hresult, Machine.returns_iff_runs.mpr ⟨count, hruns⟩⟩
  · rintro ⟨registers', rfl, hreturns⟩
    obtain ⟨count, hruns⟩ := Machine.returns_iff_runs.mp hreturns
    obtain ⟨target, hstart, hstands⟩ :=
      hlifted.exists_runFrom_eq hroutine (platform.bind host) count registers state
    refine ⟨count + 1, ?_⟩
    rw [hinvoke, hstart]
    exact hrenders.runFrom_of_runs hmirrored hstands hruns (Nat.le_refl _)

end Simulation

/-- A program lifted for a flat memory and the machine come to the same
registers and the same memory, whatever they start with, and the program
comes to nothing but registers. -/
theorem returns_iff_evaluates_flat {name : String} {journal journal' : Journal}
    (hrun : decoder.liftProgram .flat entry name journal = .ok module journal')
    (registers : Registers) (ram : Ram) :
    (∀ registers' ram', Machine.Returns decoder Host.ram entry registers ram registers' ram' ↔
      module.Evaluates (Platform.flat.bind Host.ram) (routineName entry) registers.args ram
        registers'.datum ram') ∧
    ∀ result ram', module.Evaluates (Platform.flat.bind Host.ram) (routineName entry)
        registers.args ram result ram' →
      ∃ registers' : Registers, result = registers'.datum := by
  obtain ⟨routines, hrenders⟩ := exists_renders hrun
  have hevaluates (result : Datum) (ram' : Ram) :
      module.Evaluates (Platform.flat.bind Host.ram) (routineName entry) registers.args ram result
          ram' ↔
        ∃ registers', result = Registers.datum registers' ∧
          Machine.Returns decoder Host.ram entry registers ram registers' ram' :=
    hrenders.evaluates_iff fun hplatform => nomatch hplatform
  constructor
  · intro registers' ram'
    rw [hevaluates]
    constructor
    · exact fun hreturns => ⟨registers', rfl, hreturns⟩
    · rintro ⟨found, hsame, hreturns⟩
      rwa [Registers.datum_inj hsame]
  · intro result ram' hresult
    obtain ⟨registers', hregisters, _⟩ := (hevaluates result ram').mp hresult
    exact ⟨registers', hregisters⟩

theorem returns_and_evaluates_tally : ∃ module journal' registers' ram',
    tally.liftProgram .flat 0x8000 "tally" {} = .ok module journal' ∧
    Machine.Returns tally Host.ram 0x8000 ⟨0, 0, 0, false, false, false, false⟩ (fun _ => 0)
      registers' ram' ∧
    module.Evaluates (Platform.flat.bind Host.ram) (routineName 0x8000)
      (Registers.args ⟨0, 0, 0, false, false, false, false⟩) (fun _ => 0) registers'.datum ram' ∧
    ram' 0x10 = 3 := by
  obtain ⟨module, journal', hrun⟩ : ∃ module journal',
      tally.liftProgram .flat 0x8000 "tally" {} = .ok module journal' :=
    Session.exists_of_isOk (by decide +kernel)
  have hcounts : (Machine.run tally Host.ram 17
      ⟨⟨0, 0, 0, false, false, false, false⟩, 0x8000, [], fun _ => 0⟩).result?.map
        (fun returned => decide (returned.2 0x10 = 3)) = some true := by decide +kernel
  obtain ⟨⟨registers', ram'⟩, hresult, hcount⟩ := Option.map_eq_some_iff.mp hcounts
  have hreturns : Machine.Returns tally Host.ram 0x8000 ⟨0, 0, 0, false, false, false, false⟩
      (fun _ => 0) registers' ram' := ⟨17, Machine.Progress.result?_eq_some hresult⟩
  exact ⟨module, journal', registers', ram', hrun, hreturns,
    ((returns_iff_evaluates_flat hrun _ _).1 registers' ram').mp hreturns,
    of_decide_eq_true hcount⟩

end Decoder

end Lift6502
