import Lift6502.Proofs.ControlFlow

/-! Runs of routines. The machine executes what the operations of instructions
stand for. It keeps return addresses on a stack; a run of a routine is the part
between its call and its return, and the runs of the routines it calls lie
inside it. -/

namespace Lift6502

/-! Operations -/

def LogicOp.apply (op : LogicOp) (lhs rhs : Byte) : Byte :=
  match op with
  | .or => lhs ||| rhs
  | .and => lhs &&& rhs
  | .xor => lhs ^^^ rhs

namespace Machine

variable {σ : Type}

/-- What an instruction does, by its operation. -/
def perform (host : Host σ) (instruction : Instruction) (registers : Registers) :
    Host.Access σ (Registers × Control) :=
  let onValue := onValue host instruction registers
  match instruction.operation with
  | .load register => onValue (registers.setWithNZ register)
  | .store register => storeByte host instruction registers (registers.byte register)
  | .compare register => onValue (registers.compare register)
  | .increment register => proceed (registers.setWithNZ register (registers.byte register + 1))
  | .decrement register => proceed (registers.setWithNZ register (registers.byte register - 1))
  | .incrementMemory => changeMemory host instruction registers (· + 1)
  | .decrementMemory => changeMemory host instruction registers (· - 1)
  | .logic op => onValue fun value => registers.setWithNZ .a (op.apply registers.a value)
  | .bitTest => onValue registers.bitTest
  | .addWithCarry => onValue registers.addWithCarry
  | .subtractWithCarry => onValue registers.subtractWithCarry
  | .transfer source target => proceed (registers.setWithNZ target (registers.byte source))
  | .setFlag flag value => proceed (registers.setFlag flag value)
  | .branch flag inverse =>
      branchIf instruction registers
        (if inverse then !registers.flag flag else registers.flag flag)
  | .jump => do return (registers, .goTo (← target instruction))
  | .call => do return (registers, .call (← target instruction))
  | .ret => return (registers, .ret)
  | .idle => proceed registers

/-- Mnemonics have the operations that the machine executes for them. -/
theorem execute_eq_perform (host : Host σ) (instruction : Instruction) (registers : Registers) :
    execute host instruction registers = perform host instruction registers := by
  unfold execute perform Instruction.operation
  cases instruction.mnemonic <;> rfl

/-- Branches, jumps and calls lead where the machine goes. -/
theorem target_eq (instruction : Instruction) (state : σ) :
    target instruction state = instruction.target?.map fun target => (target, state) := by
  unfold target Instruction.target?
  cases hoperand : instruction.operand with
  | none => rfl
  | some operand =>
      cases operand with
      | relative offset =>
          have hlength : instruction.length = 2 := by
            rw [Instruction.length, hoperand]
            rfl
          have htarget : UInt16.ofInt (instruction.location.toNat + 2 + offset.toInt) =
              instruction.following + offset.toInt16.toUInt16 := by
            rw [Instruction.eq_relative_iff, hlength, UInt16.ofInt, UInt16.toNat_ofNat']
            omega
          exact congrArg (fun target => some (target, state)) htarget
      | absolute | absoluteX | absoluteY | immediate | indirectY | zeroPage => rfl

section Effects

variable {host : Host σ} {instruction : Instruction} {registers registers' : Registers}
  {state state' : σ}

theorem onValue_eq {content : Byte} {change : Byte → Registers}
    (hvalue : value host registers instruction.operand state = some (content, state')) :
    onValue host instruction registers change state =
      some ((change content, .next), state') := by
  show (value host registers instruction.operand state).bind _ = _
  rw [hvalue]
  rfl

theorem storeByte_eq {place : Address} {byte : Byte}
    (hplace : address host registers instruction.operand state = some (place, state')) :
    storeByte host instruction registers byte state =
      some ((registers, .next), host.write place byte state') := by
  show (address host registers instruction.operand state).bind _ = _
  rw [hplace]
  rfl

theorem changeMemory_eq {change : Byte → Byte}
    (hmodify : modifyMemory host registers instruction.operand change state =
      some (registers', state')) :
    changeMemory host instruction registers change state =
      some ((registers', .next), state') := by
  show (modifyMemory host registers instruction.operand change state).bind _ = _
  rw [hmodify]
  rfl

end Effects

/-! Runs -/

/-- A routine runs from an address until it returns, within a number of
instructions. -/
inductive Runs (decoder : Decoder) (host : Host σ) :
    Nat → Address → Registers → σ → Registers → σ → Prop
  | next {count : Nat} {address : Address} {instruction : Instruction}
      {registers registers₁ registers' : Registers} {state state₁ state' : σ}
      (hdecoded : decoder.instruction? address = some instruction)
      (hexecute : execute host instruction registers state = some ((registers₁, .next), state₁))
      (hrest : Runs decoder host count instruction.following registers₁ state₁ registers' state') :
      Runs decoder host (count + 1) address registers state registers' state'
  | goTo {count : Nat} {address target : Address} {instruction : Instruction}
      {registers registers₁ registers' : Registers} {state state₁ state' : σ}
      (hdecoded : decoder.instruction? address = some instruction)
      (hexecute : execute host instruction registers state =
        some ((registers₁, .goTo target), state₁))
      (hrest : Runs decoder host count target registers₁ state₁ registers' state') :
      Runs decoder host (count + 1) address registers state registers' state'
  | call {inner count : Nat} {address target : Address} {instruction : Instruction}
      {registers registers₁ registers₂ registers' : Registers} {state state₁ state₂ state' : σ}
      (hdecoded : decoder.instruction? address = some instruction)
      (hexecute : execute host instruction registers state =
        some ((registers₁, .call target), state₁))
      (hcalled : Runs decoder host inner target registers₁ state₁ registers₂ state₂)
      (hrest : Runs decoder host count instruction.following registers₂ state₂ registers' state') :
      Runs decoder host (inner + count + 1) address registers state registers' state'
  | ret {address : Address} {instruction : Instruction} {registers registers' : Registers}
      {state state' : σ} (hdecoded : decoder.instruction? address = some instruction)
      (hexecute : execute host instruction registers state = some ((registers', .ret), state')) :
      Runs decoder host 1 address registers state registers' state'

variable {decoder : Decoder} {host : Host σ} {count : Nat} {address : Address}
  {instruction : Instruction} {registers registers' registers₁ : Registers}
  {state state' state₁ : σ}

theorem Runs.count_pos
    (hruns : Runs decoder host count address registers state registers' state') : 0 < count := by
  cases hruns <;> exact Nat.succ_pos _

/-! Runs and steps -/

theorem step_eq_transfer {control : Control} (returns : List Address)
    (hdecoded : decoder.instruction? address = some instruction)
    (hexecute : execute host instruction registers state = some ((registers₁, control), state₁)) :
    step decoder host ⟨registers, address, returns, state⟩ =
      transfer instruction returns registers₁ state₁ control := by
  simp only [step, hdecoded, hexecute]

/-- What happens once a routine has returned. -/
def resume (decoder : Decoder) (host : Host σ) (steps : Nat) (returns : List Address)
    (registers : Registers) (state : σ) : Progress σ :=
  match returns with
  | [] => .returned registers state
  | counter :: returns => run decoder host steps ⟨registers, counter, returns, state⟩

def Progress.result? : Progress σ → Option (Registers × σ)
  | .returned registers state => some (registers, state)
  | .running _ | .stuck => none

theorem Progress.result?_eq_some {progress : Progress σ} {registers : Registers} {state : σ}
    (hresult : progress.result? = some (registers, state)) :
    progress = .returned registers state := by
  cases progress with
  | returned registers' state' =>
      cases hresult
      rfl
  | running | stuck => cases hresult

/-- The machine runs a routine whatever is on the stack. -/
theorem Runs.run_eq_resume
    (hruns : Runs decoder host count address registers state registers' state')
    (returns : List Address) (spare : Nat) :
    run decoder host (count + spare) ⟨registers, address, returns, state⟩ =
      resume decoder host spare returns registers' state' := by
  induction hruns generalizing returns spare with
  | next hdecoded hexecute hrest ih =>
      rw [Nat.add_right_comm, run, step_eq_transfer returns hdecoded hexecute]
      exact ih returns spare
  | goTo hdecoded hexecute hrest ih =>
      rw [Nat.add_right_comm, run, step_eq_transfer returns hdecoded hexecute]
      exact ih returns spare
  | call hdecoded hexecute hcalled hrest ihCalled ih =>
      rename_i inner count _ _ instruction _ _ _ _ _ _ _ _
      rw [Nat.add_right_comm, run, step_eq_transfer returns hdecoded hexecute, Nat.add_assoc]
      exact (ihCalled (instruction.following :: returns) (count + spare)).trans (ih returns spare)
  | ret hdecoded hexecute =>
      rw [Nat.add_comm, run, step_eq_transfer returns hdecoded hexecute]
      cases returns <;> rfl

/-- A machine that ends has run the routine it was in. -/
theorem exists_runs_of_run {steps : Nat} {returns : List Address}
    (hrun : run decoder host steps ⟨registers, address, returns, state⟩ =
      .returned registers' state') :
    ∃ count registers₁ state₁,
      Runs decoder host count address registers state registers₁ state₁ ∧
      resume decoder host (steps - count) returns registers₁ state₁ =
        .returned registers' state' := by
  induction steps using Nat.strongRecOn generalizing address registers state returns with
  | ind steps ih =>
      cases steps with
      | zero => cases hrun
      | succ steps =>
          rw [run] at hrun
          cases hdecoded : decoder.instruction? address with
          | none =>
              simp only [step, hdecoded] at hrun
              cases hrun
          | some instruction =>
              cases hexecute : execute host instruction registers state with
              | none =>
                  simp only [step, hdecoded, hexecute] at hrun
                  cases hrun
              | some outcome =>
                  obtain ⟨⟨registers₁, control⟩, state₁⟩ := outcome
                  rw [step_eq_transfer returns hdecoded hexecute] at hrun
                  cases control with
                  | next =>
                      obtain ⟨count, _, _, hruns, hresume⟩ := ih steps (Nat.lt_succ_self _) hrun
                      refine ⟨_, _, _, .next hdecoded hexecute hruns, ?_⟩
                      rwa [Nat.add_sub_add_right]
                  | goTo target =>
                      obtain ⟨count, _, _, hruns, hresume⟩ := ih steps (Nat.lt_succ_self _) hrun
                      refine ⟨_, _, _, .goTo hdecoded hexecute hruns, ?_⟩
                      rwa [Nat.add_sub_add_right]
                  | call target =>
                      -- The callee runs first; the rest starts where it has returned to.
                      obtain ⟨inner, _, _, hcalled, hresumed⟩ :=
                        ih steps (Nat.lt_succ_self _) hrun
                      obtain ⟨count, _, _, hruns, hresume⟩ :=
                        ih (steps - inner) (Nat.lt_succ_of_le (Nat.sub_le _ _)) hresumed
                      refine ⟨_, _, _, .call hdecoded hexecute hcalled hruns, ?_⟩
                      rwa [Nat.add_sub_add_right, ← Nat.sub_sub]
                  | ret =>
                      refine ⟨1, registers₁, state₁, .ret hdecoded hexecute, ?_⟩
                      cases returns <;> exact hrun

theorem returns_iff_runs :
    Returns decoder host address registers state registers' state' ↔
      ∃ count, Runs decoder host count address registers state registers' state' := by
  constructor
  · rintro ⟨steps, hrun⟩
    obtain ⟨count, _, _, hruns, hresume⟩ := exists_runs_of_run hrun
    cases hresume
    exact ⟨count, hruns⟩
  · rintro ⟨count, hruns⟩
    exact ⟨count, hruns.run_eq_resume [] 0⟩

/-! Where control goes -/

/-- An access that ends in going on to the next instruction. -/
def GoesOn (access : Host.Access σ (Registers × Control)) : Prop :=
  ∀ state outcome, access state = some outcome → outcome.1.2 = .next

theorem GoesOn.pure : GoesOn (pure (registers, .next) : Host.Access σ (Registers × Control)) := by
  intro state outcome houtcome
  cases houtcome
  rfl

theorem GoesOn.bind {α : Type} {access : Host.Access σ α}
    {rest : α → Host.Access σ (Registers × Control)} (hrest : ∀ value, GoesOn (rest value)) :
    GoesOn (access >>= rest) := by
  intro state outcome houtcome
  obtain ⟨⟨value, state₁⟩, _, houtcome⟩ := Option.bind_eq_some_iff.mp houtcome
  exact hrest value state₁ outcome houtcome

theorem goesOn_of_straight (hstraight : instruction.transfers = false)
    (hcall : instruction.isCall = false) : GoesOn (execute host instruction registers) := by
  rw [execute_eq_perform]
  unfold perform
  cases hoperation : instruction.operation with
  | branch | jump | ret =>
      simp [Instruction.transfers, Instruction.isBranch, Instruction.isTerminal, hoperation]
        at hstraight
  | call => simp [Instruction.isCall, hoperation] at hcall
  | load | compare | logic | bitTest | addWithCarry | subtractWithCarry | incrementMemory
  | decrementMemory => exact .bind fun _ => .pure
  | store => exact .bind fun _ => .bind fun _ => .pure
  | increment | decrement | transfer | setFlag | idle => exact .pure

theorem bind_target {α : Type} (next : Address → Host.Access σ α) :
    (target instruction >>= next) state =
      instruction.target?.bind fun target => next target state := by
  show (target instruction state).bind _ = _
  rw [target_eq]
  cases instruction.target? <;> rfl

theorem execute_call {target : Address} (htarget : instruction.callTarget? = some target) :
    execute host instruction registers state = some ((registers, .call target), state) := by
  obtain ⟨hcall, htarget⟩ := Option.ite_none_right_eq_some.mp htarget
  rw [execute_eq_perform, perform, beq_iff_eq.mp hcall]
  refine (bind_target _).trans ?_
  rw [htarget]
  rfl

theorem execute_jump {target : Address} (hoperation : instruction.operation = .jump)
    (htarget : instruction.target? = some target) :
    execute host instruction registers state = some ((registers, .goTo target), state) := by
  rw [execute_eq_perform, perform, hoperation]
  refine (bind_target _).trans ?_
  rw [htarget]
  rfl

theorem execute_branch {flag : Flag} {inverse : Bool} {target : Address}
    (hoperation : instruction.operation = .branch flag inverse)
    (htarget : instruction.target? = some target) :
    execute host instruction registers state =
      some ((registers, if registers.flag flag = inverse then .next else .goTo target), state) := by
  rw [execute_eq_perform, perform, hoperation]
  refine (bind_target _).trans ?_
  rw [htarget]
  cases inverse <;> cases registers.flag flag <;> rfl

theorem execute_ret (hoperation : instruction.operation = .ret) :
    execute host instruction registers state = some ((registers, .ret), state) := by
  rw [execute_eq_perform, perform, hoperation]
  rfl

theorem control_of_straight {control : Control} (hstraight : instruction.transfers = false)
    (hexecute : execute host instruction registers state = some ((registers₁, control), state₁)) :
    control = .next ∨ ∃ target, instruction.callTarget? = some target ∧
      control = .call target ∧ registers₁ = registers ∧ state₁ = state := by
  cases hcall : instruction.isCall with
  | false => exact .inl (goesOn_of_straight hstraight hcall _ _ hexecute)
  | true =>
      cases htarget : instruction.target? with
      | some target =>
          have hcallTarget : instruction.callTarget? = some target := by
            simp [Instruction.callTarget?, hcall, htarget]
          rw [execute_call hcallTarget] at hexecute
          cases hexecute
          exact .inr ⟨target, hcallTarget, rfl, rfl, rfl⟩
      | none =>
          rw [execute_eq_perform, perform, beq_iff_eq.mp hcall] at hexecute
          have hfails := (bind_target _).symm.trans hexecute
          rw [htarget] at hfails
          cases hfails

/-! Stretches of code -/

/-- Instructions are executed one after another. What a call does is given. -/
inductive Advances (host : Host σ) (calls : Address → Registers → σ → Registers → σ → Prop) :
    List Instruction → Registers → σ → Registers → σ → Prop
  | nil {registers : Registers} {state : σ} : Advances host calls [] registers state registers state
  | next {instruction : Instruction} {rest : List Instruction}
      {registers registers₁ registers' : Registers} {state state₁ state' : σ}
      (hexecute : execute host instruction registers state = some ((registers₁, .next), state₁))
      (hrest : Advances host calls rest registers₁ state₁ registers' state') :
      Advances host calls (instruction :: rest) registers state registers' state'
  | call {instruction : Instruction} {rest : List Instruction} {target : Address}
      {registers registers₁ registers' : Registers} {state state₁ state' : σ}
      (htarget : instruction.callTarget? = some target)
      (hcall : calls target registers state registers₁ state₁)
      (hrest : Advances host calls rest registers₁ state₁ registers' state') :
      Advances host calls (instruction :: rest) registers state registers' state'

variable {calls calls' : Address → Registers → σ → Registers → σ → Prop}
  {instructions : List Instruction} {final : Address}

theorem Advances.imp
    (hadvances : Advances host calls instructions registers state registers' state')
    (hcalls : ∀ instruction ∈ instructions, ∀ target, instruction.callTarget? = some target →
      ∀ registers state registers' state', calls target registers state registers' state' →
        calls' target registers state registers' state') :
    Advances host calls' instructions registers state registers' state' := by
  induction hadvances with
  | nil => exact .nil
  | next hexecute hrest ih =>
      exact .next hexecute (ih fun instruction hmem =>
        hcalls instruction (List.mem_cons_of_mem _ hmem))
  | call htarget hcall hrest ih =>
      exact .call htarget (hcalls _ List.mem_cons_self _ htarget _ _ _ _ hcall)
        (ih fun instruction hmem => hcalls instruction (List.mem_cons_of_mem _ hmem))

/-- A run goes through a stretch of code that it comes to, and the runs of the
routines called there are shorter. -/
theorem Runs.advances (hpasses : decoder.Passes address instructions final)
    (hruns : Runs decoder host count address registers state registers' state') :
    ∃ rest registers₁ state₁,
      Advances host (fun target registers state registers' state' => ∃ inner, inner + 2 ≤ count ∧
        Runs decoder host inner target registers state registers' state')
        instructions registers state registers₁ state₁ ∧
      Runs decoder host rest final registers₁ state₁ registers' state' ∧
      rest + instructions.length ≤ count := by
  induction hpasses generalizing count registers state with
  | nil address => exact ⟨count, registers, state, .nil, hruns, Nat.le_refl _⟩
  | cons hdecoded hstraight hrest ih =>
      cases hruns with
      | next hdecoded' hexecute hruns =>
          cases hdecoded.symm.trans hdecoded'
          obtain ⟨rest, registers₁, state₁, hadvances, hruns', hlength⟩ := ih hruns
          refine ⟨rest, registers₁, state₁, .next hexecute (hadvances.imp ?_), hruns', ?_⟩
          · rintro _ _ _ _ _ _ _ _ ⟨inner, hinner, hcalled⟩
            exact ⟨inner, Nat.le_succ_of_le hinner, hcalled⟩
          · rw [List.length_cons]
            omega
      | call hdecoded' hexecute hcalled hruns =>
          cases hdecoded.symm.trans hdecoded'
          have hcount := hruns.count_pos
          rcases control_of_straight hstraight hexecute with
            hnext | ⟨target, htarget, hcall, rfl, rfl⟩
          · cases hnext
          · cases hcall
            obtain ⟨rest, registers₁, state₁, hadvances, hruns', hlength⟩ := ih hruns
            refine ⟨rest, registers₁, state₁, .call htarget ⟨_, by omega, hcalled⟩
              (hadvances.imp ?_), hruns', ?_⟩
            · rintro _ _ _ _ _ _ _ _ ⟨inner, hinner, hcalled⟩
              exact ⟨inner, by omega, hcalled⟩
            · rw [List.length_cons]
              omega
      | goTo hdecoded' hexecute hruns =>
          cases hdecoded.symm.trans hdecoded'
          rcases control_of_straight hstraight hexecute with hnext | ⟨_, _, hcall, _⟩
          · cases hnext
          · cases hcall
      | ret hdecoded' hexecute =>
          cases hdecoded.symm.trans hdecoded'
          rcases control_of_straight hstraight hexecute with hnext | ⟨_, _, hcall, _⟩
          · cases hnext
          · cases hcall

theorem Advances.runs (hpasses : decoder.Passes address instructions final)
    (hadvances : Advances host (fun target registers state registers' state' => ∃ inner,
      Runs decoder host inner target registers state registers' state')
      instructions registers state registers₁ state₁)
    (hruns : Runs decoder host count final registers₁ state₁ registers' state') :
    ∃ count, Runs decoder host count address registers state registers' state' := by
  induction hpasses generalizing registers state with
  | nil address =>
      cases hadvances
      exact ⟨count, hruns⟩
  | cons hdecoded hstraight hrest ih =>
      cases hadvances with
      | next hexecute hadvances =>
          obtain ⟨rest, hruns'⟩ := ih hadvances hruns
          exact ⟨_, .next hdecoded hexecute hruns'⟩
      | call htarget hcall hadvances =>
          obtain ⟨inner, hcalled⟩ := hcall
          obtain ⟨rest, hruns'⟩ := ih hadvances hruns
          exact ⟨_, .call hdecoded (execute_call htarget) hcalled hruns'⟩

/-- Where control goes behind a stretch of code that starts at `leader` and
ends at `address`: to another address, or back to the caller. -/
inductive Leaves (decoder : Decoder) (host : Host σ) (leader address : Address)
    (registers : Registers) (state : σ) : Option Address → Prop
  | fall (hother : address ≠ leader) :
      Leaves decoder host leader address registers state (some address)
  | next {instruction : Instruction} (hdecoded : decoder.instruction? address = some instruction)
      (hexecute : execute host instruction registers state = some ((registers, .next), state)) :
      Leaves decoder host leader address registers state (some instruction.following)
  | goTo {instruction : Instruction} {target : Address}
      (hdecoded : decoder.instruction? address = some instruction)
      (hexecute : execute host instruction registers state =
        some ((registers, .goTo target), state)) :
      Leaves decoder host leader address registers state (some target)
  | ret {instruction : Instruction} (hdecoded : decoder.instruction? address = some instruction)
      (hexecute : execute host instruction registers state = some ((registers, .ret), state)) :
      Leaves decoder host leader address registers state none

variable {leader target : Address}

/-- A run that goes on behind a stretch is shorter than from the leader. -/
theorem Leaves.exists_runs
    (hleaves : Leaves decoder host leader address registers state (some target))
    (hpasses : decoder.Passes leader instructions address)
    (hruns : Runs decoder host count address registers state registers' state') :
    ∃ rest, rest < count + instructions.length ∧
      Runs decoder host rest target registers state registers' state' := by
  cases hleaves with
  | fall hother =>
      have hlength : 0 < instructions.length := by
        cases hpasses with
        | nil => exact absurd rfl hother
        | cons => exact Nat.succ_pos _
      exact ⟨count, by omega, hruns⟩
  | next hdecoded hexecute =>
      cases hruns with
      | next hdecoded' hexecute' hruns =>
          cases hdecoded.symm.trans hdecoded'
          cases hexecute.symm.trans hexecute'
          exact ⟨_, by omega, hruns⟩
      | goTo hdecoded' hexecute' | call hdecoded' hexecute' | ret hdecoded' hexecute' =>
          cases hdecoded.symm.trans hdecoded'
          cases hexecute.symm.trans hexecute'
  | goTo hdecoded hexecute =>
      cases hruns with
      | goTo hdecoded' hexecute' hruns =>
          cases hdecoded.symm.trans hdecoded'
          cases hexecute.symm.trans hexecute'
          exact ⟨_, by omega, hruns⟩
      | next hdecoded' hexecute' | call hdecoded' hexecute' | ret hdecoded' hexecute' =>
          cases hdecoded.symm.trans hdecoded'
          cases hexecute.symm.trans hexecute'

theorem Leaves.runs (hleaves : Leaves decoder host leader address registers state (some target))
    (hruns : Runs decoder host count target registers state registers' state') :
    ∃ count, Runs decoder host count address registers state registers' state' := by
  cases hleaves with
  | fall => exact ⟨count, hruns⟩
  | next hdecoded hexecute => exact ⟨_, .next hdecoded hexecute hruns⟩
  | goTo hdecoded hexecute => exact ⟨_, .goTo hdecoded hexecute hruns⟩

theorem Leaves.runs_none_iff
    (hleaves : Leaves decoder host leader address registers state none) :
    (∃ count, Runs decoder host count address registers state registers' state') ↔
      registers' = registers ∧ state' = state := by
  cases hleaves with
  | ret hdecoded hexecute =>
      constructor
      · rintro ⟨count, hruns⟩
        cases hruns with
        | ret hdecoded' hexecute' =>
            cases hdecoded.symm.trans hdecoded'
            cases hexecute.symm.trans hexecute'
            exact ⟨rfl, rfl⟩
        | next hdecoded' hexecute' | goTo hdecoded' hexecute' | call hdecoded' hexecute' =>
            cases hdecoded.symm.trans hdecoded'
            cases hexecute.symm.trans hexecute'
      · rintro ⟨rfl, rfl⟩
        exact ⟨1, .ret hdecoded hexecute⟩

end Machine

end Lift6502
