import Lift6502.Proofs.Lowering.Calls
import Lift6502.Proofs.Machine

/-! The code of instructions that control passes one after another. A run gets
through the code exactly if the machine gets through the instructions, and
both leave the same registers. -/

namespace Lift6502

open Ssa

theorem Instruction.callTarget?_of_takes {instruction : Instruction}
    (htakes : instruction.operation.takes instruction.mode = true)
    (hcall : instruction.isCall = true) : ∃ target, instruction.callTarget? = some target := by
  rw [beq_iff_eq.mp hcall] at htakes
  obtain ⟨target, htarget⟩ := Instruction.exists_target (.inl (beq_iff_eq.mp htakes))
  exact ⟨target, by simp [Instruction.callTarget?, hcall, htarget]⟩

theorem Lowering.lower_call (platform : Platform) (sites : Sites) {instruction : Instruction}
    (hcall : instruction.isCall = true) :
    Lowering.lower platform sites instruction = Lowering.call instruction := by
  unfold Lowering.lower
  rw [beq_iff_eq.mp hcall]

/-- What calls of routines do in an environment. -/
def Ssa.Environment.calls {σ : Type} (environment : Environment σ) (target : Address)
    (registers : Registers) (state : σ) (registers' : Registers) (state' : σ) : Prop :=
  environment.call (routineName target) registers.args state = some (registers'.datum, state')

/-- What routines give back are registers. -/
def Ssa.Environment.Answers {σ : Type} (environment : Environment σ) : Prop :=
  ∀ (target : Address) (registers : Registers) (state : σ) (result : Datum) (state' : σ),
    environment.call (routineName target) registers.args state = some (result, state') →
      ∃ registers' : Registers, result = registers'.datum

/-- Instructions add their code to a block, one after another. -/
inductive Lowers (platform : Platform) (sites : Sites) (start : Function) (block : BlockId) :
    List Instruction → List Value → PerRegister ValueId → List Value → PerRegister ValueId → Prop
  | nil {code : List Value} {values : PerRegister ValueId} :
      Lowers platform sites start block [] code values code values
  | cons {instruction : Instruction} {rest : List Instruction} {code more code' : List Value}
      {values values₁ values' : PerRegister ValueId}
      (hlower : Lowering.lower platform sites instruction
        ⟨start.append block code, block, values⟩ =
          .ok ((), ⟨start.append block (code ++ more), block, values₁⟩))
      (hrest : Lowers platform sites start block rest (code ++ more) values₁ code' values') :
      Lowers platform sites start block (instruction :: rest) code values code' values'

section Lowers

variable {platform : Platform} {sites : Sites} {start : Function} {block : BlockId}
  {instructions : List Instruction} {code code' : List Value}
  {values values' : PerRegister ValueId}
  (hlowers : Lowers platform sites start block instructions code values code' values')

include hlowers

theorem Lowers.forM_eq : instructions.forM (Lowering.lower platform sites)
    ⟨start.append block code, block, values⟩ =
      .ok ((), ⟨start.append block code', block, values'⟩) := by
  induction hlowers with
  | nil => rfl
  | cons hlower hrest ih => exact (StateT.bind_of_ok hlower).trans ih

theorem Lowers.extends : ∃ more, code' = code ++ more := by
  induction hlowers with
  | nil => exact ⟨[], (List.append_nil _).symm⟩
  | cons hlower hrest ih =>
      obtain ⟨last, rfl⟩ := ih
      exact ⟨_ ++ last, List.append_assoc _ _ _⟩

end Lowers

namespace Scene

variable {σ : Type} {scene : Scene σ} {code code' : List Value}
  {values values' : PerRegister ValueId} {facts : List Fact} {registers : Registers} {state : σ}
  {decoder : Decoder} {address final : Address} {instructions : List Instruction}

theorem Carries.lower_append (hcarries : scene.Carries code values facts registers state)
    {instruction : Instruction} (sites : Sites)
    (htakes : instruction.operation.takes instruction.mode = true)
    (hstraight : instruction.transfers = false) (hcall : instruction.isCall = false) :
    ∃ more values' facts', ∃ registers' state',
      Lowering.lower scene.platform sites instruction (scene.frame code values) =
        .ok ((), scene.frame (code ++ more) values') ∧
      Machine.execute scene.host instruction registers state =
        some ((registers', .next), state') ∧
      scene.Carries (code ++ more) values' facts' registers' state' := by
  have hkept : (scene.keeping code).Carries code values facts registers state :=
    ⟨hcarries.tracks.keep, hcarries.carried⟩
  obtain ⟨code', values', facts', registers', state', hlower, hexecute, hcarries'⟩ :=
    hkept.lower sites htakes hstraight hcall
  obtain ⟨⟨more, rfl⟩, htracks⟩ := hcarries'.tracks.release hcarries.tracks.front
  exact ⟨more, values', facts', registers', state', hlower, hexecute, htracks,
    hcarries'.carried⟩

/-- The code of one instruction does what the machine does on it, and a run
does not get through it if the machine does not. -/
theorem Carries.step (hcarries : scene.Carries code values facts registers state)
    {instruction : Instruction} (sites : Sites)
    (htakes : instruction.operation.takes instruction.mode = true)
    (hstraight : instruction.transfers = false) :
    ∃ more values',
      Lowering.lower scene.platform sites instruction (scene.frame code values) =
        .ok ((), scene.frame (code ++ more) values') ∧
      (∀ registers' state', Machine.Advances scene.host scene.environment.calls [instruction]
          registers state registers' state' →
        ∃ facts', scene.Carries (code ++ more) values' facts' registers' state') ∧
      (scene.environment.Answers → scene.Hosts (code ++ more) → ∀ reached,
        scene.activation.computeAll scene.environment (placed scene.base (code ++ more))
            scene.locals scene.state = some reached →
          ∃ registers' state', Machine.Advances scene.host scene.environment.calls [instruction]
            registers state registers' state') := by
  cases hcall : instruction.isCall with
  | false =>
      obtain ⟨more, values', facts', registers₁, state₁, hlower, hexecute, hcarries'⟩ :=
        hcarries.lower_append sites htakes hstraight hcall
      refine ⟨more, values', hlower, ?_, fun _ _ _ _ => ⟨_, _, .next hexecute .nil⟩⟩
      intro registers' state' hadvances
      cases hadvances with
      | next hexecute' hnil =>
          cases hnil
          cases hexecute.symm.trans hexecute'
          exact ⟨facts', hcarries'⟩
      | call htarget hcalls hnil =>
          simp [Instruction.callTarget?, hcall] at htarget
  | true =>
      obtain ⟨target, htarget⟩ := Instruction.callTarget?_of_takes htakes hcall
      obtain ⟨more, values', hlower, hresult, hreached⟩ := hcarries.call htarget
      rw [← Lowering.lower_call scene.platform sites hcall] at hlower
      refine ⟨more, values', hlower, ?_, ?_⟩
      · intro registers' state' hadvances
        cases hadvances with
        | next hexecute hnil =>
            cases (Machine.execute_call htarget).symm.trans hexecute
        | call htarget' hcalls hnil =>
            cases htarget.symm.trans htarget'
            cases hnil
            exact hresult registers' state' hcalls
      · intro hanswers hhosts reached hcomputed
        obtain ⟨⟨result, state'⟩, hcalled⟩ := hreached hhosts reached hcomputed
        obtain ⟨registers', rfl⟩ := hanswers target registers state result state' hcalled
        exact ⟨registers', state', .call htarget hcalled .nil⟩

/-- Where every call returns, the code of all instructions is built. -/
theorem Carries.exists_lowers (hcarries : scene.Carries code values facts registers state)
    (sites : Sites)
    (hreturns : ∀ target registers state, ∃ registers' state',
      scene.environment.calls target registers state registers' state')
    (hpasses : decoder.Passes address instructions final) :
    ∃ code' values' facts', ∃ registers' state',
      Lowers scene.platform sites scene.start scene.block instructions code values code' values' ∧
      scene.Carries code' values' facts' registers' state' := by
  induction hpasses generalizing code values facts registers state with
  | nil address => exact ⟨code, values, facts, registers, state, .nil, hcarries⟩
  | cons hdecoded hstraight hrest ih =>
      rename_i instruction rest
      have htakes := (Decoder.placedAt_of_instruction? hdecoded).takes_mode
      obtain ⟨more, values₁, hlower, hresult, _⟩ := hcarries.step sites htakes hstraight
      have hadvances : ∃ registers' state', Machine.Advances scene.host scene.environment.calls
          [instruction] registers state registers' state' := by
        cases hcall : instruction.isCall with
        | true =>
            obtain ⟨target, htarget⟩ := Instruction.callTarget?_of_takes htakes hcall
            obtain ⟨registers', state', hcalls⟩ := hreturns target registers state
            exact ⟨registers', state', .call htarget hcalls .nil⟩
        | false =>
            obtain ⟨_, _, _, registers', state', _, hexecute, _⟩ :=
              hcarries.lower_append sites htakes hstraight hcall
            exact ⟨registers', state', .next hexecute .nil⟩
      obtain ⟨registers₁, state₁, hfirst⟩ := hadvances
      obtain ⟨facts₁, hcarries₁⟩ := hresult registers₁ state₁ hfirst
      obtain ⟨code', values', facts', registers', state', hlowers, hcarries'⟩ := ih hcarries₁
      exact ⟨code', values', facts', registers', state', .cons hlower hlowers, hcarries'⟩

variable {sites : Sites}
  (hlowers : Lowers scene.platform sites scene.start scene.block instructions code values
    code' values')
  (hpasses : decoder.Passes address instructions final)
  (hcarries : scene.Carries code values facts registers state)

include hlowers hpasses hcarries

theorem Carries.lowers {registers' : Registers} {state' : σ}
    (hadvances : Machine.Advances scene.host scene.environment.calls instructions registers
      state registers' state') :
    ∃ facts', scene.Carries code' values' facts' registers' state' := by
  induction hpasses generalizing code values facts registers state with
  | nil address =>
      cases hlowers
      cases hadvances
      exact ⟨facts, hcarries⟩
  | cons hdecoded hstraight hrest ih =>
      have htakes := (Decoder.placedAt_of_instruction? hdecoded).takes_mode
      obtain ⟨more, values₁, hlower, hresult, _⟩ := hcarries.step sites htakes hstraight
      cases hlowers with
      | cons hlower' hlowers =>
          obtain ⟨hcode, rfl⟩ := frame_inj
            (congrArg Prod.snd (Except.ok.inj (hlower.symm.trans hlower')))
          rw [← hcode] at hlowers
          cases hadvances with
          | next hexecute hadvances =>
              obtain ⟨facts₁, hcarries₁⟩ := hresult _ _ (.next hexecute .nil)
              exact ih hlowers hcarries₁ hadvances
          | call htarget hcall hadvances =>
              obtain ⟨facts₁, hcarries₁⟩ := hresult _ _ (.call htarget hcall .nil)
              exact ih hlowers hcarries₁ hadvances

theorem Carries.exists_advances (hanswers : scene.environment.Answers) (hhosts : scene.Hosts code')
    {reached : Locals × σ}
    (hcomputed : scene.activation.computeAll scene.environment (placed scene.base code')
      scene.locals scene.state = some reached) :
    ∃ registers' state', Machine.Advances scene.host scene.environment.calls instructions
      registers state registers' state' := by
  induction hpasses generalizing code values facts registers state with
  | nil address =>
      cases hlowers
      exact ⟨registers, state, .nil⟩
  | cons hdecoded hstraight hrest ih =>
      have htakes := (Decoder.placedAt_of_instruction? hdecoded).takes_mode
      obtain ⟨more, values₁, hlower, hresult, hreached⟩ := hcarries.step sites htakes hstraight
      cases hlowers with
      | cons hlower' hlowers =>
          obtain ⟨hcode, rfl⟩ := frame_inj
            (congrArg Prod.snd (Except.ok.inj (hlower.symm.trans hlower')))
          rw [← hcode] at hlowers
          -- What gets through the whole code gets through its front.
          obtain ⟨last, rfl⟩ := hlowers.extends
          rw [placed_append, Activation.computeAll_append] at hcomputed
          obtain ⟨middle, hmiddle, _⟩ := Option.bind_eq_some_iff.mp hcomputed
          obtain ⟨registers₁, state₁, hfirst⟩ :=
            hreached hanswers hhosts.of_append middle hmiddle
          obtain ⟨facts₁, hcarries₁⟩ := hresult registers₁ state₁ hfirst
          obtain ⟨registers', state', hadvances⟩ := ih hlowers hcarries₁
          cases hfirst with
          | next hexecute hnil =>
              cases hnil
              exact ⟨registers', state', .next hexecute hadvances⟩
          | call htarget hcall hnil =>
              cases hnil
              exact ⟨registers', state', .call htarget hcall hadvances⟩

end Scene

end Lift6502
