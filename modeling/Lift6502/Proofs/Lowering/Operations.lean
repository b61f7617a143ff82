import Lift6502.Proofs.Lowering.Knowledge

/-! Operations in a run. What runs show of the values that code computes is a
sense of knowing: an operation on known values succeeds, and adds what it
computes to what is known. -/

namespace Lift6502

open Ssa

namespace Scene

variable {σ : Type} {scene : Scene σ} {code : List Value} {facts : List Fact} {state : σ}

/-! Operations on integers. Each is folded when its operands are constants. -/

theorem Known.agrees {fact : Fact} (hknown : scene.Known code fact) :
    (scene.function code).Agrees fact := by
  refine ⟨hknown.type?, fun bits hbits => ?_, hknown.fits⟩
  obtain ⟨value, hvalue, _, hconstant⟩ := hknown.entry
  unfold Function.constant? at hbits
  rw [hvalue] at hbits
  exact hconstant bits hbits

variable {operation : Ssa.Operation} {type : Ty} {bits : UInt16}

/-- A run computes an instruction as the facts on its operands say. -/
theorem Shows.compute {locals : Locals} {id : ValueId}
    (hshows : ∀ fact ∈ facts, scene.Shows locals fact)
    (hknown : ∀ fact ∈ facts, scene.Known code fact)
    (hyields : Yields facts operation type bits) (hconstant : operation.inst.constant? = none)
    (hentry : scene.activation.function.values[id.index]? = some ⟨operation.inst, type, none⟩) :
    scene.activation.compute scene.environment locals id state =
      some (locals.set id (.word bits), state) := by
  cases hyields with
  | byte | word | flag => cases hconstant
  | binary op hlhs hrhs =>
      simp [Activation.compute, Activation.pure?, hentry, Ssa.Operation.inst,
        (hshows _ hlhs).type, (hshows _ hlhs).word?, (hshows _ hrhs).word?, BinOp.eval]
  | compare predicate hlhs hrhs =>
      simp [Activation.compute, Activation.pure?, hentry, Ssa.Operation.inst,
        (hshows _ hlhs).type, (hshows _ hlhs).word?, (hshows _ hrhs).word?, Predicate.eval,
        ofBits_ofBool]
  | zext hoperand hwidth =>
      simp [Activation.compute, Activation.pure?, hentry, Ssa.Operation.inst,
        (hshows _ hoperand).type, (hshows _ hoperand).word?,
        Ty.zext_eq (hknown _ hoperand).fits.2 (Nat.le_of_lt hwidth)]
  | trunc hoperand =>
      have hbyte (word : UInt16) : ofBits (Ty.i8.bits word) = word.toUInt8.toUInt16 := rfl
      simp [Activation.compute, Activation.pure?, hentry, Ssa.Operation.inst,
        (hshows _ hoperand).word?, hbyte]

theorem Tracks.build (htracks : scene.Tracks code facts state)
    (hyields : Yields facts operation type bits) :
    ∃ id code', operation.build scene.block (scene.function code) =
        .ok (id, scene.function code') ∧
      scene.Tracks code' (⟨id, type, .word bits⟩ :: facts) state := by
  have hagrees (fact : Fact) (hfact : fact ∈ facts) := (htracks.known fact hfact).agrees
  have hfits := hyields.fits hagrees
  obtain ⟨inst, hbuild, hinst, _⟩ := hyields.build hagrees block_lt_function
  rw [function_append, function_values_size] at hbuild
  refine ⟨_, _, hbuild, ?_⟩
  rcases hinst with ⟨rfl, hconstant⟩ | rfl
  · exact htracks.snoc _ type _ state hconstant (by cases hyields <;> rfl)
      (by cases hyields <;> exact fun _ heq => by cases heq) hyields.operand
      (hyields.typed hagrees hconstant _) hfits fun locals id hshows hentry =>
        Shows.compute hshows htracks.known hyields hconstant hentry
  · exact htracks.snocConst hfits

theorem Tracks.wordConst (htracks : scene.Tracks code facts state) (value : Address) :
    ∃ id code', Builder.word value (scene.function code) = .ok (id, scene.function code') ∧
      scene.Tracks code' (⟨id, .i16, .word value⟩ :: facts) state :=
  htracks.build (.word value)

/-- What runs of the code show, when they leave the host in a state. -/
def knowledge (scene : Scene σ) (state : σ) : Knowledge scene.start scene.block where
  Knows code facts := scene.Tracks code facts state
  weaken htracks hsubset := htracks.weaken hsubset
  operate htracks hyields := by
    obtain ⟨id, code', hbuild, htracks'⟩ := htracks.build hyields
    exact ⟨id, code', .of_build hbuild, htracks'⟩

theorem Tracks.knows (htracks : scene.Tracks code facts state) :
    (scene.knowledge state).Knows code facts :=
  htracks

end Scene

end Lift6502
