import Lift6502.Lowering.Routine

/-! Modules lifted from whole programs. -/

namespace Lift6502

open Ssa

namespace Decoder

def liftRoutines (decoder : Decoder) (platform : Platform) (entry : Address) :
    List Address → Ssa.Module → Session LiftError Ssa.Module
  | [], module => return module
  | address :: rest, module => do
      let linkage := if address = entry then Linkage.external else .internal
      let function ← decoder.liftRoutine platform address linkage
      decoder.liftRoutines platform entry rest (module.addFunction function)

/-- A module with a function for every routine that calls lead to from
`entry`, in ascending order. Only the entry is visible from outside. -/
def liftProgram (decoder : Decoder) (platform : Platform) (entry : Address) (name : String) :
    Session LiftError Ssa.Module := do
  let routines ← (decoder.routines entry).adaptExcept .decode
  Session.note (.routinesFound entry routines.size)
  let module ← decoder.liftRoutines platform entry routines.toList
    (platform.declare { name })
  Session.ofExcept (module.verify.mapError .ofVerifyError)
  return module

end Decoder

end Lift6502
