import Lift6502.Lowering.Instruction

/-! Functions lifted from routines. A block named `start` hands the parameters
to the block of the entry; every leader of the routine has a block with a phi
for each register. -/

namespace Lift6502

open Ssa

def Session.ofBuilder {α : Type} (step : Builder α) (function : Function) :
    Session LiftError (α × Function) :=
  Session.ofExcept ((step function).mapError .fault)

namespace Decoder

def decodeToLift (decoder : Decoder) (location : Address) : Session LiftError Instruction :=
  (decoder.decode location).adaptExcept .decode

/-- Ends a block that control runs out of, at the counter it has reached. -/
def fallThrough (sites : Sites) (entry : Address) (stop counter : Nat) (last : Address) :
    Lowering Unit :=
  if 0xFFFF < counter then
    throw (.leavesRoutine entry last)
  else if counter ≠ stop then
    throw (.overlap last (UInt16.ofNat stop))
  else
    Lowering.goTo sites last (UInt16.ofNat counter)

/-- Lowers instructions from `counter` until one transfers control or `stop`
is reached. `last` is the address of the instruction before. The counter can
pass the last address; decoding then goes on from the first. -/
def sweep (decoder : Decoder) (platform : Platform) (sites : Sites) (entry : Address)
    (stop : Nat) (steps counter : Nat) (last : Address) (frame : Frame) :
    Session LiftError Frame :=
  match steps with
  | 0 => return (← Session.ofExcept (fallThrough sites entry stop counter last frame)).2
  | steps + 1 =>
      if counter < stop then do
        let instruction ← decoder.decodeToLift (UInt16.ofNat counter)
        Session.note (.lowering instruction)
        let (_, frame) ← Session.ofExcept (Lowering.lower platform sites instruction frame)
        if instruction.isBranch || instruction.isTerminal then
          return frame
        else
          decoder.sweep platform sites entry stop steps
            (instruction.location.toNat + instruction.length) instruction.location frame
      else
        return (← Session.ofExcept (fallThrough sites entry stop counter last frame)).2

/-- Lowers one block after another. A block ends where the next begins, and
the last one at `routineEnd`. -/
def lowerBlocks (decoder : Decoder) (platform : Platform) (sites : Sites) (entry : Address)
    (routineEnd : Nat) : List (Address × Site) → Function → Session LiftError Function
  | [], function => return function
  | (address, site) :: rest, function => do
      let stop := match rest with
        | (next, _) :: _ => next.toNat
        | [] => routineEnd
      let frame ← decoder.sweep platform sites entry stop addressCount address.toNat address
        { function, block := site.block, registers := site.registers.values }
      decoder.lowerBlocks platform sites entry routineEnd rest frame.function

def addSite (leader : Address) : Builder Site := do
  let block ← Builder.addBlock s!"l_{Hex.word leader}"
  let registers ← RegisterFile.seed block leader
  return { block, registers }

def addSites : List Address → Sites → Builder Sites
  | [], sites => return sites
  | leader :: rest, sites => do
      let site ← addSite leader
      addSites rest (sites.insert leader site)

/-- The blocks of a function before any instruction is lowered: `start`, and
one for each leader. -/
def layOut (leaders : AddressSet) : Builder (BlockId × Sites) := do
  let start ← Builder.addBlock "start"
  let sites ← addSites leaders.toList ∅
  return (start, sites)

def parameters : PerRegister ValueId :=
  PerRegister.ofFn fun register => ⟨register.index⟩

/-- The counter past the highest instruction of a body. -/
def bodyEnd (decoder : Decoder) (entry : Address) (body : AddressSet) :
    Session LiftError Nat :=
  match body.toList.getLast? with
  | none => return entry.toNat
  | some last => do
      let instruction ← decoder.decodeToLift last
      return last.toNat + instruction.length

/-- The function of the routine at `entry`. -/
def liftRoutine (decoder : Decoder) (platform : Platform) (entry : Address)
    (linkage : Linkage) : Session LiftError Function := do
  let body ← (decoder.body entry).adaptExcept .decode
  let leaders ← (decoder.leaders entry body).adaptExcept .decode
  let signature := Register.all.map fun register => (register.name, register.type)
  let function := Function.declare (routineName entry) linkage signature .regs
  let ((start, sites), function) ← Session.ofBuilder (layOut leaders) function
  let (_, frame) ← Session.ofExcept (Lowering.goTo sites entry entry
    { function, block := start, registers := parameters })
  let routineEnd ← decoder.bodyEnd entry body
  let function ← decoder.lowerBlocks platform sites entry routineEnd sites.toList frame.function
  Session.note (.assembled function.name function.blocks.size)
  Session.ofExcept (function.verify.mapError .ofVerifyError)
  return function

end Decoder

end Lift6502
