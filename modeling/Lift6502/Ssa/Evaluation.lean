import Lift6502.Ssa.Module

/-! The meaning of functions in static single assignment form. Integers are
bit vectors of the width of their type; globals and imports are given by an
environment. -/

namespace Lift6502.Ssa

/-! Integers -/

def Ty.width : Ty → Nat
  | .i1 => 1
  | .i8 => 8
  | .i16 => 16
  | .void | .regs => 0

def BinOp.denote {width : Nat} (op : BinOp) (lhs rhs : BitVec width) : BitVec width :=
  match op with
  | .add => lhs + rhs
  | .sub => lhs - rhs
  | .and => lhs &&& rhs
  | .or => lhs ||| rhs
  | .xor => lhs ^^^ rhs
  | .shl => lhs <<< rhs

def Predicate.denote {width : Nat} (predicate : Predicate) (lhs rhs : BitVec width) : Bool :=
  match predicate with
  | .eq => lhs == rhs
  | .ne => lhs != rhs
  | .slt => lhs.slt rhs
  | .uge => rhs.ule lhs
  | .ugt => rhs.ult lhs

def Ty.bits (type : Ty) (value : UInt16) : BitVec type.width :=
  value.toBitVec.setWidth type.width

def ofBits {width : Nat} (bits : BitVec width) : UInt16 :=
  ⟨bits.setWidth 16⟩

/-! Functions -/

/-- What a value holds while a function runs. -/
inductive Datum
  | word (bits : UInt16)
  | regs (fields : PerRegister UInt16)
  /-- The result of something done only for its effect. -/
  | unit
  deriving DecidableEq, Repr

def Datum.word? : Datum → Option UInt16
  | .word bits => some bits
  | .regs _ | .unit => none

def Datum.regs? : Datum → Option (PerRegister UInt16)
  | .regs fields => some fields
  | .word _ | .unit => none

/-- The meaning of the globals and imports of a module. -/
structure Environment (σ : Type) where
  load : String → UInt16 → σ → Option (UInt16 × σ)
  store : String → UInt16 → UInt16 → σ → Option σ
  call : String → List Datum → σ → Option (Datum × σ)

abbrev Locals := ValueId → Option Datum

def Locals.set (locals : Locals) (id : ValueId) (datum : Datum) : Locals :=
  fun other => if other = id then some datum else locals other

structure Activation where
  function : Function
  args : List Datum

namespace Activation

def type? (activation : Activation) (id : ValueId) : Option Ty :=
  activation.function.values[id.index]?.map Value.type

/-- What a value holds. Constants and parameters hold it from the start. -/
def datum? (activation : Activation) (locals : Locals) (id : ValueId) : Option Datum := do
  match (← activation.function.values[id.index]?).inst with
  | .const value => some (.word value)
  | .param index => activation.args[index]?
  | _ => locals id

def word? (activation : Activation) (locals : Locals) (id : ValueId) : Option UInt16 := do
  (← activation.datum? locals id).word?

/-- The meaning of an instruction that has no effect. -/
def pure? (activation : Activation) (locals : Locals) (type : Ty) : Inst → Option Datum
  | .const value => some (.word value)
  | .param index => activation.args[index]?
  | .binary op lhs rhs => do
      let operands ← activation.type? lhs
      let left ← activation.word? locals lhs
      let right ← activation.word? locals rhs
      return .word (ofBits (op.denote (operands.bits left) (operands.bits right)))
  | .compare predicate lhs rhs => do
      let operands ← activation.type? lhs
      let left ← activation.word? locals lhs
      let right ← activation.word? locals rhs
      let holds := predicate.denote (operands.bits left) (operands.bits right)
      return .word (ofBits (BitVec.ofBool holds))
  | .zext value => do
      let narrow ← activation.type? value
      return .word (ofBits ((narrow.bits (← activation.word? locals value)).setWidth type.width))
  | .trunc value => do
      return .word (ofBits (type.bits (← activation.word? locals value)))
  | .makeRegs fields => do
      let a ← activation.word? locals fields.a
      let x ← activation.word? locals fields.x
      let y ← activation.word? locals fields.y
      let n ← activation.word? locals fields.n
      let v ← activation.word? locals fields.v
      let z ← activation.word? locals fields.z
      let c ← activation.word? locals fields.c
      return .regs ⟨a, x, y, n, v, z, c⟩
  | .extractReg regs field => do
      let fields ← (← activation.datum? locals regs).regs?
      return .word (← fields.toList[field]?)
  | .phi _ | .load _ _ | .store _ _ _ | .call _ _ => none

/-- The value a phi takes when control comes from a block. -/
def phi? (activation : Activation) (locals : Locals) (source : BlockId)
    (incoming : List (ValueId × BlockId)) : Option Datum := do
  let (value, _) ← incoming.find? fun (_, block) => block == source
  activation.datum? locals value

/-- Enters a block: all its phis take their values at once. -/
def enter (activation : Activation) (locals : Locals) (source : BlockId) :
    List ValueId → Option Locals
  | [] => some locals
  | id :: rest => do
      let entered ← activation.enter locals source rest
      match (← activation.function.values[id.index]?).inst with
      | .phi incoming => return entered.set id (← activation.phi? locals source incoming)
      | _ => return entered

variable {σ : Type}

/-- Computes one value. Phis have theirs already. -/
def compute (activation : Activation) (environment : Environment σ) (locals : Locals)
    (id : ValueId) (state : σ) : Option (Locals × σ) := do
  let value ← activation.function.values[id.index]?
  match value.inst with
  | .phi _ => return (locals, state)
  | .load global index =>
      let (bits, state) ← environment.load global (← activation.word? locals index) state
      return (locals.set id (.word bits), state)
  | .store global index stored =>
      let state ← environment.store global (← activation.word? locals index)
        (← activation.word? locals stored) state
      return (locals.set id .unit, state)
  | .call callee args =>
      let args ← args.mapM (activation.datum? locals)
      let (datum, state) ← environment.call callee args state
      return (locals.set id datum, state)
  | inst => return (locals.set id (← activation.pure? locals value.type inst), state)

def computeAll (activation : Activation) (environment : Environment σ) :
    List ValueId → Locals → σ → Option (Locals × σ)
  | [], locals, state => some (locals, state)
  | id :: rest, locals, state => do
      let (locals, state) ← activation.compute environment locals id state
      activation.computeAll environment rest locals state

inductive Exit
  | goTo (target : BlockId)
  | ret (result : Datum)
  deriving DecidableEq, Repr

def exit? (activation : Activation) (locals : Locals) : Terminator → Option Exit
  | .br target => some (.goTo target)
  | .condBr cond thenBlock elseBlock => do
      return .goTo (if (← activation.word? locals cond) = 0 then elseBlock else thenBlock)
  | .ret value => do return .ret (← activation.datum? locals value)

def runBlock (activation : Activation) (environment : Environment σ) (source target : BlockId)
    (locals : Locals) (state : σ) : Option (Exit × Locals × σ) := do
  let block ← activation.function.blocks[target.index]?
  let locals ← activation.enter locals source block.insts.toList
  let (locals, state) ← activation.computeAll environment block.insts.toList locals state
  return (← activation.exit? locals (← block.terminator), locals, state)

end Activation

variable {σ : Type}

namespace Module

/-- Runs a function from a block on, entered from `source`, for up to `fuel`
blocks on each level of calls. A name that is not a function of the module is
left to the environment. -/
def runFrom (module : Module) (environment : Environment σ) :
    Nat → Activation → BlockId → BlockId → Locals → σ → Option (Datum × σ)
  | 0, _, _, _, _, _ => none
  | fuel + 1, activation, source, target, locals, state => do
      let call (callee : String) (args : List Datum) (state : σ) : Option (Datum × σ) :=
        match module.function? callee with
        | some function =>
            module.runFrom environment fuel { function, args } ⟨0⟩ ⟨0⟩ (fun _ => none) state
        | none => environment.call callee args state
      let (exit, locals, state) ←
        activation.runBlock { environment with call } source target locals state
      match exit with
      | .goTo next => module.runFrom environment fuel activation target next locals state
      | .ret result => return (result, state)

def invoke (module : Module) (environment : Environment σ) (fuel : Nat) (name : String)
    (args : List Datum) (state : σ) : Option (Datum × σ) := do
  let function ← module.function? name
  module.runFrom environment fuel { function, args } ⟨0⟩ ⟨0⟩ (fun _ => none) state

/-- A call ends with a result. -/
def Evaluates (module : Module) (environment : Environment σ) (name : String)
    (args : List Datum) (state : σ) (result : Datum) (state' : σ) : Prop :=
  ∃ fuel, module.invoke environment fuel name args state = some (result, state')

end Module

end Lift6502.Ssa
