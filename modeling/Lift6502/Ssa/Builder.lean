import Lift6502.Ssa.Function

/-! Construction of functions. Operations on constants are folded as they are
built, so that code on known values leaves constants and no instructions. -/

namespace Lift6502.Ssa

/-- Steps of construction on the function at hand. -/
abbrev Builder := StateT Function (Except Fault)

namespace Builder

/-! Arena and blocks -/

def value (id : ValueId) : Builder Value := fun function =>
  (function.value id).map fun value => (value, function)

def push (inst : Inst) (type : Ty) (name : Option String) : Builder ValueId := fun function =>
  .ok (⟨function.values.size⟩,
    { function with values := function.values.push { inst, type, name } })

def addBlock (label : String) : Builder BlockId := fun function =>
  .ok (⟨function.blocks.size⟩, { function with blocks := function.blocks.push { label } })

def modifyBlock (id : BlockId) (change : Block → Block) : Builder Unit := fun function =>
  if id.index < function.blocks.size then
    .ok ((), { function with blocks := function.blocks.modify id.index change })
  else
    .error (.outOfBounds function.blocks.size id.index)

/-! Phis -/

def isPhiIn (values : Array Value) (id : ValueId) : Bool :=
  (values[id.index]?.map fun value => value.inst.isPhi).getD false

/-- Inserts a phi after the phis that lead the block. -/
def insertPhi (values : Array Value) (phi : ValueId) (block : Block) : Block :=
  let phis := block.insts.takeWhile (isPhiIn values)
  { block with insts := phis.push phi ++ block.insts.extract phis.size block.insts.size }

def addPhi (block : BlockId) (type : Ty) (name : String) : Builder ValueId := do
  let phi ← push (.phi []) type (some name)
  let values ← fun function => .ok (function.values, function)
  modifyBlock block (insertPhi values phi)
  return phi

/-- Records the value of a phi along an edge from `source`. -/
def addIncoming (phi value : ValueId) (source : BlockId) : Builder Unit := fun function =>
  match function.values[phi.index]? with
  | none => .error (.outOfBounds function.values.size phi.index)
  | some entry =>
      match entry.inst with
      | .phi incoming =>
          let entry := { entry with inst := .phi (incoming ++ [(value, source)]) }
          .ok ((), { function with values := function.values.setIfInBounds phi.index entry })
      | inst => .error (.notPhi inst)

/-! Values -/

def emit (block : BlockId) (inst : Inst) (type : Ty) : Builder ValueId := do
  let id ← push inst type none
  modifyBlock block fun block => { block with insts := block.insts.push id }
  return id

/-- A constant. Constants are in the arena but in no block. -/
def const (type : Ty) (value : UInt16) : Builder ValueId :=
  push (.const (value &&& type.mask)) type none

def byte (value : UInt8) : Builder ValueId :=
  const .i8 value.toUInt16

def word (value : UInt16) : Builder ValueId :=
  const .i16 value

def flag (value : Bool) : Builder ValueId :=
  const .i1 (if value then 1 else 0)

def binary (block : BlockId) (op : BinOp) (lhs rhs : ValueId) : Builder ValueId := do
  let left ← value lhs
  let right ← value rhs
  if left.type ≠ right.type then
    throw (.typeMismatch op)
  match left.inst.constant?, right.inst.constant? with
  | some l, some r => const left.type (op.fold left.type l r)
  | _, _ => emit block (.binary op lhs rhs) left.type

def compare (block : BlockId) (predicate : Predicate) (lhs rhs : ValueId) :
    Builder ValueId := do
  let left ← value lhs
  let right ← value rhs
  match left.inst.constant?, right.inst.constant? with
  | some l, some r => flag (predicate.fold left.type l r)
  | _, _ => emit block (.compare predicate lhs rhs) .i1

def zext (block : BlockId) (id : ValueId) (type : Ty) : Builder ValueId := do
  match (← value id).inst.constant? with
  | some bits => const type bits
  | none => emit block (.zext id) type

def trunc (block : BlockId) (id : ValueId) (type : Ty) : Builder ValueId := do
  match (← value id).inst.constant? with
  | some bits => const type bits
  | none => emit block (.trunc id) type

def load (block : BlockId) (global : String) (type : Ty) (index : ValueId) : Builder ValueId :=
  emit block (.load global index) type

def store (block : BlockId) (global : String) (index value : ValueId) : Builder Unit := do
  let _ ← emit block (.store global index value) .void

def call (block : BlockId) (callee : String) (result : Ty) (args : List ValueId) :
    Builder ValueId :=
  emit block (.call callee args) result

def makeRegs (block : BlockId) (fields : PerRegister ValueId) : Builder ValueId :=
  emit block (.makeRegs fields) .regs

def extractReg (block : BlockId) (regs : ValueId) (field : Nat) (type : Ty) : Builder ValueId :=
  emit block (.extractReg regs field) type

/-! Terminators -/

def terminate (id : BlockId) (terminator : Terminator) : Builder Unit := fun function =>
  match function.blocks[id.index]? with
  | none => .error (.outOfBounds function.blocks.size id.index)
  | some block =>
      if block.terminator.isSome then
        .error (.terminatedTwice block.label)
      else
        let block := { block with terminator := some terminator }
        .ok ((), { function with blocks := function.blocks.setIfInBounds id.index block })

def br (block target : BlockId) : Builder Unit :=
  terminate block (.br target)

def condBr (block : BlockId) (cond : ValueId) (thenBlock elseBlock : BlockId) : Builder Unit :=
  terminate block (.condBr cond thenBlock elseBlock)

def ret (block : BlockId) (value : ValueId) : Builder Unit :=
  terminate block (.ret value)

end Builder

end Lift6502.Ssa
