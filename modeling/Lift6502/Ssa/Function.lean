import Lift6502.Register
import Lift6502.Ssa.Arithmetic

/-! Functions in static single assignment form: an arena of values, and blocks
that list values and end in a terminator. -/

namespace Lift6502.Ssa

/-- A position in the arena of values. -/
structure ValueId where
  index : Nat
  deriving DecidableEq, Repr

/-- A position in the list of blocks. -/
structure BlockId where
  index : Nat
  deriving DecidableEq, Repr

inductive Inst
  | param (index : Nat)
  | const (value : UInt16)
  /-- One entry for each edge into the block: the value and the source. -/
  | phi (incoming : List (ValueId × BlockId))
  | binary (op : BinOp) (lhs rhs : ValueId)
  | compare (predicate : Predicate) (lhs rhs : ValueId)
  | zext (value : ValueId)
  | trunc (value : ValueId)
  | load (global : String) (index : ValueId)
  | store (global : String) (index value : ValueId)
  | call (callee : String) (args : List ValueId)
  | makeRegs (fields : PerRegister ValueId)
  | extractReg (regs : ValueId) (field : Nat)
  deriving DecidableEq, Repr

namespace Inst

def kindName : Inst → String
  | .param _ => "Param"
  | .const _ => "Const"
  | .phi _ => "Phi"
  | .binary .. => "Binary"
  | .compare .. => "ICmp"
  | .zext _ => "ZExt"
  | .trunc _ => "Trunc"
  | .load .. => "Load"
  | .store .. => "Store"
  | .call .. => "Call"
  | .makeRegs _ => "MakeRegs"
  | .extractReg .. => "ExtractReg"

def isPhi : Inst → Bool
  | .phi _ => true
  | _ => false

def constant? : Inst → Option UInt16
  | .const value => some value
  | _ => none

/-- The entries of a phi; anything else has none. -/
def incoming : Inst → List (ValueId × BlockId)
  | .phi incoming => incoming
  | _ => []

end Inst

/-- An entry of the arena. -/
structure Value where
  inst : Inst
  type : Ty
  name : Option String
  deriving DecidableEq, Repr

inductive Terminator
  | br (target : BlockId)
  | condBr (cond : ValueId) (thenBlock elseBlock : BlockId)
  | ret (value : ValueId)
  deriving DecidableEq, Repr

/-- The targets of the edges out of a block, one for each edge. -/
def Terminator.successors : Terminator → List BlockId
  | .br target => [target]
  | .condBr _ thenBlock elseBlock => [thenBlock, elseBlock]
  | .ret _ => []

structure Block where
  label : String
  /-- Values in the order they are computed, phis first. -/
  insts : Array ValueId := #[]
  terminator : Option Terminator := none
  deriving DecidableEq, Repr

def Block.successors (block : Block) : List BlockId :=
  (block.terminator.map Terminator.successors).getD []

inductive Linkage
  | external
  | internal
  deriving DecidableEq, Repr

structure Function where
  name : String
  linkage : Linkage
  params : List ValueId
  result : Ty
  values : Array Value
  blocks : Array Block
  deriving DecidableEq, Repr

/-- Misuse of a function under construction. -/
inductive Fault
  /-- An id past the end of the arena or of the list of blocks. -/
  | outOfBounds (length index : Nat)
  | notPhi (inst : Inst)
  | terminatedTwice (label : String)
  | typeMismatch (op : BinOp)
  deriving DecidableEq, Repr

def BinOp.title : BinOp → String
  | .add => "Add"
  | .sub => "Sub"
  | .and => "And"
  | .or => "Or"
  | .xor => "Xor"
  | .shl => "Shl"

def Fault.message : Fault → String
  | .outOfBounds length index =>
      s!"index out of bounds: the len is {length} but the index is {index}"
  | .notPhi inst => s!"add_incoming on non-phi {inst.kindName}"
  | .terminatedTwice label => s!"block {label} terminated twice"
  | .typeMismatch op => s!"{op.title} operand types differ"

namespace Function

/-- A function with its parameters and no blocks. -/
def declare (name : String) (linkage : Linkage) (params : List (String × Ty)) (result : Ty) :
    Function where
  name
  linkage
  params := (List.range params.length).map ValueId.mk
  result
  values := (params.zipIdx.map fun ((name, type), index) =>
    { inst := .param index, type, name := some name }).toArray
  blocks := #[]

def value (function : Function) (id : ValueId) : Except Fault Value :=
  match function.values[id.index]? with
  | some value => .ok value
  | none => .error (.outOfBounds function.values.size id.index)

def block (function : Function) (id : BlockId) : Except Fault Block :=
  match function.blocks[id.index]? with
  | some block => .ok block
  | none => .error (.outOfBounds function.blocks.size id.index)

def blockLabelled? (function : Function) (label : String) : Option BlockId :=
  (function.blocks.findIdx? fun block => block.label == label).map BlockId.mk

/-- How a value is written: by its name, or by its position if it has none. -/
def valueName (function : Function) (id : ValueId) : Except Fault String := do
  match (← function.value id).name with
  | some name => return s!"%{name}"
  | none => return s!"%v{id.index}"

/-- The sources of the edges into each block, one for each edge. -/
def predecessors (function : Function) : Except Fault (Array (List BlockId)) :=
  function.blocks.toList.zipIdx.foldlM (fun sources (block, index) =>
    block.successors.foldlM (fun sources target =>
      if target.index < sources.size then
        .ok (sources.modify target.index fun edges => edges ++ [⟨index⟩])
      else
        .error (.outOfBounds sources.size target.index))
      sources)
    (Array.replicate function.blocks.size [])

end Function

end Lift6502.Ssa
