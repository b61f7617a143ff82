import Lift6502.Ssa.Function

/-! Modules: global arrays, functions provided from outside, and functions;
and the checks that a finished function or module passes. -/

namespace Lift6502.Ssa

structure Global where
  name : String
  element : Ty
  length : Nat
  deriving DecidableEq, Repr

/-- A function provided from outside the module. -/
structure Import where
  name : String
  params : List Ty
  result : Ty
  deriving DecidableEq, Repr

structure Module where
  name : String
  globals : Array Global := #[]
  imports : Array Import := #[]
  functions : Array Function := #[]
  deriving DecidableEq, Repr

namespace Module

def addGlobal (module : Module) (name : String) (element : Ty) (length : Nat) : Module :=
  { module with globals := module.globals.push { name, element, length } }

def addImport (module : Module) (name : String) (params : List Ty) (result : Ty) : Module :=
  { module with imports := module.imports.push { name, params, result } }

def addFunction (module : Module) (function : Function) : Module :=
  { module with functions := module.functions.push function }

def function? (module : Module) (name : String) : Option Function :=
  module.functions.find? fun function => function.name == name

end Module

inductive Defect
  | unterminated (function block : String)
  | phiArity (function block value : String) (incoming edges : Nat)
  | phiSources (function block value : String)
  | undeclaredSymbol (function symbol : String)
  deriving DecidableEq, Repr

def Defect.message : Defect → String
  | .unterminated function block => s!"{function}: block {block} has no terminator"
  | .phiArity function block value incoming edges =>
      s!"{function}: phi {value} in block {block} has {incoming} incoming values for " ++
        s!"{edges} predecessor edges"
  | .phiSources function block value =>
      s!"{function}: phi {value} in block {block} does not match its predecessor edges"
  | .undeclaredSymbol function symbol =>
      s!"{function}: reference to undeclared symbol @{symbol}"

/-- Why a check fails: a defect, or an id that leads nowhere. -/
inductive VerifyError
  | defect (defect : Defect)
  | fault (fault : Fault)
  deriving DecidableEq, Repr

namespace VerifyError

def ofFault {α : Type} : Except Fault α → Except VerifyError α :=
  Except.mapError .fault

end VerifyError

namespace Function

def unterminated? (function : Function) : Option Block :=
  function.blocks.find? fun block => block.terminator.isNone

/-- A phi has one entry for each edge into its block, from the edge's
source. -/
def verifyPhi (function : Function) (block : Block) (edges : List BlockId) (id : ValueId) :
    Except VerifyError Unit := do
  match (← VerifyError.ofFault (function.value id)).inst with
  | .phi incoming =>
      let name ← VerifyError.ofFault (function.valueName id)
      if incoming.length ≠ edges.length then
        throw (.defect (.phiArity function.name block.label name incoming.length edges.length))
      if !(incoming.map Prod.snd).isPerm edges then
        throw (.defect (.phiSources function.name block.label name))
  | _ => pure ()

/-- Every block has a terminator, every edge leads to a block, and every phi
matches the edges into its block. -/
def verify (function : Function) : Except VerifyError Unit := do
  match function.unterminated? with
  | some block => throw (.defect (.unterminated function.name block.label))
  | none =>
      let sources ← VerifyError.ofFault function.predecessors
      (function.blocks.toList.zip sources.toList).forM fun (block, edges) =>
        block.insts.toList.forM (function.verifyPhi block edges)

end Function

namespace Module

def isCallable (module : Module) (symbol : String) : Bool :=
  (module.imports.any fun provided => provided.name == symbol) ||
    module.functions.any fun function => function.name == symbol

def isGlobal (module : Module) (symbol : String) : Bool :=
  module.globals.any fun global => global.name == symbol

/-- The symbol an instruction refers to, if the module does not have it. -/
def undeclared? (module : Module) : Inst → Option String
  | .call callee _ => if module.isCallable callee then none else some callee
  | .load global _ => if module.isGlobal global then none else some global
  | .store global _ _ => if module.isGlobal global then none else some global
  | _ => none

def verifySymbols (module : Module) (function : Function) : Except VerifyError Unit :=
  match function.values.toList.findSome? fun value => module.undeclared? value.inst with
  | some symbol => .error (.defect (.undeclaredSymbol function.name symbol))
  | none => .ok ()

/-- Every function passes its own check and refers to declared symbols only. -/
def verify (module : Module) : Except VerifyError Unit :=
  module.functions.toList.forM fun function => do
    function.verify
    module.verifySymbols function

end Module

end Lift6502.Ssa
