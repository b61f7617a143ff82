import Lift6502.Ssa.Module
import Lift6502.Text.Lines

/-! The text of functions and modules. An id that leads nowhere has no text. -/

namespace Lift6502.Ssa

def commaSeparated (items : List String) : String :=
  ", ".intercalate items

namespace Function

/-- A value as an operand: a constant by its number, a flag as a word. -/
def operandText (function : Function) (id : ValueId) : Except Fault String := do
  let value ← function.value id
  match value.inst with
  | .const bits =>
      if value.type = .i1 then
        return if bits = 0 then "false" else "true"
      else
        return toString bits.toNat
  | _ => function.valueName id

def typedText (function : Function) (id : ValueId) : Except Fault String := do
  let value ← function.value id
  let operand ← function.operandText id
  return s!"{value.type.text} {operand}"

def labelText (function : Function) (id : BlockId) : Except Fault String := do
  let block ← function.block id
  return s!"%{block.label}"

def incomingText (function : Function) (entry : ValueId × BlockId) : Except Fault String := do
  let value ← function.operandText entry.1
  let source ← function.labelText entry.2
  return s!"[ {value}, {source} ]"

/-- The right-hand side of an instruction; parameters and constants have
none. -/
def instText (function : Function) (type : Ty) : Inst → Except Fault (Option String)
  | .param _ | .const _ => return none
  | .phi incoming => do
      let entries ← incoming.mapM function.incomingText
      return some s!"phi {type.text} {commaSeparated entries}"
  | .binary op lhs rhs => do
      let left ← function.typedText lhs
      let right ← function.operandText rhs
      return some s!"{op.text} {left}, {right}"
  | .compare predicate lhs rhs => do
      let left ← function.typedText lhs
      let right ← function.operandText rhs
      return some s!"icmp {predicate.text} {left}, {right}"
  | .zext value => do
      let value ← function.typedText value
      return some s!"zext {value} to {type.text}"
  | .trunc value => do
      let value ← function.typedText value
      return some s!"trunc {value} to {type.text}"
  | .load global index => do
      let index ← function.typedText index
      return some s!"load {type.text}, @{global}[{index}]"
  | .store global index value => do
      let value ← function.typedText value
      let index ← function.typedText index
      return some s!"store {value}, @{global}[{index}]"
  | .call callee args => do
      let args ← args.mapM function.typedText
      return some s!"call {type.text} @{callee}({commaSeparated args})"
  | .makeRegs fields => do
      let fields ← fields.toList.mapM function.typedText
      return some ("regs \x7b " ++ commaSeparated fields ++ " \x7d")
  | .extractReg regs field => do
      let regs ← function.typedText regs
      return some s!"extractvalue {regs}, {field}"

/-- The line of a value in a block. A void instruction defines nothing. -/
def valueLine (function : Function) (id : ValueId) : Except Fault (Option String) := do
  let value ← function.value id
  match ← function.instText value.type value.inst with
  | none => return none
  | some body =>
      if value.type = .void then
        return some s!"  {body}"
      else
        let name ← function.valueName id
        return some s!"  {name} = {body}"

def terminatorLine (function : Function) : Option Terminator → Except Fault String
  | some (.br target) => do
      let target ← function.labelText target
      return s!"  br label {target}"
  | some (.condBr cond thenBlock elseBlock) => do
      let cond ← function.typedText cond
      let thenLabel ← function.labelText thenBlock
      let elseLabel ← function.labelText elseBlock
      return s!"  br {cond}, label {thenLabel}, label {elseLabel}"
  | some (.ret value) => do
      let value ← function.typedText value
      return s!"  ret {value}"
  | none => return "  ; missing terminator"

def blockLines (function : Function) (block : Block) : Except Fault (List String) := do
  let body ← block.insts.toList.mapM function.valueLine
  let last ← function.terminatorLine block.terminator
  return s!"{block.label}:" :: body.filterMap id ++ [last]

def headLine (function : Function) : Except Fault String := do
  let params ← function.params.mapM function.typedText
  let linkage := match function.linkage with
    | .external => ""
    | .internal => "private "
  return s!"define {linkage}{function.result.text} @{function.name}" ++
    s!"({commaSeparated params}) \x7b"

/-- The lines of a function, with an empty line between blocks. -/
def lines (function : Function) : Except Fault (List String) := do
  let head ← function.headLine
  let blocks ← function.blocks.toList.mapM function.blockLines
  return head :: [""].intercalate blocks ++ ["\x7d"]

def text (function : Function) : Except Fault String := do
  let lines ← function.lines
  return Lines.join lines

end Function

namespace Global

def line (global : Global) : String :=
  s!"@{global.name} = private global [{global.length} x {global.element.text}] zeroinitializer"

end Global

namespace Import

def line (provided : Import) : String :=
  let params := commaSeparated (provided.params.map Ty.text)
  s!"declare {provided.result.text} @{provided.name}({params})"

end Import

namespace Module

/-- A group of lines, with an empty line before it unless it is empty. -/
def group : List String → List String
  | [] => []
  | line :: rest => "" :: line :: rest

def lines (module : Module) : Except Fault (List String) := do
  let functions ← module.functions.toList.mapM Function.lines
  return [s!"; ModuleID = '{module.name}'",
      "%regs = type \x7b i8, i8, i8, i1, i1, i1, i1 \x7d"] ++
    group (module.globals.toList.map Global.line) ++
    group (module.imports.toList.map Import.line) ++
    functions.flatMap group

def text (module : Module) : Except Fault String := do
  let lines ← module.lines
  return Lines.join lines

end Module

end Lift6502.Ssa
