import Lift6502.Proofs.Ssa.Arithmetic
import Lift6502.Proofs.Ssa.Segment
import Lift6502.RegisterFile

/-! Types of instructions, and of what values hold when a function runs. -/

namespace Lift6502.Ssa

namespace Inst

def operands : Inst → List ValueId
  | .param _ | .const _ => []
  | .phi incoming => incoming.map Prod.fst
  | .binary _ lhs rhs | .compare _ lhs rhs => [lhs, rhs]
  | .zext value | .trunc value => [value]
  | .load _ index => [index]
  | .store _ index value => [index, value]
  | .call _ args => args
  | .makeRegs fields => fields.toList
  | .extractReg regs _ => [regs]

/-- Whether an instruction of a type suits the types of its operands. The
parameters and the result of each callee are given by `Declares`. -/
def Typed (type? : ValueId → Option Ty) (Declares : String → List Ty → Ty → Prop) :
    Inst → Ty → Prop
  | .param _, _ => True
  | .const value, type => type.isInteger = true ∧ type.Holds value
  | .phi incoming, type => ∀ entry ∈ incoming, type? entry.1 = some type
  | .binary _ lhs rhs, type =>
      type.isInteger = true ∧ type? lhs = some type ∧ type? rhs = some type
  | .compare _ lhs rhs, type => type = .i1 ∧
      ∃ compared : Ty, compared.isInteger = true ∧
        type? lhs = some compared ∧ type? rhs = some compared
  | .zext value, type => type.isInteger = true ∧
      ∃ narrow : Ty, narrow.isInteger = true ∧ type? value = some narrow ∧
        narrow.width < type.width
  | .trunc value, type => type.isInteger = true ∧
      ∃ wide : Ty, wide.isInteger = true ∧ type? value = some wide ∧ type.width < wide.width
  | .load _ index, type => type = .i8 ∧ type? index = some .i16
  | .store _ index value, type =>
      type = .void ∧ type? index = some .i16 ∧ type? value = some .i8
  | .call callee args, type =>
      ∃ params, Declares callee params type ∧ args.map type? = params.map some
  | .makeRegs fields, type => type = .regs ∧
      ∀ register : Register, type? (fields.get register) = some register.type
  | .extractReg regs field, type => type? regs = some .regs ∧
      ∃ register : Register, register.index = field ∧ register.type = type

/-- Typing looks at the operands only, so it lasts as long as their types. -/
theorem Typed.mono {type? other? : ValueId → Option Ty}
    {Declares OtherDeclares : String → List Ty → Ty → Prop} {inst : Inst} {type : Ty}
    (htyped : inst.Typed type? Declares type)
    (htypes : ∀ id ∈ inst.operands, ∀ found, type? id = some found → other? id = some found)
    (hdeclares : ∀ callee args params, inst = .call callee args →
      Declares callee params type → OtherDeclares callee params type) :
    inst.Typed other? OtherDeclares type := by
  cases inst with
  | param index => trivial
  | const value => exact htyped
  | phi incoming =>
      intro entry hentry
      exact htypes entry.1 (List.mem_map_of_mem hentry) type (htyped entry hentry)
  | binary op lhs rhs =>
      obtain ⟨hinteger, hlhs, hrhs⟩ := htyped
      exact ⟨hinteger, htypes lhs (by simp [operands]) type hlhs,
        htypes rhs (by simp [operands]) type hrhs⟩
  | compare predicate lhs rhs =>
      obtain ⟨htype, compared, hinteger, hlhs, hrhs⟩ := htyped
      exact ⟨htype, compared, hinteger, htypes lhs (by simp [operands]) compared hlhs,
        htypes rhs (by simp [operands]) compared hrhs⟩
  | zext value =>
      obtain ⟨hinteger, narrow, hnarrow, hvalue, hwidth⟩ := htyped
      exact ⟨hinteger, narrow, hnarrow, htypes value (by simp [operands]) narrow hvalue, hwidth⟩
  | trunc value =>
      obtain ⟨hinteger, wide, hwide, hvalue, hwidth⟩ := htyped
      exact ⟨hinteger, wide, hwide, htypes value (by simp [operands]) wide hvalue, hwidth⟩
  | load global index =>
      exact ⟨htyped.1, htypes index (by simp [operands]) .i16 htyped.2⟩
  | store global index value =>
      obtain ⟨htype, hindex, hvalue⟩ := htyped
      exact ⟨htype, htypes index (by simp [operands]) .i16 hindex,
        htypes value (by simp [operands]) .i8 hvalue⟩
  | call callee args =>
      obtain ⟨params, hparams, hargs⟩ := htyped
      refine ⟨params, hdeclares callee args params rfl hparams, ?_⟩
      rw [← hargs]
      refine List.map_congr_left fun arg harg => ?_
      have hsome : type? arg ∈ params.map some := by
        rw [← hargs]
        exact List.mem_map_of_mem harg
      obtain ⟨found, _, hfound⟩ := List.mem_map.mp hsome
      rw [← hfound, htypes arg harg found hfound.symm]
  | makeRegs fields =>
      obtain ⟨htype, hfields⟩ := htyped
      refine ⟨htype, fun register => htypes _ ?_ _ (hfields register)⟩
      show fields.get register ∈ fields.toList
      rw [PerRegister.toList_eq_map_all]
      exact List.mem_map_of_mem (Register.mem_all register)
  | extractReg regs field =>
      exact ⟨htypes regs (by simp [operands]) .regs htyped.1, htyped.2⟩

end Inst

def Terminator.operands : Terminator → List ValueId
  | .br _ => []
  | .condBr cond _ _ => [cond]
  | .ret value => [value]

/-- Conditions are flags, and what is returned is an aggregate. -/
def Terminator.Typed (type? : ValueId → Option Ty) : Terminator → Prop
  | .br _ => True
  | .condBr cond _ _ => type? cond = some .i1
  | .ret value => type? value = some .regs

def Function.type? (function : Function) (id : ValueId) : Option Ty :=
  function.values[id.index]?.map Value.type

theorem Function.type?_append {function : Function} {id : ValueId} {type : Ty}
    (htype : function.type? id = some type) (block : BlockId) (code : List Value) :
    (function.append block code).type? id = some type := by
  unfold Function.type? at htype ⊢
  obtain ⟨value, hvalue, rfl⟩ := Option.map_eq_some_iff.mp htype
  obtain ⟨hlt, _⟩ := Array.getElem?_eq_some_iff.mp hvalue
  rw [append_value_before _ _ _ hlt, hvalue]
  rfl

def Datum.Fits : Datum → Ty → Prop
  | .word bits, type => type.isInteger = true ∧ type.Holds bits
  | .regs fields, type => type = .regs ∧
      ∀ register : Register, register.type.Holds (fields.get register)
  | .unit, type => type = .void

end Lift6502.Ssa
