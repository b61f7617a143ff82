import Lift6502.Ssa.Builder
import Lift6502.Proofs.General

/-! Code is added to a function in segments. A segment is a list of entries at
the end of the arena; all of them but the constants stand, in their order, at
the end of one block. -/

namespace Lift6502.Ssa

/-- Ids of the entries of a segment that stand in its block. The segment
starts at `base`. -/
def placed (base : Nat) : List Value → List ValueId
  | [] => []
  | value :: rest =>
      if value.inst.constant?.isSome then placed (base + 1) rest
      else ⟨base⟩ :: placed (base + 1) rest

@[simp] theorem placed_nil (base : Nat) : placed base [] = [] := rfl

theorem placed_append (base : Nat) (front back : List Value) :
    placed base (front ++ back) = placed base front ++ placed (base + front.length) back := by
  induction front generalizing base with
  | nil => simp
  | cons value rest ih =>
      have hbase : base + 1 + rest.length = base + (value :: rest).length := by
        rw [List.length_cons]
        omega
      simp only [List.cons_append, placed]
      split
      · rw [ih, hbase]
      · rw [ih, hbase, List.cons_append]

theorem placed_constant {base : Nat} {value : Value} {bits : UInt16}
    (hconstant : value.inst.constant? = some bits) : placed base [value] = [] := by
  simp [placed, hconstant]

theorem placed_instruction {base : Nat} {value : Value}
    (hconstant : value.inst.constant? = none) : placed base [value] = [⟨base⟩] := by
  simp [placed, hconstant]

theorem mem_placed_iff {base : Nat} {code : List Value} {id : ValueId} :
    id ∈ placed base code ↔ ∃ position value, code[position]? = some value ∧
      value.inst.constant? = none ∧ id = ⟨base + position⟩ := by
  induction code generalizing base with
  | nil => simp
  | cons head rest ih =>
      have hrest : id ∈ placed (base + 1) rest ↔ ∃ position value,
          (head :: rest)[position + 1]? = some value ∧ value.inst.constant? = none ∧
            id = ⟨base + (position + 1)⟩ := by
        rw [ih]
        simp only [List.getElem?_cons_succ, Nat.add_assoc, Nat.add_comm 1]
      constructor
      · intro hmem
        unfold placed at hmem
        split at hmem
        · obtain ⟨position, found⟩ := hrest.mp hmem
          exact ⟨position + 1, found⟩
        · rename_i hconstant
          rcases List.mem_cons.mp hmem with rfl | hmem
          · exact ⟨0, head, rfl, by simpa using hconstant, rfl⟩
          · obtain ⟨position, found⟩ := hrest.mp hmem
            exact ⟨position + 1, found⟩
      · rintro ⟨position, value, hvalue, hconstant, hid⟩
        unfold placed
        cases position with
        | zero =>
            cases hvalue
            rw [hconstant, hid]
            exact List.mem_cons_self
        | succ position =>
            have hmem := hrest.mpr ⟨position, value, hvalue, hconstant, hid⟩
            split
            · exact hmem
            · exact List.mem_cons_of_mem _ hmem

theorem base_le_of_mem_placed {base : Nat} {code : List Value} {id : ValueId}
    (hmem : id ∈ placed base code) :
    base ≤ id.index ∧ id.index < base + code.length := by
  obtain ⟨position, value, hvalue, _, rfl⟩ := mem_placed_iff.mp hmem
  obtain ⟨hlt, _⟩ := List.getElem?_eq_some_iff.mp hvalue
  exact ⟨Nat.le_add_right _ _, Nat.add_lt_add_left hlt _⟩

theorem pairwise_placed (base : Nat) (code : List Value) :
    (placed base code).Pairwise fun first second => first.index < second.index := by
  induction code generalizing base with
  | nil => exact .nil
  | cons value rest ih =>
      unfold placed
      split
      · exact ih _
      · refine List.pairwise_cons.mpr ⟨fun id hid => ?_, ih _⟩
        exact (base_le_of_mem_placed hid).1

namespace Function

/-- Adds a segment to the function and its instructions to a block. -/
def append (function : Function) (block : BlockId) (code : List Value) : Function :=
  { function with
    values := function.values ++ code.toArray
    blocks := function.blocks.modify block.index fun target =>
      { target with insts := target.insts ++ (placed function.values.size code).toArray } }

variable (function : Function) (block : BlockId) (code : List Value)

@[simp] theorem append_nil : function.append block [] = function := by
  have hblocks : (function.append block []).blocks = function.blocks := by
    apply Array.ext
    · simp [append]
    · intro index _ _
      simp [append, Array.getElem_modify]
  unfold append at hblocks ⊢
  simp only at hblocks ⊢
  rw [hblocks]
  simp

@[simp] theorem append_append (more : List Value) :
    (function.append block code).append block more = function.append block (code ++ more) := by
  have hblocks : ((function.append block code).append block more).blocks =
      (function.append block (code ++ more)).blocks := by
    apply Array.ext
    · simp [append]
    · intro index _ _
      simp only [append, Array.getElem_modify, Array.size_append, List.size_toArray]
      split
      · simp [placed_append]
      · rfl
  have hvalues : ((function.append block code).append block more).values =
      (function.append block (code ++ more)).values := by
    simp [append]
  unfold append at hblocks hvalues ⊢
  simp only at hblocks hvalues ⊢
  rw [hblocks, hvalues]

@[simp] theorem append_values_size :
    (function.append block code).values.size = function.values.size + code.length := by
  simp [append]

@[simp] theorem append_blocks_size :
    (function.append block code).blocks.size = function.blocks.size := by
  simp [append]

theorem append_value_before {index : Nat} (hindex : index < function.values.size) :
    (function.append block code).values[index]? = function.values[index]? := by
  simp [append, Array.getElem?_append_left hindex]

theorem append_value_within (position : Nat) :
    (function.append block code).values[function.values.size + position]? = code[position]? := by
  unfold append
  rw [Array.getElem?_append_right (Nat.le_add_right _ _), Nat.add_sub_cancel_left,
    List.getElem?_toArray]

theorem append_block_self :
    (function.append block code).blocks[block.index]? =
      (function.blocks[block.index]?).map fun target =>
        { target with insts := target.insts ++ (placed function.values.size code).toArray } := by
  simp [append, Array.getElem?_modify]

theorem append_block_other {index : Nat} (hindex : index ≠ block.index) :
    (function.append block code).blocks[index]? = function.blocks[index]? := by
  simp [append, Array.getElem?_modify, Ne.symm hindex]

end Function

namespace Builder

variable {function : Function} {block : BlockId}

theorem const_eq (type : Ty) (bits : UInt16) :
    const type bits function = .ok (⟨function.values.size⟩,
      function.append block [⟨.const (bits &&& type.mask), type, none⟩]) := by
  have hplaced : placed function.values.size
      [⟨.const (bits &&& type.mask), type, none⟩] = [] := placed_constant rfl
  have hblocks : (function.append block [⟨.const (bits &&& type.mask), type, none⟩]).blocks =
      function.blocks := by
    have hnil := congrArg Function.blocks (Function.append_nil function block)
    simpa only [Function.append, hplaced, placed_nil] using hnil
  unfold const push
  congr 2
  unfold Function.append at hblocks ⊢
  simp only at hblocks ⊢
  rw [hblocks]
  simp

theorem emit_eq {inst : Inst} (type : Ty) (hblock : block.index < function.blocks.size)
    (hconstant : inst.constant? = none) :
    emit block inst type function = .ok (⟨function.values.size⟩,
      function.append block [⟨inst, type, none⟩]) := by
  have hplaced : placed function.values.size [⟨inst, type, none⟩] =
      [⟨function.values.size⟩] := placed_instruction hconstant
  have hmodify : modifyBlock block
      (fun block => { block with insts := block.insts.push ⟨function.values.size⟩ })
      { function with values := function.values.push ⟨inst, type, none⟩ } =
        .ok ((), function.append block [⟨inst, type, none⟩]) := by
    unfold modifyBlock
    rw [if_pos hblock]
    simp [Function.append, hplaced]
  exact (StateT.bind_of_ok rfl).trans (StateT.bind_of_ok hmodify)

theorem value_eq {id : ValueId} {value : Value}
    (hvalue : function.values[id.index]? = some value) :
    Builder.value id function = .ok (value, function) := by
  simp [Builder.value, Function.value, hvalue, Except.map]

/-! An operation is folded when all its operands are constants; otherwise it
becomes an instruction. -/

section Operations

variable {lhs rhs : ValueId} {left right : Value} {l r : UInt16}

theorem binary_eq_const (op : BinOp) (hlhs : function.values[lhs.index]? = some left)
    (hrhs : function.values[rhs.index]? = some right) (htype : left.type = right.type)
    (hl : left.inst.constant? = some l) (hr : right.inst.constant? = some r) :
    binary block op lhs rhs function =
      const left.type (op.fold left.type l r) function := by
  unfold binary
  rw [StateT.bind_of_ok (value_eq hlhs), StateT.bind_of_ok (value_eq hrhs)]
  simp [htype, hl, hr]

theorem binary_eq_emit (op : BinOp) (hlhs : function.values[lhs.index]? = some left)
    (hrhs : function.values[rhs.index]? = some right) (htype : left.type = right.type)
    (hconstant : left.inst.constant? = none ∨ right.inst.constant? = none) :
    binary block op lhs rhs function =
      emit block (.binary op lhs rhs) left.type function := by
  unfold binary
  rw [StateT.bind_of_ok (value_eq hlhs), StateT.bind_of_ok (value_eq hrhs)]
  rcases hconstant with hl | hr
  · simp [htype, hl]
  · simp [htype, hr]

theorem compare_eq_flag (predicate : Predicate)
    (hlhs : function.values[lhs.index]? = some left)
    (hrhs : function.values[rhs.index]? = some right)
    (hl : left.inst.constant? = some l) (hr : right.inst.constant? = some r) :
    compare block predicate lhs rhs function =
      flag (predicate.fold left.type l r) function := by
  unfold compare
  rw [StateT.bind_of_ok (value_eq hlhs), StateT.bind_of_ok (value_eq hrhs)]
  simp [hl, hr]

theorem compare_eq_emit (predicate : Predicate)
    (hlhs : function.values[lhs.index]? = some left)
    (hrhs : function.values[rhs.index]? = some right)
    (hconstant : left.inst.constant? = none ∨ right.inst.constant? = none) :
    compare block predicate lhs rhs function =
      emit block (.compare predicate lhs rhs) .i1 function := by
  unfold compare
  rw [StateT.bind_of_ok (value_eq hlhs), StateT.bind_of_ok (value_eq hrhs)]
  rcases hconstant with hl | hr
  · simp [hl]
  · simp [hr]

theorem zext_eq_const (type : Ty) (hlhs : function.values[lhs.index]? = some left)
    (hl : left.inst.constant? = some l) :
    zext block lhs type function = const type l function := by
  unfold zext
  rw [StateT.bind_of_ok (value_eq hlhs)]
  simp [hl]

theorem zext_eq_emit (type : Ty) (hlhs : function.values[lhs.index]? = some left)
    (hl : left.inst.constant? = none) :
    zext block lhs type function = emit block (.zext lhs) type function := by
  unfold zext
  rw [StateT.bind_of_ok (value_eq hlhs)]
  simp [hl]

theorem trunc_eq_const (type : Ty) (hlhs : function.values[lhs.index]? = some left)
    (hl : left.inst.constant? = some l) :
    trunc block lhs type function = const type l function := by
  unfold trunc
  rw [StateT.bind_of_ok (value_eq hlhs)]
  simp [hl]

theorem trunc_eq_emit (type : Ty) (hlhs : function.values[lhs.index]? = some left)
    (hl : left.inst.constant? = none) :
    trunc block lhs type function = emit block (.trunc lhs) type function := by
  unfold trunc
  rw [StateT.bind_of_ok (value_eq hlhs)]
  simp [hl]

end Operations

end Builder

end Lift6502.Ssa
