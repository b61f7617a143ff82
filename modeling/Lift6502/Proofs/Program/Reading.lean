import Lift6502.Proofs.Program.Typing
import Lift6502.Proofs.Ssa.Spelling

/-! Reading functions back from their lines. Functions that are written alike
are the same but for the places of their constants. -/

namespace Lift6502.Ssa

open Token

/-! The same program -/

/-- Operands of two functions that are the same: one value that is no
constant, or constants of one type with one value. -/
inductive Function.SameOperand (function other : Function) : ValueId → ValueId → Prop
  | defined {id : ValueId} {value value' : Value}
      (hvalue : function.values[id.index]? = some value)
      (hvalue' : other.values[id.index]? = some value')
      (hconstant : value.inst.constant? = none) (hconstant' : value'.inst.constant? = none) :
      SameOperand function other id id
  | constant {id id' : ValueId} {bits : UInt16} {type : Ty} {name name' : Option String}
      (hvalue : function.values[id.index]? = some ⟨.const bits, type, name⟩)
      (hvalue' : other.values[id'.index]? = some ⟨.const bits, type, name'⟩) :
      SameOperand function other id id'

section Same

variable (same : ValueId → ValueId → Prop)

/-- Instructions of one kind with the same operands, symbols and numbers.
Parameters and constants are no instructions. -/
inductive Inst.Same : Inst → Inst → Prop
  | phi {incoming incoming' : List (ValueId × BlockId)}
      (hincoming : List.Forall₂ (fun entry entry' => same entry.1 entry'.1 ∧ entry.2 = entry'.2)
        incoming incoming') :
      Same (.phi incoming) (.phi incoming')
  | binary (op : BinOp) {lhs lhs' rhs rhs' : ValueId} (hlhs : same lhs lhs')
      (hrhs : same rhs rhs') : Same (.binary op lhs rhs) (.binary op lhs' rhs')
  | compare (predicate : Predicate) {lhs lhs' rhs rhs' : ValueId} (hlhs : same lhs lhs')
      (hrhs : same rhs rhs') : Same (.compare predicate lhs rhs) (.compare predicate lhs' rhs')
  | zext {value value' : ValueId} (hvalue : same value value') : Same (.zext value) (.zext value')
  | trunc {value value' : ValueId} (hvalue : same value value') :
      Same (.trunc value) (.trunc value')
  | load (global : String) {index index' : ValueId} (hindex : same index index') :
      Same (.load global index) (.load global index')
  | store (global : String) {index index' value value' : ValueId} (hindex : same index index')
      (hvalue : same value value') : Same (.store global index value) (.store global index' value')
  | call (callee : String) {args args' : List ValueId} (hargs : List.Forall₂ same args args') :
      Same (.call callee args) (.call callee args')
  | makeRegs {fields fields' : PerRegister ValueId}
      (hfields : ∀ register, same (fields.get register) (fields'.get register)) :
      Same (.makeRegs fields) (.makeRegs fields')
  | extractReg (field : Nat) {regs regs' : ValueId} (hregs : same regs regs') :
      Same (.extractReg regs field) (.extractReg regs' field)

inductive Terminator.Same : Terminator → Terminator → Prop
  | br (target : BlockId) : Same (.br target) (.br target)
  | condBr {cond cond' : ValueId} (hcond : same cond cond') (thenBlock elseBlock : BlockId) :
      Same (.condBr cond thenBlock elseBlock) (.condBr cond' thenBlock elseBlock)
  | ret {value value' : ValueId} (hvalue : same value value') : Same (.ret value) (.ret value')

end Same

namespace Function

/-- Values at two places are computed alike, and at one place unless nothing
can refer to them. -/
def SameLine (function other : Function) (id id' : ValueId) : Prop :=
  ∃ value value', function.values[id.index]? = some value ∧
    other.values[id'.index]? = some value' ∧ value.type = value'.type ∧
    value.inst.Same (function.SameOperand other) value'.inst ∧ (value.type ≠ .void → id = id')

structure SameBlock (function other : Function) (block block' : Block) : Prop where
  label_eq : block.label = block'.label
  insts : List.Forall₂ (function.SameLine other) block.insts.toList block'.insts.toList
  terminator : ∃ terminator terminator', block.terminator = some terminator ∧
    block'.terminator = some terminator' ∧
    terminator.Same (function.SameOperand other) terminator'

structure SameProgram (function other : Function) : Prop where
  name_eq : function.name = other.name
  linkage_eq : function.linkage = other.linkage
  result_eq : function.result = other.result
  params_eq : function.params = other.params
  param_eq : ∀ id ∈ function.params, function.values[id.index]? = other.values[id.index]?
  blocks : List.Forall₂ (function.SameBlock other) function.blocks.toList other.blocks.toList

end Function

/-! Words -/

theorem Ty.text_inj {type type' : Ty} (htext : type.text = type'.text) : type = type' := by
  cases type <;> cases type' <;> simp_all [Ty.text]

theorem BinOp.text_inj {op op' : BinOp} (htext : op.text = op'.text) : op = op' := by
  cases op <;> cases op' <;> simp_all [BinOp.text]

theorem Predicate.text_inj {predicate predicate' : Predicate}
    (htext : predicate.text = predicate'.text) : predicate = predicate' := by
  cases predicate <;> cases predicate' <;> simp_all [Predicate.text]

theorem Ty.holds_flag {bits : UInt16} (hholds : Ty.i1.Holds bits) : bits = 0 ∨ bits = 1 := by
  have hlt : bits.toNat < 2 := hholds
  rcases Nat.lt_succ_iff_lt_or_eq.mp hlt with hzero | hone
  · exact .inl (UInt16.toNat_inj.mp (Nat.lt_one_iff.mp hzero))
  · exact .inr (UInt16.toNat_inj.mp hone)

theorem Ty.constantText_inj {type : Ty} {bits bits' : UInt16} (hholds : type.Holds bits)
    (hholds' : type.Holds bits') (htext : type.constantText bits = type.constantText bits') :
    bits = bits' := by
  unfold constantText at htext
  by_cases htype : type = .i1
  · subst htype
    rcases Ty.holds_flag hholds with rfl | rfl <;> rcases Ty.holds_flag hholds' with rfl | rfl <;>
      simp_all
  · rw [if_neg htype, if_neg htype, Nat.repr_eq_repr_iff] at htext
    exact UInt16.toNat_inj.mp htext

theorem Ty.constantText_ne (type : Ty) (bits : UInt16) (name : String) :
    type.constantText bits ≠ "%" ++ name := by
  intro htext
  have hmem : '%' ∈ (type.constantText bits).toList := by simp [htext]
  unfold constantText at hmem
  split at hmem
  · split at hmem <;> simp at hmem
  · rw [Nat.toList_repr] at hmem
    exact absurd (Nat.isDigit_of_mem_toDigits (by decide) (by decide) hmem) (by decide)

theorem Lexicon.keyword_ne (inst : Inst) (name : String) : keyword inst ≠ "%" ++ name := by
  intro hkeyword
  have hhead := congrArg (fun text => text.toList.head?) hkeyword
  cases inst with
  | binary op => cases op <;> simp [BinOp.text] at hhead
  | _ => simp at hhead

namespace Function

variable {function other : Function}

/-- One name is written for one place only, in either of two functions. -/
def NamesAgree (function other : Function) : Prop :=
  ∀ id id' name, function.valueName id = .ok name → other.valueName id' = .ok name → id = id'

theorem word_defined {id : ValueId} {value : Value}
    (hvalue : function.values[id.index]? = some value) (hconstant : value.inst.constant? = none) :
    ∃ name, function.lexicon.word id = "%" ++ name ∧ function.valueName id = .ok ("%" ++ name) := by
  have htext := operandText_eq (Array.getElem?_eq_some_iff.mp hvalue).1
  rw [operandText_defined hvalue hconstant] at htext
  exact ⟨_, (Except.ok.inj htext).symm, valueName_eq hvalue⟩

theorem operand_cases {id : ValueId} {type : Ty} (htype : function.type? id = some type) :
    (∃ bits name, function.values[id.index]? = some ⟨.const bits, type, name⟩ ∧
        function.lexicon.word id = type.constantText bits) ∨
      ∃ value name, function.values[id.index]? = some value ∧ value.inst.constant? = none ∧
        function.lexicon.word id = "%" ++ name ∧ function.valueName id = .ok ("%" ++ name) := by
  obtain ⟨value, hvalue, rfl⟩ := Option.map_eq_some_iff.mp htype
  have htext := operandText_eq (Array.getElem?_eq_some_iff.mp hvalue).1
  rcases operandText_cases hvalue with ⟨bits, type, name, rfl, hconst⟩ | ⟨hconstant, _⟩
  · rw [hconst] at htext
    exact .inl ⟨bits, name, hvalue, (Except.ok.inj htext).symm⟩
  · obtain ⟨name, hword, hname⟩ := word_defined hvalue hconstant
    exact .inr ⟨value, name, hvalue, hconstant, hword, hname⟩

theorem type_eq_of_type? {id : ValueId} {type : Ty} (htype : function.type? id = some type) :
    function.lexicon.type id = type := by
  simp [lexicon, htype]

/-- Two functions with the same blocks, whose names and types can be relied
on. -/
structure Comparable (function other : Function) : Prop where
  readable : function.Readable
  readable' : other.Readable
  typed : ∃ Declares, function.WellTyped Declares
  typed' : ∃ Declares, other.WellTyped Declares
  names : function.NamesAgree other
  labels_eq : function.blocks.toList.map Block.label = other.blocks.toList.map Block.label
  nodup : (function.blocks.toList.map Block.label).Nodup

namespace Comparable

variable (hcomparable : function.Comparable other)

include hcomparable

theorem operand {id id' : ValueId} {type : Ty}
    (htype : function.type? id = some type) (htype' : other.type? id' = some type)
    (hword : function.lexicon.word id = other.lexicon.word id') :
    function.SameOperand other id id' := by
  rcases operand_cases htype with ⟨bits, name, hvalue, htext⟩ |
    ⟨value, name, hvalue, hconstant, htext, hname⟩ <;>
    rcases operand_cases htype' with ⟨bits', name', hvalue', htext'⟩ |
      ⟨value', name', hvalue', hconstant', htext', hname'⟩ <;>
    rw [htext, htext'] at hword
  · obtain ⟨_, htyped⟩ := hcomparable.typed
    obtain ⟨_, htyped'⟩ := hcomparable.typed'
    have hholds := (htyped.insts _ (Array.mem_of_getElem? hvalue)).2
    have hholds' := (htyped'.insts _ (Array.mem_of_getElem? hvalue')).2
    obtain rfl := Ty.constantText_inj hholds hholds' hword
    exact .constant hvalue hvalue'
  · exact absurd hword (Ty.constantText_ne _ _ _)
  · exact absurd hword.symm (Ty.constantText_ne _ _ _)
  · rw [← hword] at hname'
    obtain rfl := hcomparable.names id id' _ hname hname'
    exact .defined hvalue hvalue' hconstant hconstant'

theorem typedOperand {id id' : ValueId} {type type' : Ty}
    (htype : function.type? id = some type) (htype' : other.type? id' = some type')
    (htokens : function.lexicon.typed id = other.lexicon.typed id') :
    type = type' ∧ function.SameOperand other id id' := by
  simp only [Lexicon.typed, type_eq_of_type? htype, type_eq_of_type? htype', List.cons.injEq,
    Token.word.injEq, true_and, and_true] at htokens
  obtain rfl := Ty.text_inj htokens.1
  exact ⟨rfl, hcomparable.operand htype htype' htokens.2⟩

theorem block {id id' : BlockId} (hid : id.index < function.blocks.size)
    (hid' : id'.index < other.blocks.size)
    (htarget : function.lexicon.target id = other.lexicon.target id') : id = id' := by
  have hlabel (function : Function) (id : BlockId) (hid : id.index < function.blocks.size) :
      (function.blocks.toList.map Block.label)[id.index]? = some (function.lexicon.label id) := by
    have hblock := Array.getElem?_eq_getElem hid
    simp [lexicon, block_eq hblock, hblock]
  have hfirst := hlabel function id hid
  have hsecond := hlabel other id' hid'
  simp only [Lexicon.target, Token.word.injEq, String.append_right_inj] at htarget
  rw [← hcomparable.labels_eq, ← htarget] at hsecond
  obtain ⟨hlt, hget⟩ := List.getElem?_eq_some_iff.mp hfirst
  obtain ⟨hlt', hget'⟩ := List.getElem?_eq_some_iff.mp hsecond
  have hindex := (List.Nodup.getElem_inj_iff hcomparable.nodup).mp (hget.trans hget'.symm)
  cases id
  cases id'
  exact congrArg BlockId.mk hindex

end Comparable

end Function

/-! Instructions -/

namespace Inst

inductive SameKind : Inst → Inst → Prop
  | phi (incoming incoming' : List (ValueId × BlockId)) : SameKind (.phi incoming) (.phi incoming')
  | binary (op : BinOp) (lhs lhs' rhs rhs' : ValueId) :
      SameKind (.binary op lhs rhs) (.binary op lhs' rhs')
  | compare (predicate predicate' : Predicate) (lhs lhs' rhs rhs' : ValueId) :
      SameKind (.compare predicate lhs rhs) (.compare predicate' lhs' rhs')
  | zext (value value' : ValueId) : SameKind (.zext value) (.zext value')
  | trunc (value value' : ValueId) : SameKind (.trunc value) (.trunc value')
  | load (global global' : String) (index index' : ValueId) :
      SameKind (.load global index) (.load global' index')
  | store (global global' : String) (index index' value value' : ValueId) :
      SameKind (.store global index value) (.store global' index' value')
  | call (callee callee' : String) (args args' : List ValueId) :
      SameKind (.call callee args) (.call callee' args')
  | makeRegs (fields fields' : PerRegister ValueId) :
      SameKind (.makeRegs fields) (.makeRegs fields')
  | extractReg (regs regs' : ValueId) (field field' : Nat) :
      SameKind (.extractReg regs field) (.extractReg regs' field')

theorem text_ne_keyword (op : BinOp) {inst : Inst}
    (hbinary : ∀ op lhs rhs, inst ≠ .binary op lhs rhs) : op.text ≠ Lexicon.keyword inst := by
  cases inst with
  | binary op' lhs rhs => exact absurd rfl (hbinary op' lhs rhs)
  | _ => cases op <;> simp [BinOp.text]

/-- The first word of an instruction tells its kind. -/
theorem sameKind_of_keyword {inst inst' : Inst} (hlisted : inst.isFree = false)
    (hlisted' : inst'.isFree = false)
    (hkeyword : Lexicon.keyword inst = Lexicon.keyword inst') : SameKind inst inst' := by
  cases inst with
  | param | const => cases hlisted
  | binary op lhs rhs =>
      cases inst' with
      | binary op' lhs' rhs' =>
          obtain rfl := BinOp.text_inj hkeyword
          exact .binary ..
      | _ => exact absurd hkeyword (text_ne_keyword op (by simp))
  | phi incoming =>
      cases inst' with
      | phi incoming' => exact .phi ..
      | binary op => exact absurd hkeyword.symm (text_ne_keyword op (by simp))
      | _ => simp at hkeyword
  | compare predicate lhs rhs =>
      cases inst' with
      | compare predicate' lhs' rhs' => exact .compare ..
      | binary op => exact absurd hkeyword.symm (text_ne_keyword op (by simp))
      | _ => simp at hkeyword
  | zext value =>
      cases inst' with
      | zext value' => exact .zext ..
      | binary op => exact absurd hkeyword.symm (text_ne_keyword op (by simp))
      | _ => simp at hkeyword
  | trunc value =>
      cases inst' with
      | trunc value' => exact .trunc ..
      | binary op => exact absurd hkeyword.symm (text_ne_keyword op (by simp))
      | _ => simp at hkeyword
  | load global index =>
      cases inst' with
      | load global' index' => exact .load ..
      | binary op => exact absurd hkeyword.symm (text_ne_keyword op (by simp))
      | _ => simp at hkeyword
  | store global index value =>
      cases inst' with
      | store global' index' value' => exact .store ..
      | binary op => exact absurd hkeyword.symm (text_ne_keyword op (by simp))
      | _ => simp at hkeyword
  | call callee args =>
      cases inst' with
      | call callee' args' => exact .call ..
      | binary op => exact absurd hkeyword.symm (text_ne_keyword op (by simp))
      | _ => simp at hkeyword
  | makeRegs fields =>
      cases inst' with
      | makeRegs fields' => exact .makeRegs ..
      | binary op => exact absurd hkeyword.symm (text_ne_keyword op (by simp))
      | _ => simp at hkeyword
  | extractReg regs field =>
      cases inst' with
      | extractReg regs' field' => exact .extractReg ..
      | binary op => exact absurd hkeyword.symm (text_ne_keyword op (by simp))
      | _ => simp at hkeyword

end Inst

namespace Function.Comparable

variable {function other : Function} (hcomparable : function.Comparable other)

include hcomparable

theorem phi {incoming incoming' : List (ValueId × BlockId)} {type type' : Ty}
    (htyped : ∀ entry ∈ incoming, function.type? entry.1 = some type)
    (htyped' : ∀ entry ∈ incoming', other.type? entry.1 = some type')
    (hsources : ∀ entry ∈ incoming, entry.2.index < function.blocks.size)
    (hsources' : ∀ entry ∈ incoming', entry.2.index < other.blocks.size)
    (htokens : function.lexicon.operands type (.phi incoming) =
      other.lexicon.operands type' (.phi incoming')) :
    type = type' ∧ (Inst.phi incoming).Same (function.SameOperand other) (.phi incoming') := by
  simp only [Lexicon.operands, List.cons.injEq, Token.word.injEq, true_and] at htokens
  obtain ⟨htext, hcommas⟩ := htokens
  obtain rfl := Ty.text_inj htext
  have hentries := commas_map_inj 8 (by decide) (fun _ => rfl) (fun _ => rfl) hcommas
  refine ⟨rfl, .phi (List.forall₂_of_map_eq hentries ?_)⟩
  intro entry hentry entry' hentry' hsame
  simp only [Lexicon.entry, List.cons.injEq, Token.word.injEq, true_and, and_true] at hsame
  exact ⟨hcomparable.operand (htyped entry hentry) (htyped' entry' hentry') hsame.1,
    hcomparable.block (hsources entry hentry) (hsources' entry' hentry') hsame.2⟩

theorem args {ids ids' : List ValueId} {types types' : List Ty}
    (htyped : ids.map function.type? = types.map some)
    (htyped' : ids'.map other.type? = types'.map some)
    (hcommas : commas (ids.map function.lexicon.typed) = commas (ids'.map other.lexicon.typed)) :
    List.Forall₂ (function.SameOperand other) ids ids' := by
  have hmaps := commas_map_inj 3 (by decide) (fun _ => rfl) (fun _ => rfl) hcommas
  refine List.forall₂_of_map_eq hmaps ?_
  intro id hid id' hid' htokens
  obtain ⟨type, _, htype⟩ := List.mem_map.mp (htyped ▸ List.mem_map_of_mem hid)
  obtain ⟨type', _, htype'⟩ := List.mem_map.mp (htyped' ▸ List.mem_map_of_mem hid')
  exact (hcomparable.typedOperand htype.symm htype'.symm htokens).2

theorem pair {lhs lhs' rhs rhs' : ValueId} {type type' : Ty}
    (hlhs : function.type? lhs = some type) (hlhs' : other.type? lhs' = some type')
    (hrhs : function.type? rhs = some type) (hrhs' : other.type? rhs' = some type')
    (htokens : function.lexicon.typed lhs ++
        [Token.mark ',', Token.mark ' ', Token.word (function.lexicon.word rhs)] =
      other.lexicon.typed lhs' ++
        [Token.mark ',', Token.mark ' ', Token.word (other.lexicon.word rhs')]) :
    type = type' ∧ function.SameOperand other lhs lhs' ∧ function.SameOperand other rhs rhs' := by
  obtain ⟨hleft, hright⟩ := List.append_inj htokens rfl
  obtain ⟨rfl, hsame⟩ := hcomparable.typedOperand hlhs hlhs' hleft
  simp only [List.cons.injEq, Token.word.injEq, true_and, and_true] at hright
  exact ⟨rfl, hsame, hcomparable.operand hrhs hrhs' hright⟩

theorem converted {id id' : ValueId} {source source' type type' : Ty}
    (hid : function.type? id = some source) (hid' : other.type? id' = some source')
    (htokens : function.lexicon.typed id ++
        [Token.mark ' ', Token.word "to", Token.mark ' ', Token.word type.text] =
      other.lexicon.typed id' ++
        [Token.mark ' ', Token.word "to", Token.mark ' ', Token.word type'.text]) :
    type = type' ∧ function.SameOperand other id id' := by
  obtain ⟨hleft, hright⟩ := List.append_inj htokens rfl
  simp only [List.cons.injEq, Token.word.injEq, true_and, and_true] at hright
  exact ⟨Ty.text_inj hright, (hcomparable.typedOperand hid hid' hleft).2⟩

/-- Instructions that are written alike are the same, and of one type. -/
theorem inst {value value' : Value} (hvalue : value ∈ function.values)
    (hvalue' : value' ∈ other.values) (hlisted : value.inst.isFree = false)
    (hlisted' : value'.inst.isFree = false)
    (htokens : function.lexicon.inst value.type value.inst =
      other.lexicon.inst value'.type value'.inst) :
    value.type = value'.type ∧ value.inst.Same (function.SameOperand other) value'.inst := by
  obtain ⟨Declares, hwell⟩ := hcomparable.typed
  obtain ⟨Declares', hwell'⟩ := hcomparable.typed'
  have htyped := hwell.insts value hvalue
  have htyped' := hwell'.insts value' hvalue'
  have hsources := hcomparable.readable.valid.sources_lt value hvalue
  have hsources' := hcomparable.readable'.valid.sources_lt value' hvalue'
  obtain ⟨inst, type, name⟩ := value
  obtain ⟨inst', type', name'⟩ := value'
  simp only [Lexicon.inst, List.cons.injEq, Token.word.injEq, true_and] at htokens
  obtain ⟨hkeyword, htokens⟩ := htokens
  cases Inst.sameKind_of_keyword hlisted hlisted' hkeyword with
  | phi => exact hcomparable.phi htyped htyped' hsources hsources' htokens
  | binary op lhs lhs' rhs rhs' =>
      obtain ⟨_, hlhs, hrhs⟩ := htyped
      obtain ⟨_, hlhs', hrhs'⟩ := htyped'
      obtain ⟨rfl, hleft, hright⟩ := hcomparable.pair hlhs hlhs' hrhs hrhs' htokens
      exact ⟨rfl, .binary op hleft hright⟩
  | compare predicate predicate' lhs lhs' rhs rhs' =>
      obtain ⟨rfl, _, _, hlhs, hrhs⟩ := htyped
      obtain ⟨rfl, _, _, hlhs', hrhs'⟩ := htyped'
      obtain ⟨hword, hrest⟩ := List.cons.inj htokens
      obtain rfl := Predicate.text_inj (Token.word.inj hword)
      obtain ⟨_, hleft, hright⟩ :=
        hcomparable.pair hlhs hlhs' hrhs hrhs' (List.cons.inj hrest).2
      exact ⟨rfl, .compare predicate hleft hright⟩
  | zext operand operand' =>
      obtain ⟨_, _, _, hoperand, _⟩ := htyped
      obtain ⟨_, _, _, hoperand', _⟩ := htyped'
      exact (hcomparable.converted hoperand hoperand' htokens).imp id .zext
  | trunc operand operand' =>
      obtain ⟨_, _, _, hoperand, _⟩ := htyped
      obtain ⟨_, _, _, hoperand', _⟩ := htyped'
      exact (hcomparable.converted hoperand hoperand' htokens).imp id .trunc
  | load global global' index index' =>
      obtain ⟨rfl, hindex⟩ := htyped
      obtain ⟨rfl, hindex'⟩ := htyped'
      have hleft := List.append_inj_left' htokens rfl
      simp only [List.cons.injEq, Token.word.injEq, true_and] at hleft
      obtain ⟨rfl, hright⟩ := hleft
      exact ⟨rfl, .load global (hcomparable.typedOperand hindex hindex' hright).2⟩
  | store global global' index index' stored stored' =>
      obtain ⟨rfl, hindex, hstored⟩ := htyped
      obtain ⟨rfl, hindex', hstored'⟩ := htyped'
      obtain ⟨hleft, hright⟩ := List.append_inj (List.append_inj_left' htokens rfl) rfl
      simp only [List.cons.injEq, Token.word.injEq, true_and] at hright
      obtain ⟨rfl, hright⟩ := hright
      exact ⟨rfl, .store global (hcomparable.typedOperand hindex hindex' hright).2
        (hcomparable.typedOperand hstored hstored' hleft).2⟩
  | call callee callee' args args' =>
      obtain ⟨params, _, hargs⟩ := htyped
      obtain ⟨params', _, hargs'⟩ := htyped'
      simp only [Lexicon.operands, List.cons_append, List.cons.injEq, Token.word.injEq, true_and]
        at htokens
      obtain ⟨htext, rfl, hrest⟩ := htokens
      refine ⟨Ty.text_inj htext, .call callee (hcomparable.args hargs hargs' ?_)⟩
      exact List.append_inj_left' hrest rfl
  | makeRegs fields fields' =>
      obtain ⟨rfl, hfields⟩ := htyped
      obtain ⟨rfl, hfields'⟩ := htyped'
      simp only [Lexicon.operands, List.cons_append, List.cons.injEq, true_and] at htokens
      have hmaps := commas_map_inj 3 (by decide) (fun _ => rfl) (fun _ => rfl)
        (List.append_inj_left' htokens rfl)
      rw [PerRegister.toList_eq_map_all, PerRegister.toList_eq_map_all, List.map_map,
        List.map_map, List.map_inj_left] at hmaps
      refine ⟨rfl, .makeRegs fun register => ?_⟩
      exact (hcomparable.typedOperand (hfields register) (hfields' register)
        (hmaps register register.mem_all)).2
  | extractReg regs regs' field field' =>
      obtain ⟨hregs, register, rfl, rfl⟩ := htyped
      obtain ⟨hregs', register', rfl, rfl⟩ := htyped'
      obtain ⟨hleft, hright⟩ := List.append_inj htokens rfl
      simp only [List.cons.injEq, Token.word.injEq, true_and, and_true,
        Nat.repr_eq_repr_iff] at hright
      obtain rfl : register = register' := by
        rw [← Register.ofIndex_index register, hright, Register.ofIndex_index]
      exact ⟨rfl, .extractReg _ (hcomparable.typedOperand hregs hregs' hleft).2⟩

/-! Lines -/

theorem line {id id' : ValueId} {value value' : Value}
    (hvalue : function.values[id.index]? = some value)
    (hvalue' : other.values[id'.index]? = some value') (hlisted : value.inst.isFree = false)
    (hlisted' : value'.inst.isFree = false)
    (htokens : function.lexicon.line id value = other.lexicon.line id' value') :
    function.SameLine other id id' := by
  have hinst := hcomparable.inst (Array.mem_of_getElem? hvalue) (Array.mem_of_getElem? hvalue')
    hlisted hlisted'
  obtain ⟨name, hword, hname⟩ := word_defined hvalue (Inst.constant?_of_listed hlisted)
  obtain ⟨name', hword', hname'⟩ := word_defined hvalue' (Inst.constant?_of_listed hlisted')
  simp only [Lexicon.line, hword, hword', List.cons.injEq, true_and] at htokens
  by_cases hvoid : value.type = .void <;> by_cases hvoid' : value'.type = .void
  · rw [if_pos hvoid, if_pos hvoid'] at htokens
    obtain ⟨htype, hsame⟩ := hinst htokens
    exact ⟨value, value', hvalue, hvalue', htype, hsame, fun hvalued => absurd hvoid hvalued⟩
  · rw [if_pos hvoid, if_neg hvoid'] at htokens
    exact absurd (Token.word.inj (List.cons.inj htokens).1) (Lexicon.keyword_ne _ _)
  · rw [if_neg hvoid, if_pos hvoid'] at htokens
    exact absurd (Token.word.inj (List.cons.inj htokens).1).symm (Lexicon.keyword_ne _ _)
  · rw [if_neg hvoid, if_neg hvoid'] at htokens
    simp only [List.cons.injEq, Token.word.injEq, true_and] at htokens
    obtain ⟨hnames, htokens⟩ := htokens
    obtain ⟨htype, hsame⟩ := hinst htokens
    rw [← hnames] at hname'
    exact ⟨value, value', hvalue, hvalue', htype, hsame,
      fun _ => hcomparable.names id id' _ hname hname'⟩

theorem terminator {terminator terminator' : Terminator}
    (hrange : function.InRange terminator) (hrange' : other.InRange terminator')
    (htyped : terminator.Typed function.type?) (htyped' : terminator'.Typed other.type?)
    (htokens : function.lexicon.terminator terminator = other.lexicon.terminator terminator') :
    terminator.Same (function.SameOperand other) terminator' := by
  have hblock (target target' : BlockId) (hmem : target ∈ terminator.successors)
      (hmem' : target' ∈ terminator'.successors)
      (hsame : function.lexicon.target target = other.lexicon.target target') : target = target' :=
    hcomparable.block (hrange.2 target hmem) (hrange'.2 target' hmem') hsame
  have hlabel (type : Ty) : type.text ≠ "label" := by
    cases type <;> decide
  cases terminator with
  | br target =>
      cases terminator' with
      | br target' =>
          simp only [Lexicon.terminator, List.cons.injEq, true_and, and_true] at htokens
          obtain rfl := hblock target target' List.mem_cons_self List.mem_cons_self htokens
          exact .br target
      | condBr cond' thenBlock' elseBlock' =>
          simp only [Lexicon.terminator, Lexicon.typed, List.cons_append, List.cons.injEq,
            Token.word.injEq, true_and] at htokens
          exact absurd htokens.1.symm (hlabel _)
      | ret value' => simp [Lexicon.terminator] at htokens
  | condBr cond thenBlock elseBlock =>
      cases terminator' with
      | br target' =>
          simp only [Lexicon.terminator, Lexicon.typed, List.cons_append, List.cons.injEq,
            Token.word.injEq, true_and] at htokens
          exact absurd htokens.1 (hlabel _)
      | condBr cond' thenBlock' elseBlock' =>
          obtain ⟨hleft, hright⟩ := List.append_inj htokens rfl
          simp only [List.cons.injEq, true_and] at hleft
          simp only [List.cons.injEq, true_and, and_true] at hright
          obtain rfl := hblock thenBlock thenBlock' List.mem_cons_self List.mem_cons_self hright.1
          obtain rfl := hblock elseBlock elseBlock' (by simp [Terminator.successors])
            (by simp [Terminator.successors]) hright.2
          exact .condBr (hcomparable.typedOperand htyped htyped' hleft).2 thenBlock elseBlock
      | ret value' => simp [Lexicon.terminator] at htokens
  | ret value =>
      cases terminator' with
      | br | condBr => simp [Lexicon.terminator] at htokens
      | ret value' =>
          simp only [Lexicon.terminator, List.cons.injEq, true_and] at htokens
          exact .ret (hcomparable.typedOperand htyped htyped' htokens).2

theorem sameBlock {block block' : Block} (hblock : block ∈ function.blocks)
    (hblock' : block' ∈ other.blocks)
    (htokens : function.blockTokens block = other.blockTokens block') :
    function.SameBlock other block block' := by
  obtain ⟨Declares, hwell⟩ := hcomparable.typed
  obtain ⟨Declares', hwell'⟩ := hcomparable.typed'
  obtain ⟨terminator, hterminator, hrange⟩ :=
    hcomparable.readable.valid.terminators block hblock
  obtain ⟨terminator', hterminator', hrange'⟩ :=
    hcomparable.readable'.valid.terminators block' hblock'
  unfold blockTokens at htokens
  obtain ⟨hbody, hlast⟩ := List.append_inj' htokens rfl
  obtain ⟨hlabel, hinsts⟩ := List.cons.inj hbody
  simp only [List.cons.injEq, Token.word.injEq, and_true] at hlabel
  simp only [hterminator, hterminator', Option.map_some, Option.getD_some, List.cons.injEq,
    and_true] at hlast
  refine ⟨hlabel, List.forall₂_of_map_eq hinsts ?_, terminator, terminator', hterminator,
    hterminator', hcomparable.terminator hrange hrange'
      (hwell.terminators block hblock terminator hterminator)
      (hwell'.terminators block' hblock' terminator' hterminator') hlast⟩
  intro id hid id' hid' hline
  obtain ⟨value, hvalue, hlisted, hlineOf⟩ :=
    hcomparable.readable.lineOf_eq hblock (Array.mem_toList_iff.mp hid)
  obtain ⟨value', hvalue', hlisted', hlineOf'⟩ :=
    hcomparable.readable'.lineOf_eq hblock' (Array.mem_toList_iff.mp hid')
  rw [hlineOf, hlineOf'] at hline
  exact hcomparable.line hvalue hvalue' hlisted hlisted' hline

end Function.Comparable

/-! Heads -/

namespace Function

variable {function other : Function}

theorem labels_of_blockTokens
    (hblocks : List.Forall₂ (fun block block' => block ∈ function.blocks ∧ block' ∈ other.blocks ∧
      function.blockTokens block = other.blockTokens block')
      function.blocks.toList other.blocks.toList) :
    function.blocks.toList.map Block.label = other.blocks.toList.map Block.label := by
  rw [← List.forall₂_eq_eq_eq, List.forall₂_map_left_iff, List.forall₂_map_right_iff]
  refine hblocks.imp ?_
  rintro block block' ⟨_, _, htokens⟩
  simpa using (List.cons.inj (List.append_inj' htokens rfl).1).1

theorem head_of_tokens (htokens : function.headTokens = other.headTokens) :
    function.linkage = other.linkage ∧ function.result = other.result ∧
      function.name = other.name := by
  have hprivate (type : Ty) : type.text ≠ "private" := by
    cases type <;> decide
  unfold headTokens at htokens
  cases hlinkage : function.linkage <;> cases hlinkage' : other.linkage <;>
    simp only [hlinkage, hlinkage', List.cons_append, List.nil_append, List.cons.injEq,
      Token.word.injEq, true_and] at htokens
  · exact ⟨rfl, Ty.text_inj htokens.1, htokens.2.1⟩
  · exact absurd htokens.1 (hprivate _)
  · exact absurd htokens.1.symm (hprivate _)
  · exact ⟨rfl, Ty.text_inj htokens.1, htokens.2.1⟩

end Function

end Lift6502.Ssa
