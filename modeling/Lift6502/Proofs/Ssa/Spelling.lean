import Lift6502.Proofs.General
import Lift6502.Proofs.Ssa.Arrangement
import Lift6502.Proofs.Ssa.Tokens
import Lift6502.Proofs.Ssa.Validity

/-! The lines of a function as tokens. -/

namespace Lift6502.Ssa

open Token

/-- How the values and blocks of a function are written. -/
structure Lexicon where
  word : ValueId → String
  type : ValueId → Ty
  label : BlockId → String

namespace Lexicon

variable (lexicon : Lexicon)

@[simp] def typed (id : ValueId) : List Token :=
  [.word (lexicon.type id).text, .mark ' ', .word (lexicon.word id)]

@[simp] def target (id : BlockId) : Token :=
  .word ("%" ++ lexicon.label id)

@[simp] def entry (entry : ValueId × BlockId) : List Token :=
  [.mark '[', .mark ' ', .word (lexicon.word entry.1), .mark ',', .mark ' ',
    lexicon.target entry.2, .mark ' ', .mark ']']

/-- The word that an instruction starts with. -/
@[simp] def keyword : Inst → String
  | .param _ | .const _ => ""
  | .phi _ => "phi"
  | .binary op _ _ => op.text
  | .compare .. => "icmp"
  | .zext _ => "zext"
  | .trunc _ => "trunc"
  | .load .. => "load"
  | .store .. => "store"
  | .call .. => "call"
  | .makeRegs _ => "regs"
  | .extractReg .. => "extractvalue"

/-- What follows the first word of an instruction. -/
@[simp] def operands (type : Ty) : Inst → List Token
  | .param _ | .const _ => []
  | .phi incoming => .word type.text :: .mark ' ' :: commas (incoming.map lexicon.entry)
  | .binary _ lhs rhs => lexicon.typed lhs ++ [.mark ',', .mark ' ', .word (lexicon.word rhs)]
  | .compare predicate lhs rhs =>
      .word predicate.text :: .mark ' ' :: lexicon.typed lhs ++
        [.mark ',', .mark ' ', .word (lexicon.word rhs)]
  | .zext value | .trunc value =>
      lexicon.typed value ++ [.mark ' ', .word "to", .mark ' ', .word type.text]
  | .load global index =>
      .word type.text :: .mark ',' :: .mark ' ' :: .mark '@' :: .word global :: .mark '[' ::
        lexicon.typed index ++ [.mark ']']
  | .store global index value =>
      lexicon.typed value ++ .mark ',' :: .mark ' ' :: .mark '@' :: .word global :: .mark '[' ::
        lexicon.typed index ++ [.mark ']']
  | .call callee args =>
      .word type.text :: .mark ' ' :: .mark '@' :: .word callee :: .mark '(' ::
        commas (args.map lexicon.typed) ++ [.mark ')']
  | .makeRegs fields =>
      .mark '\x7b' :: .mark ' ' :: commas (fields.toList.map lexicon.typed) ++
        [.mark ' ', .mark '\x7d']
  | .extractReg regs field => lexicon.typed regs ++ [.mark ',', .mark ' ', .word field.repr]

@[simp] def inst (type : Ty) (inst : Inst) : List Token :=
  .word (keyword inst) :: .mark ' ' :: lexicon.operands type inst

def line (id : ValueId) (value : Value) : List Token :=
  .mark ' ' :: .mark ' ' ::
    if value.type = .void then lexicon.inst value.type value.inst
    else .word (lexicon.word id) :: .mark ' ' :: .mark '=' :: .mark ' ' ::
      lexicon.inst value.type value.inst

def terminator : Terminator → List Token
  | .br target =>
      [.mark ' ', .mark ' ', .word "br", .mark ' ', .word "label", .mark ' ',
        lexicon.target target]
  | .condBr cond thenBlock elseBlock =>
      .mark ' ' :: .mark ' ' :: .word "br" :: .mark ' ' :: lexicon.typed cond ++
        [.mark ',', .mark ' ', .word "label", .mark ' ', lexicon.target thenBlock,
          .mark ',', .mark ' ', .word "label", .mark ' ', lexicon.target elseBlock]
  | .ret value => .mark ' ' :: .mark ' ' :: .word "ret" :: .mark ' ' :: lexicon.typed value

end Lexicon

/-- The text of a constant: a flag as a word, and any other as a number. -/
def Ty.constantText (type : Ty) (bits : UInt16) : String :=
  if type = .i1 then if bits = 0 then "false" else "true" else bits.toNat.repr

theorem Inst.constant?_of_listed {inst : Inst} (hlisted : inst.isFree = false) :
    inst.constant? = none := by
  cases inst with
  | const => cases hlisted
  | _ => rfl

namespace Function

variable {function : Function}

def lexicon (function : Function) : Lexicon where
  word id := match function.operandText id with
    | .ok text => text
    | .error _ => ""
  type id := (function.type? id).getD .void
  label id := match function.block id with
    | .ok block => block.label
    | .error _ => ""

theorem block_eq {id : BlockId} {block : Block}
    (hblock : function.blocks[id.index]? = some block) : function.block id = .ok block := by
  unfold Function.block
  rw [hblock]

theorem valueName_eq {id : ValueId} {value : Value}
    (hvalue : function.values[id.index]? = some value) :
    function.valueName id = .ok ("%" ++ value.name.getD ("v" ++ id.index.repr)) := by
  unfold valueName
  rw [value_of_getElem? hvalue]
  simp only [bind, Except.bind]
  cases value.name with
  | some name => rfl
  | none =>
      refine congrArg Except.ok (String.toList_inj.mp ?_)
      simp [toString]

theorem operandText_const {id : ValueId} {bits : UInt16} {type : Ty} {name : Option String}
    (hvalue : function.values[id.index]? = some ⟨.const bits, type, name⟩) :
    function.operandText id = .ok (type.constantText bits) := by
  unfold operandText Ty.constantText
  rw [value_of_getElem? hvalue]
  simp only [bind, Except.bind]
  split <;> rfl

theorem operandText_defined {id : ValueId} {value : Value}
    (hvalue : function.values[id.index]? = some value) (hconstant : value.inst.constant? = none) :
    function.operandText id = .ok ("%" ++ value.name.getD ("v" ++ id.index.repr)) := by
  unfold operandText
  rw [value_of_getElem? hvalue, ← valueName_eq hvalue]
  cases hinst : value.inst with
  | const bits =>
      rw [hinst] at hconstant
      cases hconstant
  | _ => simp only [bind, Except.bind, hinst]

theorem operandText_cases {id : ValueId} {value : Value}
    (hvalue : function.values[id.index]? = some value) :
    (∃ bits type name, value = ⟨.const bits, type, name⟩ ∧
        function.operandText id = .ok (type.constantText bits)) ∨
      value.inst.constant? = none ∧
        function.operandText id = .ok ("%" ++ value.name.getD ("v" ++ id.index.repr)) := by
  cases hconstant : value.inst.constant? with
  | none => exact .inr ⟨rfl, operandText_defined hvalue hconstant⟩
  | some bits =>
      obtain ⟨inst, type, name⟩ := value
      cases inst with
      | const found => exact .inl ⟨found, type, name, rfl, operandText_const hvalue⟩
      | _ => cases hconstant

theorem operandText_eq {id : ValueId} (hid : id.index < function.values.size) :
    function.operandText id = .ok (function.lexicon.word id) := by
  rcases operandText_cases (Array.getElem?_eq_getElem hid) with
    ⟨bits, type, name, _, htext⟩ | ⟨_, htext⟩
  · simp [lexicon, htext]
  · simp [lexicon, htext]

theorem typedText_eq {id : ValueId} (hid : id.index < function.values.size) :
    function.typedText id = .ok (spell (function.lexicon.typed id)) := by
  have hvalue := Array.getElem?_eq_getElem hid
  have htype : function.lexicon.type id = function.values[id.index].type := by
    simp [lexicon, type?, hvalue]
  unfold typedText
  rw [value_of_getElem? hvalue, operandText_eq hid]
  exact congrArg Except.ok (eq_spell (by simp [htype, toString]))

theorem labelText_eq {id : BlockId} (hid : id.index < function.blocks.size) :
    function.labelText id = .ok ("%" ++ function.lexicon.label id) := by
  have hblock := block_eq (Array.getElem?_eq_getElem hid)
  have hlabel : function.lexicon.label id = function.blocks[id.index].label := by
    simp [lexicon, hblock]
  unfold labelText
  rw [hblock, hlabel]
  rfl

theorem incomingText_eq {entry : ValueId × BlockId} (hvalue : entry.1.index < function.values.size)
    (hsource : entry.2.index < function.blocks.size) :
    function.incomingText entry = .ok (spell (function.lexicon.entry entry)) := by
  unfold incomingText
  rw [operandText_eq hvalue, labelText_eq hsource]
  exact congrArg Except.ok (eq_spell (by simp [toString]))

theorem mapM_typedText {ids : List ValueId} (hids : ∀ id ∈ ids, id.index < function.values.size) :
    ids.mapM function.typedText =
      .ok ((ids.map function.lexicon.typed).map spell) := by
  rw [List.map_map]
  exact List.mapM_eq_ok fun id hid => typedText_eq (hids id hid)

theorem instText_eq {type : Ty} {inst : Inst} (hlisted : inst.isFree = false)
    (hoperands : ∀ id ∈ inst.operands, id.index < function.values.size)
    (hsources : ∀ entry ∈ inst.incoming, entry.2.index < function.blocks.size) :
    function.instText type inst = .ok (some (spell (function.lexicon.inst type inst))) := by
  have hspelled {text : String} {tokens : List Token}
      (hchars : text.toList = tokens.flatMap chars) :
      (Except.ok (some text) : Except Fault (Option String)) = .ok (some (spell tokens)) := by
    rw [eq_spell hchars]
  cases inst with
  | param | const => cases hlisted
  | phi incoming =>
      have hentries : incoming.mapM function.incomingText =
          .ok ((incoming.map function.lexicon.entry).map spell) := by
        rw [List.map_map]
        exact List.mapM_eq_ok fun entry hentry =>
          incomingText_eq (hoperands entry.1 (List.mem_map_of_mem hentry)) (hsources entry hentry)
      simp only [instText, hentries, bind, Except.bind, commaSeparated_spell]
      exact hspelled (by simp [toString])
  | binary op lhs rhs | compare predicate lhs rhs =>
      simp only [instText, typedText_eq (hoperands lhs (by simp [Inst.operands])),
        operandText_eq (hoperands rhs (by simp [Inst.operands])), bind, Except.bind]
      exact hspelled (by simp [toString])
  | zext value | trunc value =>
      simp only [instText, typedText_eq (hoperands value (by simp [Inst.operands])), bind,
        Except.bind]
      exact hspelled (by simp [toString])
  | load global index =>
      simp only [instText, typedText_eq (hoperands index (by simp [Inst.operands])), bind,
        Except.bind]
      exact hspelled (by simp [toString])
  | store global index value =>
      simp only [instText, typedText_eq (hoperands index (by simp [Inst.operands])),
        typedText_eq (hoperands value (by simp [Inst.operands])), bind, Except.bind]
      exact hspelled (by simp [toString])
  | call callee args =>
      have hargs : args.mapM function.typedText =
          .ok ((args.map function.lexicon.typed).map spell) := mapM_typedText hoperands
      simp only [instText, hargs, bind, Except.bind, commaSeparated_spell]
      exact hspelled (by simp [toString])
  | makeRegs fields =>
      have hfields : fields.toList.mapM function.typedText =
          .ok ((fields.toList.map function.lexicon.typed).map spell) := mapM_typedText hoperands
      simp only [instText, hfields, bind, Except.bind, commaSeparated_spell]
      exact hspelled (by simp)
  | extractReg regs field =>
      simp only [instText, typedText_eq (hoperands regs (by simp [Inst.operands])), bind,
        Except.bind]
      exact hspelled (by simp [toString])

theorem valueLine_eq {id : ValueId} {value : Value}
    (hvalue : function.values[id.index]? = some value) (hlisted : value.inst.isFree = false)
    (hoperands : ∀ operand ∈ value.inst.operands, operand.index < function.values.size)
    (hsources : ∀ entry ∈ value.inst.incoming, entry.2.index < function.blocks.size) :
    function.valueLine id = .ok (some (spell (function.lexicon.line id value))) := by
  have hname : function.valueName id = .ok (function.lexicon.word id) := by
    rw [← operandText_eq (Array.getElem?_eq_some_iff.mp hvalue).1,
      operandText_defined hvalue (Inst.constant?_of_listed hlisted), valueName_eq hvalue]
  unfold valueLine
  rw [value_of_getElem? hvalue]
  simp only [bind, Except.bind, instText_eq hlisted hoperands hsources]
  unfold Lexicon.line
  by_cases hvoid : value.type = .void
  · rw [if_pos hvoid, if_pos hvoid]
    exact congrArg (Except.ok ∘ some) (eq_spell (by simp [toString]))
  · rw [if_neg hvoid, if_neg hvoid, hname]
    exact congrArg (Except.ok ∘ some) (eq_spell (by simp [toString]))

theorem terminatorLine_eq {terminator : Terminator} (hrange : function.InRange terminator) :
    function.terminatorLine (some terminator) =
      .ok (spell (function.lexicon.terminator terminator)) := by
  obtain ⟨hoperands, htargets⟩ := hrange
  cases terminator with
  | br target =>
      simp only [terminatorLine, labelText_eq (htargets target (by simp [Terminator.successors])),
        bind, Except.bind]
      exact congrArg Except.ok (eq_spell (by simp [Lexicon.terminator, toString]))
  | condBr cond thenBlock elseBlock =>
      simp only [terminatorLine, typedText_eq (hoperands cond (by simp [Terminator.operands])),
        labelText_eq (htargets thenBlock (by simp [Terminator.successors])),
        labelText_eq (htargets elseBlock (by simp [Terminator.successors])), bind, Except.bind]
      exact congrArg Except.ok (eq_spell (by simp [Lexicon.terminator, toString]))
  | ret value =>
      simp only [terminatorLine, typedText_eq (hoperands value (by simp [Terminator.operands])),
        bind, Except.bind]
      exact congrArg Except.ok (eq_spell (by simp [Lexicon.terminator, toString]))

/-! Lines of blocks and functions -/

def lineOf (function : Function) (id : ValueId) : List Token :=
  (function.values[id.index]?.map (function.lexicon.line id)).getD []

def blockTokens (function : Function) (block : Block) : List (List Token) :=
  [.word block.label, .mark ':'] :: block.insts.toList.map function.lineOf ++
    [(block.terminator.map function.lexicon.terminator).getD []]

def headTokens (function : Function) : List Token :=
  Token.word "define" :: Token.mark ' ' ::
    (match function.linkage with
      | .external => []
      | .internal => [Token.word "private", Token.mark ' ']) ++
    Token.word function.result.text :: Token.mark ' ' :: Token.mark '@' ::
      Token.word function.name :: Token.mark '(' ::
      commas (function.params.map function.lexicon.typed) ++
        [Token.mark ')', Token.mark ' ', Token.mark '\x7b']

def Listed (function : Function) : Prop :=
  ∀ block ∈ function.blocks, ∀ id ∈ block.insts, ∀ value,
    function.values[id.index]? = some value → value.inst.isFree = false

section Lines

variable (hvalid : function.Valid) (hlisted : function.Listed)

include hvalid

theorem headLine_eq : function.headLine = .ok (spell function.headTokens) := by
  unfold headLine
  rw [mapM_typedText hvalid.params_lt]
  simp only [bind, Except.bind, commaSeparated_spell]
  refine congrArg Except.ok (eq_spell ?_)
  unfold headTokens
  cases function.linkage <;> simp [toString]

include hlisted

theorem blockLines_eq {block : Block} (hblock : block ∈ function.blocks) :
    function.blockLines block = .ok ((function.blockTokens block).map spell) := by
  have hinsts : block.insts.toList.mapM function.valueLine =
      .ok (block.insts.toList.map fun id => some (spell (function.lineOf id))) := by
    apply List.mapM_eq_ok
    intro id hid
    have hmem := Array.mem_toList_iff.mp hid
    have hvalue := Array.getElem?_eq_getElem (hvalid.insts_lt block hblock id hmem)
    have harena := Array.mem_of_getElem? hvalue
    rw [valueLine_eq hvalue (hlisted block hblock id hmem _ hvalue)
      (hvalid.operands_lt _ harena) (hvalid.sources_lt _ harena)]
    simp [lineOf, hvalue]
  obtain ⟨terminator, hterminator, hrange⟩ := hvalid.terminators block hblock
  have hlabel : s!"{block.label}:" = spell [.word block.label, .mark ':'] :=
    eq_spell (by simp [toString])
  unfold blockLines blockTokens
  rw [hinsts, hterminator, terminatorLine_eq hrange, hlabel]
  simp [bind, Except.bind, pure, Except.pure, List.filterMap_map, Function.comp_def]

theorem lines_eq : function.lines = .ok (spell function.headTokens ::
    [""].intercalate (function.blocks.toList.map fun block =>
      (function.blockTokens block).map spell) ++ ["\x7d"]) := by
  unfold lines
  rw [headLine_eq hvalid, List.mapM_eq_ok fun block hblock =>
    blockLines_eq hvalid hlisted (Array.mem_toList_iff.mp hblock)]
  rfl

end Lines

end Function

/-! Words do not touch -/

def Inst.symbols : Inst → List String
  | .load global _ | .store global _ _ => [global]
  | .call callee _ => [callee]
  | .param _ | .const _ | .phi _ | .binary .. | .compare .. | .zext _ | .trunc _ | .makeRegs _
  | .extractReg .. => []

theorem Ty.isWord_text (type : Ty) : IsWord type.text := by
  cases type <;> decide

theorem Ty.isWord_constantText (type : Ty) (bits : UInt16) : IsWord (type.constantText bits) := by
  unfold constantText
  split
  · split <;> decide
  · exact isWord_repr _

theorem BinOp.isWord_text (op : BinOp) : IsWord op.text := by
  cases op <;> decide

theorem Predicate.isWord_text (predicate : Predicate) : IsWord predicate.text := by
  cases predicate <;> decide

theorem Lexicon.isWord_keyword {inst : Inst} (hlisted : inst.isFree = false) :
    IsWord (keyword inst) := by
  cases inst with
  | param | const => cases hlisted
  | binary op => exact op.isWord_text
  | phi | compare | zext | trunc | load | store | call | makeRegs | extractReg =>
      rw [keyword]
      decide

namespace Function

variable {function : Function}

/-- All that is written as a word is one. -/
structure Legible (function : Function) : Prop where
  name : IsWord function.name
  labels : ∀ block ∈ function.blocks, IsWord block.label
  names : ∀ value ∈ function.values, ∀ name, value.name = some name → IsWord name
  symbols : ∀ value ∈ function.values, ∀ symbol ∈ value.inst.symbols, IsWord symbol

section Separated

variable (hlegible : function.Legible)

include hlegible

theorem isWord_word {id : ValueId} (hid : id.index < function.values.size) :
    IsWord (function.lexicon.word id) := by
  have hvalue := Array.getElem?_eq_getElem hid
  have htext := operandText_eq hid
  rcases operandText_cases hvalue with ⟨bits, type, name, _, hconst⟩ | ⟨_, hdefined⟩
  · rw [hconst] at htext
    rw [← Except.ok.inj htext]
    exact type.isWord_constantText bits
  · have hpercent : IsWord "%" := by decide
    rw [hdefined] at htext
    rw [← Except.ok.inj htext]
    apply hpercent.append
    cases hname : function.values[id.index].name with
    | some name => exact (hlegible.names _ (Array.mem_of_getElem? hvalue) name hname).2
    | none =>
        have hv : IsWord "v" := by decide
        exact (hv.append (isWord_repr id.index).2).2

theorem isWord_target {id : BlockId} (hid : id.index < function.blocks.size) :
    IsWord ("%" ++ function.lexicon.label id) := by
  have hblock := Array.getElem?_eq_getElem hid
  have hlabel : function.lexicon.label id = function.blocks[id.index].label := by
    simp [lexicon, block_eq hblock]
  have hpercent : IsWord "%" := by decide
  rw [hlabel]
  exact hpercent.append (hlegible.labels _ (Array.mem_of_getElem? hblock)).2

theorem separated_typed {id : ValueId} (hid : id.index < function.values.size) :
    Separated (function.lexicon.typed id) :=
  ⟨Ty.isWord_text _, by decide, isWord_word hlegible hid⟩

theorem separated_typed_commas {ids : List ValueId}
    (hids : ∀ id ∈ ids, id.index < function.values.size) :
    Separated (commas (ids.map function.lexicon.typed)) := by
  apply separated_commas
  intro item hitem
  obtain ⟨id, hid, rfl⟩ := List.mem_map.mp hitem
  exact separated_typed hlegible (hids id hid)

theorem separated_inst {type : Ty} {inst : Inst} (hlisted : inst.isFree = false)
    (hoperands : ∀ id ∈ inst.operands, id.index < function.values.size)
    (hsources : ∀ entry ∈ inst.incoming, entry.2.index < function.blocks.size)
    (hsymbols : ∀ symbol ∈ inst.symbols, IsWord symbol) :
    Separated (function.lexicon.inst type inst) := by
  have hword (id : ValueId) (hid : id ∈ inst.operands) := isWord_word hlegible (hoperands id hid)
  refine ⟨Lexicon.isWord_keyword hlisted, by decide, ?_⟩
  cases inst with
  | param | const => cases hlisted
  | phi incoming =>
      have hentries : Separated (commas (incoming.map function.lexicon.entry)) := by
        apply separated_commas
        intro item hitem
        obtain ⟨entry, hentry, rfl⟩ := List.mem_map.mp hitem
        simp [isMark, marks, hword entry.1 (List.mem_map_of_mem hentry),
          isWord_target hlegible (hsources entry hentry)]
      exact ⟨Ty.isWord_text type, by decide, hentries⟩
  | binary op lhs rhs =>
      simp [isMark, marks, Ty.isWord_text, hword lhs (by simp [Inst.operands]),
        hword rhs (by simp [Inst.operands])]
  | compare predicate lhs rhs =>
      simp [isMark, marks, Ty.isWord_text, Predicate.isWord_text,
        hword lhs (by simp [Inst.operands]), hword rhs (by simp [Inst.operands])]
  | zext value | trunc value =>
      have hto : IsWord "to" := by decide
      simp [isMark, marks, Ty.isWord_text, hto, hword value (by simp [Inst.operands])]
  | load global index =>
      simp [isMark, marks, Ty.isWord_text, hword index (by simp [Inst.operands]),
        hsymbols global (by simp [Inst.symbols])]
  | store global index value =>
      simp [isMark, marks, Ty.isWord_text, hword index (by simp [Inst.operands]),
        hword value (by simp [Inst.operands]), hsymbols global (by simp [Inst.symbols])]
  | call callee args =>
      have hargs : Separated (commas (args.map function.lexicon.typed)) :=
        separated_typed_commas hlegible hoperands
      refine ⟨Ty.isWord_text type, by decide, by decide, hsymbols callee (by simp [Inst.symbols]),
        by decide, ?_⟩
      exact hargs.append_mark (by decide) trivial
  | makeRegs fields =>
      have hfields : Separated (commas (fields.toList.map function.lexicon.typed)) :=
        separated_typed_commas hlegible hoperands
      refine ⟨by decide, by decide, ?_⟩
      exact hfields.append_mark (by decide) ⟨by decide, trivial⟩
  | extractReg regs field =>
      simp [isMark, marks, Ty.isWord_text, hword regs (by simp [Inst.operands]), isWord_repr]

theorem separated_line {id : ValueId} {value : Value}
    (hid : id.index < function.values.size) (hlisted : value.inst.isFree = false)
    (hoperands : ∀ operand ∈ value.inst.operands, operand.index < function.values.size)
    (hsources : ∀ entry ∈ value.inst.incoming, entry.2.index < function.blocks.size)
    (hsymbols : ∀ symbol ∈ value.inst.symbols, IsWord symbol) :
    Separated (function.lexicon.line id value) := by
  have hinst : Separated (function.lexicon.inst value.type value.inst) :=
    separated_inst hlegible hlisted hoperands hsources hsymbols
  unfold Lexicon.line
  split
  · exact ⟨by decide, by decide, hinst⟩
  · exact ⟨by decide, by decide, isWord_word hlegible hid, by decide, by decide, by decide, hinst⟩

theorem separated_terminator {terminator : Terminator} (hrange : function.InRange terminator) :
    Separated (function.lexicon.terminator terminator) := by
  obtain ⟨hoperands, htargets⟩ := hrange
  have hword (id : ValueId) (hid : id ∈ terminator.operands) :=
    isWord_word hlegible (hoperands id hid)
  have htarget (id : BlockId) (hid : id ∈ terminator.successors) :=
    isWord_target hlegible (htargets id hid)
  have hbr : IsWord "br" := by decide
  have hlabel : IsWord "label" := by decide
  have hret : IsWord "ret" := by decide
  cases terminator with
  | br target =>
      simp [Lexicon.terminator, isMark, marks, hbr, hlabel,
        htarget target (by simp [Terminator.successors])]
  | condBr cond thenBlock elseBlock =>
      simp [Lexicon.terminator, isMark, marks, hbr, hlabel, Ty.isWord_text,
        hword cond (by simp [Terminator.operands]),
        htarget thenBlock (by simp [Terminator.successors]),
        htarget elseBlock (by simp [Terminator.successors])]
  | ret value =>
      simp [Lexicon.terminator, isMark, marks, hret, Ty.isWord_text,
        hword value (by simp [Terminator.operands])]

theorem separated_head (hparams : ∀ id ∈ function.params, id.index < function.values.size) :
    Separated function.headTokens := by
  have hparams : Separated (commas (function.params.map function.lexicon.typed)) :=
    separated_typed_commas hlegible hparams
  have hrest : Separated (Token.word function.result.text :: Token.mark ' ' :: Token.mark '@' ::
      Token.word function.name :: Token.mark '(' ::
      commas (function.params.map function.lexicon.typed) ++
        [Token.mark ')', Token.mark ' ', Token.mark '\x7b']) := by
    refine ⟨Ty.isWord_text _, by decide, by decide, hlegible.name, by decide, ?_⟩
    exact hparams.append_mark (by decide) ⟨by decide, by decide, trivial⟩
  unfold headTokens
  cases function.linkage with
  | external => exact ⟨by decide, by decide, hrest⟩
  | internal => exact ⟨by decide, by decide, by decide, by decide, hrest⟩

end Separated

/-! Texts -/

/-- A function whose text can be read: all that it refers to is there, and all
that is written as a word is one. -/
structure Readable (function : Function) : Prop where
  valid : function.Valid
  listed : function.Listed
  legible : function.Legible
  blocks_ne : function.blocks ≠ #[]

namespace Readable

variable {other : Function} (hreadable : function.Readable)

include hreadable

theorem lineOf_eq {block : Block} (hblock : block ∈ function.blocks) {id : ValueId}
    (hid : id ∈ block.insts) : ∃ value, function.values[id.index]? = some value ∧
      value.inst.isFree = false ∧ function.lineOf id = function.lexicon.line id value := by
  have hvalue := Array.getElem?_eq_getElem (hreadable.valid.insts_lt block hblock id hid)
  exact ⟨_, hvalue, hreadable.listed block hblock id hid _ hvalue, by simp [lineOf, hvalue]⟩

theorem separated_blockTokens {block : Block} (hblock : block ∈ function.blocks) :
    ∀ line ∈ function.blockTokens block, Separated line ∧ line ≠ [] := by
  obtain ⟨terminator, hterminator, hrange⟩ := hreadable.valid.terminators block hblock
  intro line hline
  simp only [blockTokens, List.cons_append, List.mem_cons, List.mem_append, List.mem_map,
    List.not_mem_nil, or_false, hterminator, Option.map_some, Option.getD_some] at hline
  rcases hline with rfl | ⟨id, hid, rfl⟩ | rfl
  · exact ⟨⟨hreadable.legible.labels block hblock, by decide, trivial⟩, by simp⟩
  · obtain ⟨value, hvalue, hlisted, hline⟩ :=
      hreadable.lineOf_eq hblock (Array.mem_toList_iff.mp hid)
    have harena := Array.mem_of_getElem? hvalue
    rw [hline]
    refine ⟨?_, by simp [Lexicon.line]⟩
    exact separated_line hreadable.legible (Array.getElem?_eq_some_iff.mp hvalue).1 hlisted
      (hreadable.valid.operands_lt value harena) (hreadable.valid.sources_lt value harena)
      (hreadable.legible.symbols value harena)
  · refine ⟨separated_terminator hreadable.legible hrange, ?_⟩
    cases terminator <;> simp [Lexicon.terminator]

theorem text_eq : function.text = .ok (Lines.join (spell function.headTokens ::
    [""].intercalate (function.blocks.toList.map fun block =>
      (function.blockTokens block).map spell) ++ ["\x7d"])) := by
  unfold text
  rw [lines_eq hreadable.valid hreadable.listed]
  rfl

theorem not_mem_lines : ∀ line ∈ spell function.headTokens ::
    [""].intercalate (function.blocks.toList.map fun block =>
      (function.blockTokens block).map spell) ++ ["\x7d"], '\n' ∉ line.toList := by
  intro line hline
  rw [List.cons_append, List.mem_cons, List.mem_append, List.mem_singleton] at hline
  rcases hline with rfl | hline | rfl
  · exact not_mem_spell (separated_head hreadable.legible hreadable.valid.params_lt)
  · rcases List.mem_of_mem_intercalate hline with hempty | ⟨lines, hlines, hline⟩
    · rw [List.mem_singleton.mp hempty]
      decide
    · obtain ⟨block, hblock, rfl⟩ := List.mem_map.mp hlines
      obtain ⟨tokens, htokens, rfl⟩ := List.mem_map.mp hline
      exact not_mem_spell
        (hreadable.separated_blockTokens (Array.mem_toList_iff.mp hblock) tokens htokens).1
  · decide

theorem blocks_eq_splitOn : ([""].intercalate (function.blocks.toList.map fun block =>
      (function.blockTokens block).map spell)).splitOn "" =
    function.blocks.toList.map fun block => (function.blockTokens block).map spell := by
  apply List.splitOn_intercalate
  · intro lines hlines hempty
    obtain ⟨block, hblock, rfl⟩ := List.mem_map.mp hlines
    obtain ⟨line, hline, hspell⟩ := List.mem_map.mp hempty
    obtain ⟨hseparated, hne⟩ :=
      hreadable.separated_blockTokens (Array.mem_toList_iff.mp hblock) line hline
    exact hne (spell_inj hseparated trivial hspell)
  · simpa using hreadable.blocks_ne

/-- Functions with one text have the same lines, block by block. -/
theorem tokens_of_text (hother : other.Readable) (htext : function.text = other.text) :
    function.headTokens = other.headTokens ∧
      List.Forall₂ (fun block block' => block ∈ function.blocks ∧ block' ∈ other.blocks ∧
        function.blockTokens block = other.blockTokens block')
        function.blocks.toList other.blocks.toList := by
  rw [hreadable.text_eq, hother.text_eq, Except.ok.injEq] at htext
  have hlines := Lines.join_inj hreadable.not_mem_lines hother.not_mem_lines htext
  rw [List.cons_append, List.cons_append] at hlines
  obtain ⟨hhead, hrest⟩ := List.cons.inj hlines
  have hblocks := congrArg (List.splitOn "") (List.append_inj_left' hrest rfl)
  rw [hreadable.blocks_eq_splitOn, hother.blocks_eq_splitOn] at hblocks
  refine ⟨spell_inj (separated_head hreadable.legible hreadable.valid.params_lt)
    (separated_head hother.legible hother.valid.params_lt) hhead, ?_⟩
  refine List.forall₂_of_map_eq hblocks fun block hblock block' hblock' hspell => ?_
  have hmem := Array.mem_toList_iff.mp hblock
  have hmem' := Array.mem_toList_iff.mp hblock'
  exact ⟨hmem, hmem', map_spell_inj
    (fun line hline => (hreadable.separated_blockTokens hmem line hline).1)
    (fun line hline => (hother.separated_blockTokens hmem' line hline).1) hspell⟩

end Readable

end Function

end Lift6502.Ssa
