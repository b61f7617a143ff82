import Lift6502.Proofs.Ssa.Segment

/-! What the steps of construction do to the arena. A step appends entries or
gives a phi more entries, so what holds of all entries is kept if it holds of
each entry that is appended. -/

namespace Lift6502

/-- A step that succeeds only in states that satisfy the invariant, if it
starts in one. -/
def Keeps {σ ε α : Type} (invariant : σ → Prop) (step : StateT σ (Except ε) α) : Prop :=
  ∀ state result state', step state = .ok (result, state') → invariant state → invariant state'

namespace Keeps

variable {σ ε α β : Type} {invariant : σ → Prop}

theorem pure (result : α) : Keeps invariant (pure result : StateT σ (Except ε) α) := by
  intro state found state' hrun hstate
  cases hrun
  exact hstate

theorem throw (error : ε) : Keeps invariant (throw error : StateT σ (Except ε) α) := by
  intro state found state' hrun
  cases hrun

theorem bind {step : StateT σ (Except ε) α} {next : α → StateT σ (Except ε) β}
    (hstep : Keeps invariant step) (hnext : ∀ result, Keeps invariant (next result)) :
    Keeps invariant (step >>= next) := by
  intro state found state' hrun hstate
  obtain ⟨value, middle, hfirst, hrest⟩ := StateT.exists_of_bind hrun
  exact hnext value _ _ _ hrest (hstep _ _ _ hfirst hstate)

theorem forM {step : α → StateT σ (Except ε) Unit} (items : List α)
    (hstep : ∀ item ∈ items, Keeps invariant (step item)) :
    Keeps invariant (items.forM step) := by
  induction items with
  | nil => exact .pure ()
  | cons item rest ih =>
      exact .bind (hstep item List.mem_cons_self) fun _ =>
        ih fun other hother => hstep other (List.mem_cons_of_mem _ hother)

end Keeps

namespace Ssa

/-- Every entry of the arena is allowed at its position. -/
def Function.Each (allowed : Nat → Value → Prop) (function : Function) : Prop :=
  ∀ position value, function.values[position]? = some value → allowed position value

/-- An entry that an integer operation appends to an arena of a size: a
constant that fits its type, or an instruction on entries before it. -/
def Value.Computed (size : Nat) (value : Value) : Prop :=
  match value.inst with
  | .const bits => bits ≤ value.type.mask
  | .binary _ lhs rhs => lhs.index < size ∧ rhs.index < size
  | .compare _ lhs rhs => value.type = .i1 ∧ lhs.index < size ∧ rhs.index < size
  | .zext operand | .trunc operand => operand.index < size
  | .param _ | .phi _ | .load .. | .store .. | .call .. | .makeRegs _ | .extractReg .. => False

/-- One entry is appended, as by an integer operation. -/
def Function.Computes (function function' : Function) : Prop :=
  ∃ value, function'.values = function.values.push value ∧ value.Computed function.values.size

variable {allowed : Nat → Value → Prop} {function function' : Function}

theorem Function.Each.push {value : Value} (heach : function.Each allowed)
    (hvalue : allowed function.values.size value)
    (hvalues : function'.values = function.values.push value) : function'.Each allowed := by
  intro position found hfound
  rw [hvalues, Array.getElem?_push] at hfound
  split at hfound
  · next hposition =>
      cases hfound
      rwa [hposition]
  · exact heach position found hfound

theorem Function.Each.of_values (heach : function.Each allowed)
    (hvalues : function'.values = function.values) : function'.Each allowed := by
  unfold Function.Each
  rwa [hvalues]

namespace Builder

/-! Entries that are appended -/

theorem emit_ok {block : BlockId} {inst : Inst} {type : Ty} {id : ValueId}
    (hrun : emit block inst type function = .ok (id, function')) :
    function'.values = function.values.push ⟨inst, type, none⟩ := by
  change (modifyBlock block _ _ >>= fun reached => _) = _ at hrun
  unfold modifyBlock at hrun
  split at hrun <;> cases hrun
  rfl

theorem value_ok {id : ValueId} {value : Value}
    (hrun : Builder.value id function = .ok (value, function')) :
    function = function' ∧ function.values[id.index]? = some value := by
  unfold Builder.value Function.value at hrun
  cases hvalue : function.values[id.index]? with
  | none =>
      rw [hvalue] at hrun
      cases hrun
  | some found =>
      rw [hvalue] at hrun
      cases hrun
      exact ⟨rfl, rfl⟩

theorem const_ok {type : Ty} {bits : UInt16} {id : ValueId}
    (hrun : const type bits function = .ok (id, function')) : function.Computes function' := by
  cases hrun
  refine ⟨_, rfl, ?_⟩
  show (bits &&& type.mask).toNat ≤ type.mask.toNat
  rw [UInt16.toNat_and]
  exact Nat.and_le_right

section Operations

variable {block : BlockId} {id : ValueId}

theorem emit_computed {inst : Inst} {type : Ty}
    (hrun : emit block inst type function = .ok (id, function'))
    (hcomputed : Value.Computed function.values.size ⟨inst, type, none⟩) :
    function.Computes function' :=
  ⟨_, emit_ok hrun, hcomputed⟩

variable {lhs rhs : ValueId} {left right : Value}

/-- An operation on constants is folded; any other becomes an instruction. -/
theorem binary_cases (op : BinOp) (hlhs : function.values[lhs.index]? = some left)
    (hrhs : function.values[rhs.index]? = some right) (htype : left.type = right.type) :
    (∃ l r, left.inst.constant? = some l ∧ right.inst.constant? = some r ∧
      binary block op lhs rhs function = const left.type (op.fold left.type l r) function) ∨
    (left.inst.constant? = none ∨ right.inst.constant? = none) ∧
      binary block op lhs rhs function = emit block (.binary op lhs rhs) left.type function := by
  cases hl : left.inst.constant? with
  | none => exact .inr ⟨.inl rfl, binary_eq_emit op hlhs hrhs htype (.inl hl)⟩
  | some l =>
      cases hr : right.inst.constant? with
      | none => exact .inr ⟨.inr rfl, binary_eq_emit op hlhs hrhs htype (.inr hr)⟩
      | some r => exact .inl ⟨l, r, rfl, rfl, binary_eq_const op hlhs hrhs htype hl hr⟩

theorem compare_cases (predicate : Predicate) (hlhs : function.values[lhs.index]? = some left)
    (hrhs : function.values[rhs.index]? = some right) :
    (∃ l r, left.inst.constant? = some l ∧ right.inst.constant? = some r ∧
      compare block predicate lhs rhs function = flag (predicate.fold left.type l r) function) ∨
    (left.inst.constant? = none ∨ right.inst.constant? = none) ∧
      compare block predicate lhs rhs function =
        emit block (.compare predicate lhs rhs) .i1 function := by
  cases hl : left.inst.constant? with
  | none => exact .inr ⟨.inl rfl, compare_eq_emit predicate hlhs hrhs (.inl hl)⟩
  | some l =>
      cases hr : right.inst.constant? with
      | none => exact .inr ⟨.inr rfl, compare_eq_emit predicate hlhs hrhs (.inr hr)⟩
      | some r => exact .inl ⟨l, r, rfl, rfl, compare_eq_flag predicate hlhs hrhs hl hr⟩

theorem zext_cases (type : Ty) (hlhs : function.values[lhs.index]? = some left) :
    (∃ bits, left.inst.constant? = some bits ∧
      zext block lhs type function = const type bits function) ∨
    left.inst.constant? = none ∧
      zext block lhs type function = emit block (.zext lhs) type function := by
  cases hconstant : left.inst.constant? with
  | none => exact .inr ⟨rfl, zext_eq_emit type hlhs hconstant⟩
  | some bits => exact .inl ⟨bits, rfl, zext_eq_const type hlhs hconstant⟩

theorem trunc_cases (type : Ty) (hlhs : function.values[lhs.index]? = some left) :
    (∃ bits, left.inst.constant? = some bits ∧
      trunc block lhs type function = const type bits function) ∨
    left.inst.constant? = none ∧
      trunc block lhs type function = emit block (.trunc lhs) type function := by
  cases hconstant : left.inst.constant? with
  | none => exact .inr ⟨rfl, trunc_eq_emit type hlhs hconstant⟩
  | some bits => exact .inl ⟨bits, rfl, trunc_eq_const type hlhs hconstant⟩

theorem binary_operands {op : BinOp}
    (hrun : binary block op lhs rhs function = .ok (id, function')) :
    ∃ left right, function.values[lhs.index]? = some left ∧
      function.values[rhs.index]? = some right ∧ left.type = right.type := by
  obtain ⟨left, _, hleft, hrest⟩ := StateT.exists_of_bind hrun
  obtain ⟨rfl, hlhs⟩ := value_ok hleft
  obtain ⟨right, _, hright, hlast⟩ := StateT.exists_of_bind hrest
  obtain ⟨rfl, hrhs⟩ := value_ok hright
  refine ⟨left, right, hlhs, hrhs, Decidable.byContradiction fun hne => ?_⟩
  simp only [ne_eq, hne, not_false_eq_true, if_true] at hlast
  cases hlast

theorem binary_ok {op : BinOp}
    (hrun : binary block op lhs rhs function = .ok (id, function')) :
    function.Computes function' := by
  obtain ⟨left, right, hlhs, hrhs, htype⟩ := binary_operands hrun
  rcases binary_cases op hlhs hrhs htype with ⟨l, r, _, _, hfolds⟩ | ⟨_, hemits⟩
  · exact const_ok (hfolds.symm.trans hrun)
  · exact emit_computed (hemits.symm.trans hrun)
      ⟨(Array.getElem?_eq_some_iff.mp hlhs).1, (Array.getElem?_eq_some_iff.mp hrhs).1⟩

theorem compare_ok {predicate : Predicate}
    (hrun : compare block predicate lhs rhs function = .ok (id, function')) :
    function.Computes function' := by
  obtain ⟨left, _, hleft, hrest⟩ := StateT.exists_of_bind hrun
  obtain ⟨rfl, hlhs⟩ := value_ok hleft
  obtain ⟨right, _, hright, _⟩ := StateT.exists_of_bind hrest
  obtain ⟨rfl, hrhs⟩ := value_ok hright
  rcases compare_cases predicate hlhs hrhs with ⟨l, r, _, _, hfolds⟩ | ⟨_, hemits⟩
  · exact const_ok (hfolds.symm.trans hrun)
  · exact emit_computed (hemits.symm.trans hrun)
      ⟨rfl, (Array.getElem?_eq_some_iff.mp hlhs).1, (Array.getElem?_eq_some_iff.mp hrhs).1⟩

theorem zext_ok {type : Ty} (hrun : zext block lhs type function = .ok (id, function')) :
    function.Computes function' := by
  obtain ⟨left, _, hleft, _⟩ := StateT.exists_of_bind hrun
  obtain ⟨rfl, hlhs⟩ := value_ok hleft
  rcases zext_cases type hlhs with ⟨bits, _, hfolds⟩ | ⟨_, hemits⟩
  · exact const_ok (hfolds.symm.trans hrun)
  · exact emit_computed (hemits.symm.trans hrun) (Array.getElem?_eq_some_iff.mp hlhs).1

theorem trunc_ok {type : Ty} (hrun : trunc block lhs type function = .ok (id, function')) :
    function.Computes function' := by
  obtain ⟨left, _, hleft, _⟩ := StateT.exists_of_bind hrun
  obtain ⟨rfl, hlhs⟩ := value_ok hleft
  rcases trunc_cases type hlhs with ⟨bits, _, hfolds⟩ | ⟨_, hemits⟩
  · exact const_ok (hfolds.symm.trans hrun)
  · exact emit_computed (hemits.symm.trans hrun) (Array.getElem?_eq_some_iff.mp hlhs).1

end Operations

/-! Steps that keep what holds of all entries -/

section Computed

variable (hcomputed : ∀ position value, value.Computed position → allowed position value)

include hcomputed

theorem keeps_of_computed {step : Builder ValueId}
    (hstep : ∀ function id function', step function = .ok (id, function') →
      function.Computes function') :
    Keeps (Function.Each allowed) step := by
  intro function id function' hrun heach
  obtain ⟨value, hvalues, hvalue⟩ := hstep function id function' hrun
  exact heach.push (hcomputed _ _ hvalue) hvalues

theorem keeps_const (type : Ty) (bits : UInt16) :
    Keeps (Function.Each allowed) (const type bits) :=
  keeps_of_computed hcomputed fun _ _ _ => const_ok

theorem keeps_binary (block : BlockId) (op : BinOp) (lhs rhs : ValueId) :
    Keeps (Function.Each allowed) (binary block op lhs rhs) :=
  keeps_of_computed hcomputed fun _ _ _ => binary_ok

theorem keeps_compare (block : BlockId) (predicate : Predicate) (lhs rhs : ValueId) :
    Keeps (Function.Each allowed) (compare block predicate lhs rhs) :=
  keeps_of_computed hcomputed fun _ _ _ => compare_ok

theorem keeps_zext (block : BlockId) (operand : ValueId) (type : Ty) :
    Keeps (Function.Each allowed) (zext block operand type) :=
  keeps_of_computed hcomputed fun _ _ _ => zext_ok

theorem keeps_trunc (block : BlockId) (operand : ValueId) (type : Ty) :
    Keeps (Function.Each allowed) (trunc block operand type) :=
  keeps_of_computed hcomputed fun _ _ _ => trunc_ok

end Computed

theorem keeps_emit (block : BlockId) {inst : Inst} {type : Ty}
    (hallowed : ∀ position, allowed position ⟨inst, type, none⟩) :
    Keeps (Function.Each allowed) (emit block inst type) := by
  intro function id function' hrun heach
  exact heach.push (hallowed _) (emit_ok hrun)

end Builder

/-! Sequences of steps -/

/-- Integer operations, which may be folded. -/
inductive Operation
  | const (type : Ty) (bits : UInt16)
  | byte (value : UInt8)
  | word (value : UInt16)
  | flag (value : Bool)
  | binary (op : BinOp) (lhs rhs : ValueId)
  | compare (predicate : Predicate) (lhs rhs : ValueId)
  | zext (operand : ValueId) (type : Ty)
  | trunc (operand : ValueId) (type : Ty)

def Operation.build (block : BlockId) : Operation → Builder ValueId
  | .const type bits => Builder.const type bits
  | .byte value => Builder.byte value
  | .word value => Builder.word value
  | .flag value => Builder.flag value
  | .binary op lhs rhs => Builder.binary block op lhs rhs
  | .compare predicate lhs rhs => Builder.compare block predicate lhs rhs
  | .zext operand type => Builder.zext block operand type
  | .trunc operand type => Builder.trunc block operand type

theorem Operation.build_ok {block : BlockId} {operation : Operation} {id : ValueId}
    (hrun : operation.build block function = .ok (id, function')) :
    function.Computes function' := by
  cases operation with
  | const | byte | word | flag => exact Builder.const_ok hrun
  | binary => exact Builder.binary_ok hrun
  | compare => exact Builder.compare_ok hrun
  | zext => exact Builder.zext_ok hrun
  | trunc => exact Builder.trunc_ok hrun

/-- All that can be done to a function under construction. -/
inductive Step
  | addBlock (label : String)
  | addPhi (block : BlockId) (type : Ty) (name : String)
  | addIncoming (phi value : ValueId) (source : BlockId)
  | operate (block : BlockId) (operation : Operation)
  | load (block : BlockId) (global : String) (type : Ty) (index : ValueId)
  | store (block : BlockId) (global : String) (index value : ValueId)
  | call (block : BlockId) (callee : String) (result : Ty) (args : List ValueId)
  | makeRegs (block : BlockId) (fields : PerRegister ValueId)
  | extractReg (block : BlockId) (regs : ValueId) (field : Nat) (type : Ty)
  | terminate (block : BlockId) (terminator : Terminator)

def Step.run : Step → Builder Unit
  | .addBlock label => discard (Builder.addBlock label)
  | .addPhi block type name => discard (Builder.addPhi block type name)
  | .addIncoming phi value source => Builder.addIncoming phi value source
  | .operate block operation => discard (operation.build block)
  | .load block global type index => discard (Builder.load block global type index)
  | .store block global index value => Builder.store block global index value
  | .call block callee result args => discard (Builder.call block callee result args)
  | .makeRegs block fields => discard (Builder.makeRegs block fields)
  | .extractReg block regs field type => discard (Builder.extractReg block regs field type)
  | .terminate block terminator => Builder.terminate block terminator

/-- Instructions whose values are not computed by integer operations. -/
def Inst.isGiven : Inst → Bool
  | .param _ | .phi _ | .load .. | .store .. | .call .. | .makeRegs _ | .extractReg .. => true
  | .const _ | .binary .. | .compare .. | .zext _ | .trunc _ => false

/-- What one step does to the arena. -/
inductive Function.Evolves (function function' : Function) : Prop
  | same (hvalues : function'.values = function.values)
  | push {value : Value} (hvalues : function'.values = function.values.push value)
      (hvalue : value.inst.isGiven = true ∨ value.Computed function.values.size)
  | feed {position : Nat} {entry : Value} {incoming incoming' : List (ValueId × BlockId)}
      (hentry : function.values[position]? = some entry) (hinst : entry.inst = .phi incoming)
      (hvalues : function'.values =
        function.values.setIfInBounds position { entry with inst := .phi incoming' })

theorem exists_of_discard {α : Type} {step : Builder α}
    (hrun : (discard step : Builder Unit) function = .ok ((), function')) :
    ∃ result, step function = .ok (result, function') := by
  change (step function >>= fun reached => Except.ok ((), reached.2)) = _ at hrun
  cases hstep : step function with
  | error fault =>
      rw [hstep] at hrun
      cases hrun
  | ok reached =>
      rw [hstep] at hrun
      cases hrun
      exact ⟨reached.1, rfl⟩

theorem Step.evolves {step : Step} (hrun : step.run function = .ok ((), function')) :
    function.Evolves function' := by
  have hemit {block : BlockId} {inst : Inst} {type : Ty} (hgiven : inst.isGiven = true)
      (hrun : (discard (Builder.emit block inst type) : Builder Unit) function =
        .ok ((), function')) : function.Evolves function' := by
    obtain ⟨_, hstep⟩ := exists_of_discard hrun
    exact .push (Builder.emit_ok hstep) (.inl hgiven)
  cases step with
  | addBlock label =>
      cases hrun
      exact .same rfl
  | addPhi block type name =>
      obtain ⟨id, hstep⟩ := exists_of_discard hrun
      change (Builder.modifyBlock block _ _ >>= fun reached => _) = _ at hstep
      unfold Builder.modifyBlock at hstep
      split at hstep <;> cases hstep
      exact .push rfl (.inl rfl)
  | addIncoming phi value source =>
      change Builder.addIncoming phi value source function = _ at hrun
      unfold Builder.addIncoming at hrun
      split at hrun
      · cases hrun
      · next entry hentry =>
          split at hrun
          · next incoming hinst =>
              cases hrun
              exact .feed hentry hinst rfl
          · cases hrun
  | operate block operation =>
      obtain ⟨id, hstep⟩ := exists_of_discard hrun
      obtain ⟨value, hvalues, hvalue⟩ := Operation.build_ok hstep
      exact .push hvalues (.inr hvalue)
  | load | store | call | makeRegs | extractReg => exact hemit rfl hrun
  | terminate block terminator =>
      change Builder.terminate block terminator function = _ at hrun
      unfold Builder.terminate at hrun
      split at hrun
      · cases hrun
      · split at hrun <;> cases hrun
        exact .same rfl

namespace Function

/-- Integer operations refer to entries before them, and constants fit their
types. -/
def Ordered : Function → Prop :=
  Each fun position value => value.inst.isGiven = true ∨ value.Computed position

/-- All entries are still there. Only the incoming values of phis may differ. -/
def Extends (function later : Function) : Prop :=
  ∀ (position : Nat) (value : Value), function.values[position]? = some value →
    ∃ inst : Inst, later.values[position]? = some { value with inst } ∧
      (inst = value.inst ∨ value.inst.isPhi = true ∧ inst.isPhi = true)

theorem Extends.refl (function : Function) : function.Extends function :=
  fun _ value hvalue => ⟨value.inst, hvalue, .inl rfl⟩

theorem Extends.trans {first second third : Function} (hfirst : first.Extends second)
    (hsecond : second.Extends third) : first.Extends third := by
  intro position value hvalue
  obtain ⟨inst, hmiddle, hinst⟩ := hfirst position value hvalue
  obtain ⟨inst', hlast, hinst'⟩ := hsecond position _ hmiddle
  refine ⟨inst', hlast, ?_⟩
  rcases hinst with rfl | ⟨hphi, hphi'⟩
  · exact hinst'
  · rcases hinst' with rfl | ⟨_, hlastPhi⟩
    · exact .inr ⟨hphi, hphi'⟩
    · exact .inr ⟨hphi, hlastPhi⟩

theorem Evolves.ordered (hevolves : function.Evolves function') (hordered : function.Ordered) :
    function'.Ordered := by
  cases hevolves with
  | same hvalues => exact hordered.of_values hvalues
  | push hvalues hvalue => exact hordered.push hvalue hvalues
  | feed hentry hinst hvalues =>
      intro position value hvalue
      rw [hvalues, Array.getElem?_setIfInBounds] at hvalue
      split at hvalue
      · split at hvalue <;> cases hvalue
        exact .inl rfl
      · exact hordered position value hvalue

theorem Evolves.extends (hevolves : function.Evolves function') :
    function.Extends function' := by
  cases hevolves with
  | same hvalues =>
      intro position value hvalue
      exact ⟨value.inst, hvalues ▸ hvalue, .inl rfl⟩
  | push hvalues hvalue =>
      intro position value hvalue
      have hlt := (Array.getElem?_eq_some_iff.mp hvalue).1
      refine ⟨value.inst, ?_, .inl rfl⟩
      rw [hvalues, Array.getElem?_push_lt hlt, ← hvalue, Array.getElem?_eq_getElem hlt]
  | @feed target entry incoming incoming' hentry hinst hvalues =>
      intro position value hvalue
      have hlt := (Array.getElem?_eq_some_iff.mp hvalue).1
      rw [hvalues, Array.getElem?_setIfInBounds]
      by_cases heq : target = position
      · subst heq
        cases hentry.symm.trans hvalue
        exact ⟨.phi incoming', by rw [if_pos rfl, if_pos hlt], .inr ⟨by rw [hinst]; rfl, rfl⟩⟩
      · exact ⟨value.inst, by rw [if_neg heq, hvalue], .inl rfl⟩

end Function

theorem Step.keeps_ordered (step : Step) : Keeps Function.Ordered step.run :=
  fun _ _ _ hrun => (Step.evolves hrun).ordered

theorem Step.keeps_extends (original : Function) (step : Step) :
    Keeps original.Extends step.run :=
  fun _ _ _ hrun hextends => hextends.trans (Step.evolves hrun).extends

theorem Function.ordered_declare (name : String) (linkage : Linkage)
    (params : List (String × Ty)) (result : Ty) :
    (Function.declare name linkage params result).Ordered := by
  intro position value hvalue
  have hmem : value ∈ (Function.declare name linkage params result).values :=
    Array.mem_of_getElem? hvalue
  unfold Function.declare at hmem
  simp only [List.mem_toArray, List.mem_map] at hmem
  obtain ⟨_, _, rfl⟩ := hmem
  exact .inl rfl

variable {steps : List Step}

theorem Function.Ordered.run (hordered : function.Ordered)
    (hrun : steps.forM Step.run function = .ok ((), function')) : function'.Ordered :=
  Keeps.forM steps (fun step _ => step.keeps_ordered) _ _ _ hrun hordered

theorem extends_run (hrun : steps.forM Step.run function = .ok ((), function')) :
    function.Extends function' :=
  Keeps.forM steps (fun step _ => step.keeps_extends function) _ _ _ hrun (.refl function)

end Ssa

end Lift6502
