import Lift6502.Platform
import Lift6502.Proofs.Ssa.Construction
import Lift6502.Proofs.Routine.Draft

/-! Functions for the two platforms, side by side. Both are built by the same
steps. They differ in the instructions that access memory, and in the constant
that an access at a fixed address has for its index. -/

namespace Lift6502

open Ssa

/-! Counterparts -/

/-- The instructions and the type of one access on the flat platform and on
the other one. -/
inductive Platform.Accesses (index : ValueId) : Inst → Inst → Ty → Prop
  | read : Accesses index (.load ram index) (.call hostRead [index]) .i8
  | write (value : ValueId) :
      Accesses index (.store ram index value) (.call hostWrite [index, value]) .void

theorem Platform.Accesses.constant?_eq {index : ValueId} {inst inst' : Inst} {type : Ty}
    (haccess : Platform.Accesses index inst inst' type) :
    inst.constant? = none ∧ inst'.constant? = none := by
  cases haccess <;> exact ⟨rfl, rfl⟩

/-- No access on any platform. -/
def Ssa.Inst.isNeutral : Inst → Bool
  | .load .. | .store .. => false
  | .call callee _ => callee ≠ Platform.hostRead ∧ callee ≠ Platform.hostWrite
  | .param _ | .const _ | .phi _ | .binary .. | .compare .. | .zext _ | .trunc _ | .makeRegs _
  | .extractReg .. => true

/-- Entries of two arenas from a position on, for code that makes some
accesses. The entries are the same but for the accesses, and but for the
constant in front of an access at a fixed address. -/
inductive Counterparts : Nat → List (Option Address) → List Value → List Value → Prop
  | nil (position : Nat) : Counterparts position [] [] []
  | same {position : Nat} {accesses : List (Option Address)} {flat nes : List Value}
      {value : Value} (hneutral : value.inst.isNeutral = true)
      (hrest : Counterparts (position + 1) accesses flat nes) :
      Counterparts position accesses (value :: flat) (value :: nes)
  | computed {position : Nat} {accesses : List (Option Address)} {flat nes : List Value}
      {index : ValueId} {inst inst' : Inst} {type : Ty}
      (haccess : Platform.Accesses index inst inst' type)
      (hrest : Counterparts (position + 1) accesses flat nes) :
      Counterparts position (none :: accesses) (⟨inst, type, none⟩ :: flat)
        (⟨inst', type, none⟩ :: nes)
  | fixed {position : Nat} {accesses : List (Option Address)} {flat nes : List Value}
      {address : Address} {inst inst' : Inst} {type : Ty}
      (haccess : Platform.Accesses ⟨position⟩ inst inst' type)
      (hrest : Counterparts (position + 2) accesses flat nes) :
      Counterparts position (some address :: accesses)
        (⟨.const address, .i16, none⟩ :: ⟨inst, type, none⟩ :: flat)
        (⟨.const (Platform.canonical address), .i16, none⟩ :: ⟨inst', type, none⟩ :: nes)

namespace Counterparts

variable {position : Nat} {accesses accesses' : List (Option Address)}
  {flat flat' nes nes' : List Value}

theorem length_eq (hparts : Counterparts position accesses flat nes) :
    nes.length = flat.length := by
  induction hparts with
  | nil => rfl
  | same _ _ ih | computed _ _ ih | fixed _ _ ih => simp [ih]

theorem refl (hneutral : ∀ value ∈ flat, value.inst.isNeutral = true) :
    Counterparts position [] flat flat := by
  induction flat generalizing position with
  | nil => exact nil position
  | cons value rest ih =>
      obtain ⟨hvalue, hrest⟩ := List.forall_mem_cons.mp hneutral
      exact same hvalue (ih hrest)

theorem append (hfront : Counterparts position accesses flat nes)
    (hback : Counterparts (position + flat.length) accesses' flat' nes') :
    Counterparts position (accesses ++ accesses') (flat ++ flat') (nes ++ nes') := by
  induction hfront with
  | nil position => simpa using hback
  | same hneutral _ ih =>
      apply same hneutral
      apply ih
      rwa [Nat.add_assoc, Nat.add_comm 1]
  | computed haccess _ ih =>
      apply computed haccess
      apply ih
      rwa [Nat.add_assoc, Nat.add_comm 1]
  | fixed haccess _ ih =>
      apply fixed haccess
      apply ih
      rwa [Nat.add_assoc, Nat.add_comm 2]

theorem getElem?_phi_iff (hparts : Counterparts position accesses flat nes) {index : Nat}
    {value : Value} (hphi : value.inst.isPhi = true) :
    nes[index]? = some value ↔ flat[index]? = some value := by
  -- Accesses are no phis, so phis are the same entries on both sides.
  have haccess {index : ValueId} {inst inst' : Inst} {type : Ty}
      (haccess : Platform.Accesses index inst inst' type) :
      ⟨inst, type, none⟩ ≠ value ∧ ⟨inst', type, none⟩ ≠ value := by
    constructor <;> rintro rfl <;> cases haccess <;> cases hphi
  have hconst (bits : UInt16) : ⟨.const bits, .i16, none⟩ ≠ value := by
    rintro rfl
    cases hphi
  induction hparts generalizing index with
  | nil => rfl
  | same _ _ ih =>
      cases index with
      | zero => rfl
      | succ index => simpa using ih
  | computed hpair _ ih =>
      cases index with
      | zero => simp [haccess hpair]
      | succ index => simpa using ih
  | fixed hpair _ ih =>
      match index with
      | 0 => simp [hconst]
      | 1 => simp [haccess hpair]
      | index + 2 => simpa using ih

theorem set_phi (hparts : Counterparts position accesses flat nes) {index : Nat}
    {value value' : Value} (hvalue : flat[index]? = some value)
    (hphi : value.inst.isPhi = true) (hneutral : value'.inst.isNeutral = true) :
    Counterparts position accesses (flat.set index value') (nes.set index value') := by
  induction hparts generalizing index with
  | nil => exact nil _
  | same hsame hrest ih =>
      cases index with
      | zero => exact same hneutral hrest
      | succ index => exact same hsame (ih hvalue)
  | computed haccess hrest ih =>
      cases index with
      | zero =>
          cases hvalue
          cases haccess <;> cases hphi
      | succ index => exact computed haccess (ih hvalue)
  | fixed haccess hrest ih =>
      match index with
      | 0 =>
          cases hvalue
          cases hphi
      | 1 =>
          cases hvalue
          cases haccess <;> cases hphi
      | index + 2 => exact fixed haccess (ih hvalue)

end Counterparts

/-- Two functions for the same code, which makes some accesses: they have the
same signature and the same blocks, and their arenas are counterparts. -/
structure Ssa.Function.Matches (accesses : List (Option Address)) (flat nes : Function) : Prop
    where
  same : nes = { flat with values := nes.values }
  values : Counterparts 0 accesses flat.values.toList nes.values.toList

/-- An id that means the same to integer operations of both functions. -/
def Ssa.Function.Agree (flat nes : Function) (id : ValueId) : Prop :=
  ∃ value value', flat.values[id.index]? = some value ∧ nes.values[id.index]? = some value' ∧
    value'.type = value.type ∧ value'.inst.constant? = value.inst.constant?

namespace Ssa.Function

variable {accesses more : List (Option Address)} {flat flat' nes nes' : Function}

theorem Matches.size_eq (hmatches : flat.Matches accesses nes) :
    nes.values.size = flat.values.size := by
  simpa using hmatches.values.length_eq

theorem Matches.name_eq (hmatches : flat.Matches accesses nes) : nes.name = flat.name := by
  rw [hmatches.same]

theorem Matches.blocks_eq (hmatches : flat.Matches accesses nes) : nes.blocks = flat.blocks := by
  rw [hmatches.same]

theorem Matches.phi_iff (hmatches : flat.Matches accesses nes) {id : ValueId} {value : Value}
    (hphi : value.inst.isPhi = true) :
    nes.values[id.index]? = some value ↔ flat.values[id.index]? = some value := by
  have hphis : nes.values.toList[id.index]? = some value ↔
      flat.values.toList[id.index]? = some value := hmatches.values.getElem?_phi_iff hphi
  simpa using hphis

theorem Extends.constant {function later : Function} (hextends : function.Extends later)
    {position : Nat} {value : Value} (hvalue : function.values[position]? = some value) :
    ∃ value', later.values[position]? = some value' ∧ value'.type = value.type ∧
      value'.inst.constant? = value.inst.constant? := by
  obtain ⟨inst, hlater, hinst⟩ := hextends position value hvalue
  refine ⟨_, hlater, rfl, ?_⟩
  rcases hinst with rfl | ⟨hphi, hphi'⟩
  · rfl
  · cases hbefore : value.inst <;> cases inst <;> simp_all [Inst.isPhi, Inst.constant?]

theorem Agree.extends {id : ValueId} (hagree : flat.Agree nes id) (hflat : flat.Extends flat')
    (hnes : nes.Extends nes') : flat'.Agree nes' id := by
  obtain ⟨value, value', hvalue, hvalue', htype, hconstant⟩ := hagree
  obtain ⟨later, hlater, hlaterType, hlaterConstant⟩ := hflat.constant hvalue
  obtain ⟨later', hlater', hlaterType', hlaterConstant'⟩ := hnes.constant hvalue'
  refine ⟨later, later', hlater, hlater', ?_, ?_⟩
  · rw [hlaterType, hlaterType', htype]
  · rw [hlaterConstant, hlaterConstant', hconstant]

theorem extends_append (function : Function) (block : BlockId) (code : List Value) :
    function.Extends (function.append block code) := by
  intro position value hvalue
  refine ⟨value.inst, ?_, .inl rfl⟩
  rwa [append_value_before _ _ _ (Array.getElem?_eq_some_iff.mp hvalue).1]

theorem placed_eq {position : Nat} {code code' : List Value}
    (hparts : Counterparts position accesses code code') :
    placed position code' = placed position code := by
  induction hparts with
  | nil => rfl
  | same _ _ ih => simp [placed, ih]
  | computed haccess _ ih => simp [placed, haccess.constant?_eq, ih]
  | fixed haccess _ ih =>
      obtain ⟨hconstant, hconstant'⟩ := haccess.constant?_eq
      have hconst (bits : UInt16) : (Inst.const bits).constant?.isSome = true := rfl
      simp [placed, hconst, hconstant, hconstant', ih]

theorem Matches.append (hmatches : flat.Matches accesses nes) (block : BlockId)
    {code code' : List Value} (hparts : Counterparts flat.values.size more code code') :
    (flat.append block code).Matches (accesses ++ more) (nes.append block code') where
  same := by
    rw [hmatches.same]
    simp [Function.append, hmatches.size_eq, placed_eq hparts]
  values := by
    have happend := hmatches.values.append (by simpa using hparts)
    simpa [Function.append] using happend

theorem agree_append {block : BlockId} {code code' : List Value}
    (hmatches : flat.Matches accesses nes) (position : Nat) {value value' : Value}
    (hvalue : code[position]? = some value) (hvalue' : code'[position]? = some value')
    (htype : value'.type = value.type)
    (hconstant : value'.inst.constant? = value.inst.constant?) :
    (flat.append block code).Agree (nes.append block code') ⟨flat.values.size + position⟩ := by
  refine ⟨value, value', ?_, ?_, htype, hconstant⟩
  · rw [append_value_within, hvalue]
  · rw [← hmatches.size_eq, append_value_within, hvalue']

end Ssa.Function

/-! Steps of construction -/

namespace Ssa.Builder

variable {α : Type} {given : List ValueId} {accesses more : List (Option Address)}
  {known : α → List ValueId} {block : BlockId}

/-- Two steps stay together: from functions that match, either both fail alike,
or both give the same result and functions that match with some more accesses.
They may use the ids that are given to mean the same to both, and the ids that
are known from the result mean the same to both afterwards. -/
def InStep (given : List ValueId) (flat nes : Builder α) (more : List (Option Address))
    (known : α → List ValueId) : Prop :=
  ∀ (accesses : List (Option Address)) (function other : Function),
    function.Matches accesses other → (∀ id ∈ given, function.Agree other id) →
      (∃ fault, flat function = .error fault ∧ nes other = .error fault) ∨
      ∃ result function' other', flat function = .ok (result, function') ∧
        nes other = .ok (result, other') ∧ function'.Matches (accesses ++ more) other' ∧
        function.Extends function' ∧ other.Extends other' ∧
        ∀ id ∈ known result, function'.Agree other' id

theorem inStep_throw (fault : Fault) :
    InStep given (throw fault : Builder α) (throw fault) more known :=
  fun _ _ _ _ _ => .inl ⟨fault, rfl, rfl⟩

theorem inStep_const (type : Ty) (bits : UInt16) :
    InStep given (const type bits) (const type bits) [] fun id => [id] := by
  intro accesses flat nes hmatches _
  have hparts : Counterparts flat.values.size [] [⟨.const (bits &&& type.mask), type, none⟩]
      [⟨.const (bits &&& type.mask), type, none⟩] := .same rfl (.nil _)
  refine .inr ⟨_, _, _, const_eq type bits, ?_, hmatches.append ⟨0⟩ hparts,
    Function.extends_append _ _ _, Function.extends_append _ _ _, ?_⟩
  · rw [const_eq type bits, hmatches.size_eq]
  · intro id hid
    cases List.mem_singleton.mp hid
    exact Function.agree_append hmatches 0 rfl rfl rfl rfl

theorem emit_eq_error {function : Function} (inst : Inst) (type : Ty)
    (hblock : ¬block.index < function.blocks.size) :
    emit block inst type function =
      .error (.outOfBounds function.blocks.size block.index) := by
  show (modifyBlock block _ _ >>= fun reached => _) = _
  unfold modifyBlock
  rw [if_neg hblock]
  rfl

theorem inStep_emit {inst inst' : Inst} {type : Ty} (hconstant : inst.constant? = none)
    (hconstant' : inst'.constant? = none)
    (hparts : ∀ position,
      Counterparts position more [⟨inst, type, none⟩] [⟨inst', type, none⟩]) :
    InStep given (emit block inst type) (emit block inst' type) more fun id => [id] := by
  intro accesses flat nes hmatches _
  by_cases hblock : block.index < flat.blocks.size
  · have hother : block.index < nes.blocks.size := by rwa [hmatches.blocks_eq]
    refine .inr ⟨_, _, _, emit_eq type hblock hconstant, ?_, hmatches.append block (hparts _),
      Function.extends_append _ _ _, Function.extends_append _ _ _, ?_⟩
    · rw [emit_eq type hother hconstant', hmatches.size_eq]
    · intro id hid
      cases List.mem_singleton.mp hid
      exact Function.agree_append hmatches 0 rfl rfl rfl (hconstant'.trans hconstant.symm)
  · have hother : ¬block.index < nes.blocks.size := by rwa [hmatches.blocks_eq]
    refine .inl ⟨_, emit_eq_error inst type hblock, ?_⟩
    rw [emit_eq_error inst' type hother, hmatches.blocks_eq]

theorem inStep_emit_same {inst : Inst} {type : Ty} (hconstant : inst.constant? = none)
    (hneutral : inst.isNeutral = true) :
    InStep given (emit block inst type) (emit block inst type) [] fun id => [id] :=
  inStep_emit hconstant hconstant fun _ => .same hneutral (.nil _)

theorem InStep.of_eq {flat nes : Builder α}
    (hstep : ∀ (function other : Function), (∀ id ∈ given, function.Agree other id) →
      ∃ step, flat function = step function ∧ nes other = step other ∧
        InStep given step step more known) :
    InStep given flat nes more known := by
  intro accesses function other hmatches hgiven
  obtain ⟨step, hflat, hnes, hboth⟩ := hstep function other hgiven
  rw [hflat, hnes]
  exact hboth accesses function other hmatches hgiven

theorem binary_eq_throw {function : Function} {lhs rhs : ValueId} {left right : Value}
    (op : BinOp) (hlhs : function.values[lhs.index]? = some left)
    (hrhs : function.values[rhs.index]? = some right) (htype : left.type ≠ right.type) :
    binary block op lhs rhs function = (throw (.typeMismatch op) : Builder ValueId) function := by
  unfold binary
  rw [StateT.bind_of_ok (value_eq hlhs), StateT.bind_of_ok (value_eq hrhs)]
  simp only [htype, ne_eq, not_false_eq_true, if_true]
  rfl

theorem inStep_binary (op : BinOp) {lhs rhs : ValueId} (hlhs : lhs ∈ given) (hrhs : rhs ∈ given) :
    InStep given (binary block op lhs rhs) (binary block op lhs rhs) [] fun id => [id] := by
  apply InStep.of_eq
  intro function other hgiven
  obtain ⟨left, left', hleft, hleft', hlefts, hleftConstant⟩ := hgiven lhs hlhs
  obtain ⟨right, right', hright, hright', hrights, hrightConstant⟩ := hgiven rhs hrhs
  by_cases htype : left.type = right.type
  · have htype' : left'.type = right'.type := by rw [hlefts, hrights, htype]
    rcases binary_cases op hleft hright htype with ⟨l, r, hl, hr, hfolds⟩ | ⟨hnone, hemits⟩
    · refine ⟨_, hfolds, ?_, inStep_const _ _⟩
      rw [← hlefts]
      exact binary_eq_const op hleft' hright' htype' (hleftConstant.trans hl)
        (hrightConstant.trans hr)
    · refine ⟨_, hemits, ?_, inStep_emit_same rfl rfl⟩
      rw [← hlefts]
      apply binary_eq_emit op hleft' hright' htype'
      rwa [hleftConstant, hrightConstant]
  · have htype' : left'.type ≠ right'.type := by rwa [hlefts, hrights]
    exact ⟨_, binary_eq_throw op hleft hright htype, binary_eq_throw op hleft' hright' htype',
      inStep_throw _⟩

theorem inStep_compare (predicate : Predicate) {lhs rhs : ValueId} (hlhs : lhs ∈ given)
    (hrhs : rhs ∈ given) :
    InStep given (compare block predicate lhs rhs) (compare block predicate lhs rhs) []
      fun id => [id] := by
  apply InStep.of_eq
  intro function other hgiven
  obtain ⟨left, left', hleft, hleft', hlefts, hleftConstant⟩ := hgiven lhs hlhs
  obtain ⟨right, right', hright, hright', hrights, hrightConstant⟩ := hgiven rhs hrhs
  rcases compare_cases predicate hleft hright with ⟨l, r, hl, hr, hfolds⟩ | ⟨hnone, hemits⟩
  · refine ⟨_, hfolds, ?_, inStep_const _ _⟩
    rw [← hlefts]
    exact compare_eq_flag predicate hleft' hright' (hleftConstant.trans hl)
      (hrightConstant.trans hr)
  · refine ⟨_, hemits, ?_, inStep_emit_same rfl rfl⟩
    apply compare_eq_emit predicate hleft' hright'
    rwa [hleftConstant, hrightConstant]

theorem inStep_zext (type : Ty) {operand : ValueId} (hoperand : operand ∈ given) :
    InStep given (zext block operand type) (zext block operand type) [] fun id => [id] := by
  apply InStep.of_eq
  intro function other hgiven
  obtain ⟨value, value', hvalue, hvalue', _, hconstant⟩ := hgiven operand hoperand
  rcases zext_cases type hvalue with ⟨bits, hbits, hfolds⟩ | ⟨hnone, hemits⟩
  · exact ⟨_, hfolds, zext_eq_const type hvalue' (hconstant.trans hbits), inStep_const _ _⟩
  · exact ⟨_, hemits, zext_eq_emit type hvalue' (hconstant.trans hnone),
      inStep_emit_same rfl rfl⟩

theorem inStep_trunc (type : Ty) {operand : ValueId} (hoperand : operand ∈ given) :
    InStep given (trunc block operand type) (trunc block operand type) [] fun id => [id] := by
  apply InStep.of_eq
  intro function other hgiven
  obtain ⟨value, value', hvalue, hvalue', _, hconstant⟩ := hgiven operand hoperand
  rcases trunc_cases type hvalue with ⟨bits, hbits, hfolds⟩ | ⟨hnone, hemits⟩
  · exact ⟨_, hfolds, trunc_eq_const type hvalue' (hconstant.trans hbits), inStep_const _ _⟩
  · exact ⟨_, hemits, trunc_eq_emit type hvalue' (hconstant.trans hnone),
      inStep_emit_same rfl rfl⟩

theorem inStep_terminate (terminator : Terminator) :
    InStep given (terminate block terminator) (terminate block terminator) [] fun _ => [] := by
  intro accesses flat nes hmatches _
  have hblocks := hmatches.blocks_eq
  unfold terminate
  rw [hblocks]
  cases hblock : flat.blocks[block.index]? with
  | none => exact .inl ⟨_, rfl, rfl⟩
  | some found =>
      simp only
      split
      · exact .inl ⟨_, rfl, rfl⟩
      · refine .inr ⟨_, _, _, rfl, rfl, ⟨?_, ?_⟩, .refl _, .refl _, ?_⟩
        · rw [hmatches.same]
        · simpa using hmatches.values
        · intro id hid
          cases hid

/-! Accesses -/

theorem InStep.discard {flat nes : Builder α} (hstep : InStep given flat nes more known) :
    InStep given (do let _ ← flat) (do let _ ← nes) more fun _ => [] := by
  intro accesses function other hmatches hgiven
  rcases hstep accesses function other hmatches hgiven with ⟨fault, hflat, hnes⟩ |
    ⟨result, function', other', hflat, hnes, hmatches', hextends, hextends', _⟩
  · refine .inl ⟨fault, ?_, ?_⟩
    · show (flat function >>= _) = _
      rw [hflat]
      rfl
    · show (nes other >>= _) = _
      rw [hnes]
      rfl
  · refine .inr ⟨(), function', other', StateT.bind_of_ok hflat, StateT.bind_of_ok hnes,
      hmatches', hextends, hextends', ?_⟩
    intro id hid
    cases hid

theorem inStep_loadComputed (index : ValueId) :
    InStep given (Platform.flat.loadComputed block index) (Platform.nes.loadComputed block index)
      [none] fun id => [id] :=
  inStep_emit rfl rfl fun _ => .computed .read (.nil _)

theorem inStep_storeComputed (index value : ValueId) :
    InStep given (Platform.flat.storeComputed block index value)
      (Platform.nes.storeComputed block index value) [none] fun _ => [] :=
  .discard (inStep_emit rfl rfl fun _ => .computed (.write value) (.nil _))

theorem access_eq {function : Function} {inst : ValueId → Inst} {type : Ty} (address : Address)
    (hblock : block.index < function.blocks.size)
    (hconstant : ∀ index, (inst index).constant? = none) :
    (word address >>= fun index => emit block (inst index) type) function =
      .ok (⟨function.values.size + 1⟩, function.append block
        [⟨.const address, .i16, none⟩, ⟨inst ⟨function.values.size⟩, type, none⟩]) := by
  have hmask : address &&& Ty.i16.mask = address := UInt16.and_neg_one
  have hword : word address function = .ok (⟨function.values.size⟩,
      function.append block [⟨.const address, .i16, none⟩]) := by
    have hconst : const .i16 address function = .ok (⟨function.values.size⟩,
        function.append block [⟨.const (address &&& Ty.i16.mask), .i16, none⟩]) :=
      const_eq .i16 address
    rwa [hmask] at hconst
  rw [StateT.bind_of_ok hword, emit_eq type (by simpa using hblock) (hconstant _)]
  simp

theorem access_eq_error {function : Function} {inst : ValueId → Inst} {type : Ty}
    (address : Address) (hblock : ¬block.index < function.blocks.size) :
    (word address >>= fun index => emit block (inst index) type) function =
      .error (.outOfBounds function.blocks.size block.index) := by
  have hword : word address function = .ok (⟨function.values.size⟩, { function with
      values := function.values.push ⟨.const (address &&& Ty.i16.mask), .i16, none⟩ }) := rfl
  rw [StateT.bind_of_ok hword]
  exact emit_eq_error _ _ hblock

theorem inStep_access {inst inst' : ValueId → Inst} {type : Ty} (address : Address)
    (haccess : ∀ index, Platform.Accesses index (inst index) (inst' index) type) :
    InStep given (word address >>= fun index => emit block (inst index) type)
      (word (Platform.canonical address) >>= fun index => emit block (inst' index) type)
      [some address] fun id => [id] := by
  have hconstants (index : ValueId) := (haccess index).constant?_eq
  intro accesses flat nes hmatches _
  by_cases hblock : block.index < flat.blocks.size
  · have hother : block.index < nes.blocks.size := by rwa [hmatches.blocks_eq]
    refine .inr ⟨_, _, _, access_eq address hblock fun index => (hconstants index).1, ?_,
      hmatches.append block (.fixed (haccess _) (.nil _)), Function.extends_append _ _ _,
      Function.extends_append _ _ _, ?_⟩
    · rw [access_eq _ hother fun index => (hconstants index).2, hmatches.size_eq]
    · intro id hid
      cases List.mem_singleton.mp hid
      refine Function.agree_append hmatches 1 rfl rfl rfl ?_
      rw [(hconstants _).1, (hconstants _).2]
  · have hother : ¬block.index < nes.blocks.size := by rwa [hmatches.blocks_eq]
    refine .inl ⟨_, access_eq_error address hblock, ?_⟩
    rw [access_eq_error _ hother, hmatches.blocks_eq]

theorem inStep_load (address : Address) :
    InStep given (Platform.flat.load block address) (Platform.nes.load block address)
      [some address] fun id => [id] :=
  inStep_access address fun _ => .read

theorem inStep_store (address : Address) (value : ValueId) :
    InStep given (Platform.flat.store block address value) (Platform.nes.store block address value)
      [some address] fun _ => [] := by
  have hstep : InStep given
      (do let _ ← word address >>= fun index => emit block (.store Platform.ram index value) .void)
      (do let _ ← word (Platform.canonical address) >>= fun index =>
        emit block (.call Platform.hostWrite [index, value]) .void)
      [some address] fun _ => [] := .discard (inStep_access address fun _ => .write value)
  rw [bind_assoc, bind_assoc] at hstep
  exact hstep

end Ssa.Builder

/-! Incoming values -/

def Ssa.Function.IsPhi (function : Function) (id : ValueId) : Prop :=
  ∃ value, function.values[id.index]? = some value ∧ value.inst.isPhi = true

theorem Ssa.Function.IsPhi.extends {function later : Function} {id : ValueId}
    (hphi : function.IsPhi id) (hextends : function.Extends later) : later.IsPhi id := by
  obtain ⟨value, hvalue, hisPhi⟩ := hphi
  obtain ⟨inst, hlater, hinst⟩ := hextends id.index value hvalue
  refine ⟨_, hlater, ?_⟩
  rcases hinst with rfl | ⟨_, hinst⟩
  · exact hisPhi
  · exact hinst

section Incoming

variable {accesses : List (Option Address)} {flat nes : Function}

theorem Ssa.Function.Matches.addIncoming (hmatches : flat.Matches accesses nes) {phi : ValueId}
    (hphi : flat.IsPhi phi) (value : ValueId) (source : BlockId) :
    ∃ flat' nes', Builder.addIncoming phi value source flat = .ok ((), flat') ∧
      Builder.addIncoming phi value source nes = .ok ((), nes') ∧ flat'.Matches accesses nes' ∧
      flat.Extends flat' ∧ nes.Extends nes' := by
  obtain ⟨⟨inst, type, name⟩, hvalue, hisPhi⟩ := hphi
  cases inst with
  | phi incoming =>
      let fed : Value := ⟨.phi (incoming ++ [(value, source)]), type, name⟩
      have hfeeds {function : Function}
          (hentry : function.values[phi.index]? = some ⟨.phi incoming, type, name⟩) :
          (Step.addIncoming phi value source).run function = .ok ((),
            { function with values := function.values.setIfInBounds phi.index fed }) :=
        Builder.addIncoming_eq hentry
      have hother := (hmatches.phi_iff hisPhi).mpr hvalue
      have hset : Counterparts 0 accesses (flat.values.toList.set phi.index fed)
          (nes.values.toList.set phi.index fed) :=
        hmatches.values.set_phi (by simpa using hvalue) hisPhi rfl
      refine ⟨_, _, hfeeds hvalue, hfeeds hother, ⟨?_, ?_⟩, (Step.evolves (hfeeds hvalue)).extends,
        (Step.evolves (hfeeds hother)).extends⟩
      · rw [hmatches.same]
      · simpa using hset
  | _ => cases hisPhi

theorem Ssa.Function.Matches.receive (hmatches : flat.Matches accesses nes) {file : RegisterFile}
    (hphis : ∀ register, flat.IsPhi (file.phi register)) (values : PerRegister ValueId)
    (source : BlockId) :
    ∃ flat' nes', file.receive values source flat = .ok ((), flat') ∧
      file.receive values source nes = .ok ((), nes') ∧ flat'.Matches accesses nes' ∧
      flat.Extends flat' ∧ nes.Extends nes' := by
  unfold RegisterFile.receive
  generalize Register.all = taken
  induction taken generalizing flat nes with
  | nil => exact ⟨flat, nes, rfl, rfl, hmatches, .refl flat, .refl nes⟩
  | cons register rest ih =>
      obtain ⟨flat₁, nes₁, hflat, hnes, hmatches₁, hextends, hextends'⟩ :=
        hmatches.addIncoming (hphis register) (values.get register) source
      obtain ⟨flat₂, nes₂, hflats, hness, hmatches₂, hextends₂, hextends₂'⟩ :=
        ih hmatches₁ fun other => (hphis other).extends hextends
      exact ⟨flat₂, nes₂, (StateT.bind_of_ok hflat).trans hflats,
        (StateT.bind_of_ok hnes).trans hness, hmatches₂, hextends.trans hextends₂,
        hextends'.trans hextends₂'⟩

end Incoming

end Lift6502
