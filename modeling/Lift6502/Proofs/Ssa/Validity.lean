import Lift6502.Proofs.Ssa.Edges
import Lift6502.Proofs.Ssa.Typing

/-! Valid static single assignment form, in which every use of a value is
dominated by its definition. -/

namespace Lift6502.Ssa.Function

/-! Places of values -/

def PlacedAt (function : Function) (block : BlockId) (position : Nat) (id : ValueId) : Prop :=
  ∃ found, function.blocks[block.index]? = some found ∧ found.insts[position]? = some id

def IsConst (function : Function) (id : ValueId) : Prop :=
  ∃ value bits, function.values[id.index]? = some value ∧ value.inst = .const bits

def IsParam (function : Function) (id : ValueId) : Prop :=
  ∃ value index, function.values[id.index]? = some value ∧ value.inst = .param index

/-- Values and blocks that a terminator refers to are there. -/
def InRange (function : Function) (terminator : Terminator) : Prop :=
  (∀ id ∈ terminator.operands, id.index < function.values.size) ∧
    ∀ target ∈ terminator.successors, target.index < function.blocks.size

/-- The phis that a block starts with, one for each register, and no
further ones. -/
structure HasPhis (function : Function) (block : Block) (name : Register → String) : Prop where
  leading : ∀ register : Register, ∃ id incoming, block.insts[register.index]? = some id ∧
    function.values[id.index]? = some ⟨.phi incoming, register.type, some (name register)⟩
  others : ∀ (position : Nat) (id : ValueId) (value : Value), Register.all.length ≤ position →
    block.insts[position]? = some id → function.values[id.index]? = some value →
      value.inst.isPhi = false

/-- Static single assignment form. The first block has no phis; each other
block starts with one for every register. -/
structure Valid (function : Function) : Prop where
  params_lt : ∀ id ∈ function.params, id.index < function.values.size
  operands_lt : ∀ value ∈ function.values, ∀ id ∈ value.inst.operands,
    id.index < function.values.size
  sources_lt : ∀ value ∈ function.values, ∀ entry ∈ value.inst.incoming,
    entry.2.index < function.blocks.size
  insts_lt : ∀ block ∈ function.blocks, ∀ id ∈ block.insts, id.index < function.values.size
  terminators : ∀ block ∈ function.blocks, ∃ terminator, block.terminator = some terminator ∧
    function.InRange terminator
  placed_once : ∀ (id : ValueId) (value : Value), function.values[id.index]? = some value →
    ¬function.IsConst id → ¬function.IsParam id →
      ∃! place : BlockId × Nat, function.PlacedAt place.1 place.2 id
  start_phis : ∀ position id value, function.PlacedAt ⟨0⟩ position id →
    function.values[id.index]? = some value → value.inst.isPhi = false
  phis : ∀ (index : Nat) (block : Block), 0 < index → function.blocks[index]? = some block →
    ∃ leader : Address, block.label = s!"l_{Hex.word leader}" ∧
      function.HasPhis block fun register => RegisterFile.phiName register leader
  operands_earlier : ∀ block position id value, function.PlacedAt block position id →
    function.values[id.index]? = some value → value.inst.isPhi = false →
      ∀ operand ∈ value.inst.operands, function.IsConst operand ∨
        ∃ earlier, earlier < position ∧ function.PlacedAt block earlier operand
  terminator_earlier : ∀ (block : BlockId) (found : Block) (terminator : Terminator),
    function.blocks[block.index]? = some found → found.terminator = some terminator →
      ∀ operand ∈ terminator.operands, function.IsConst operand ∨
        ∃ position, function.PlacedAt block position operand
  entries : ∀ (id : ValueId) (value : Value), function.values[id.index]? = some value →
    ∀ entry ∈ value.inst.incoming, function.IsConst entry.1 ∨
      entry.2 = ⟨0⟩ ∧ function.IsParam entry.1 ∨
      ∃ position, function.PlacedAt entry.2 position entry.1
  entries_agree : ∀ (id : ValueId) (value : Value), function.values[id.index]? = some value →
    ∀ first ∈ value.inst.incoming, ∀ second ∈ value.inst.incoming,
      first.2 = second.2 → first.1 = second.1
  entries_perm : ∀ (index position : Nat) (id : ValueId) (value : Value),
    function.PlacedAt ⟨index⟩ position id → function.values[id.index]? = some value →
      value.inst.isPhi = true →
        (value.inst.incoming.map Prod.snd).Perm (sources function.edges index)

/-! Dominance -/

/-- Control can come to a block after the blocks of a trail, from the first
block on. -/
inductive Walk (function : Function) : List BlockId → BlockId → Prop
  | start : Walk function [] ⟨0⟩
  | step {trail : List BlockId} {block target : BlockId} (hwalk : Walk function trail block)
      (hedge : (block, target) ∈ function.edges) : Walk function (trail ++ [block]) target

def computedOn (function : Function) (trail : List BlockId) : List ValueId :=
  trail.flatMap fun block =>
    (function.blocks[block.index]?.map fun found => found.insts.toList).getD []

/-- Whatever is used has been computed on every way that control can take to
its use. A phi uses the value that it takes on an edge at the end of the
edge's source. -/
structure Dominated (function : Function) : Prop where
  insts : ∀ trail block found, function.Walk trail block →
    function.blocks[block.index]? = some found → ∀ (position : Nat) id value,
      found.insts[position]? = some id → function.values[id.index]? = some value →
      value.inst.isPhi = false → ∀ operand ∈ value.inst.operands,
        function.IsConst operand ∨
          operand ∈ function.computedOn trail ++ found.insts.toList.take position
  terminators : ∀ trail block found terminator, function.Walk trail block →
    function.blocks[block.index]? = some found → found.terminator = some terminator →
      ∀ operand ∈ terminator.operands, function.IsConst operand ∨
        operand ∈ function.computedOn trail ++ found.insts.toList
  phis : ∀ trail source target, function.Walk trail source → (source, target) ∈ function.edges →
    ∀ (position : Nat) id value, function.PlacedAt target position id →
      function.values[id.index]? = some value → value.inst.isPhi = true →
        ∃ entry ∈ value.inst.incoming, entry.2 = source ∧
          (function.IsConst entry.1 ∨ function.IsParam entry.1 ∨
            entry.1 ∈ function.computedOn (trail ++ [source]))

theorem mem_computedOn_concat {function : Function} {block : BlockId} {position : Nat}
    {id : ValueId} (trail : List BlockId) (hplaced : function.PlacedAt block position id) :
    id ∈ function.computedOn (trail ++ [block]) := by
  obtain ⟨found, hfound, hid⟩ := hplaced
  have hmem : id ∈ found.insts.toList :=
    Array.mem_toList_iff.mpr (Array.mem_of_getElem? hid)
  unfold computedOn
  rw [List.flatMap_append, List.mem_append]
  exact .inr (by simpa [hfound] using hmem)

/-- Uses within a block come after the definition, and phis take values that
their sources define. -/
theorem Valid.dominated {function : Function} (hvalid : function.Valid) :
    function.Dominated where
  insts trail block found hwalk hfound position id value hid hvalue hphi operand hoperand := by
    refine (hvalid.operands_earlier block position id value ⟨found, hfound, hid⟩ hvalue hphi
      operand hoperand).imp_right ?_
    rintro ⟨earlier, hearlier, found', hfound', hoperand'⟩
    cases hfound.symm.trans hfound'
    refine List.mem_append_right _ (List.mem_of_getElem? (i := earlier) ?_)
    rw [List.getElem?_take_of_lt hearlier, Array.getElem?_toList]
    exact hoperand'
  terminators trail block found terminator hwalk hfound hterminator operand hoperand := by
    refine (hvalid.terminator_earlier block found terminator hfound hterminator operand
      hoperand).imp_right ?_
    rintro ⟨position, found', hfound', hoperand'⟩
    cases hfound.symm.trans hfound'
    exact List.mem_append_right _ (Array.mem_toList_iff.mpr (Array.mem_of_getElem? hoperand'))
  phis trail source target hwalk hedge position id value hplaced hvalue hphi := by
    have hsource : source ∈ value.inst.incoming.map Prod.snd := by
      rw [(hvalid.entries_perm target.index position id value hplaced hvalue hphi).mem_iff]
      exact List.mem_map_of_mem (List.mem_filter.mpr ⟨hedge, by simp⟩)
    obtain ⟨entry, hentry, rfl⟩ := List.mem_map.mp hsource
    refine ⟨entry, hentry, rfl, ?_⟩
    rcases hvalid.entries id value hvalue entry hentry with hconst | ⟨_, hparam⟩ | ⟨place, hplace⟩
    · exact .inl hconst
    · exact .inr (.inl hparam)
    · exact .inr (.inr (mem_computedOn_concat trail hplace))

end Lift6502.Ssa.Function
