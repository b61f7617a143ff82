import Lift6502.Proofs.General
import Lift6502.Proofs.Routine.Outcome
import Lift6502.Proofs.Ssa.Validity

/-! Functions lifted from routines are in valid static single assignment
form. -/

namespace Lift6502

namespace Draft

open Ssa

variable {decoder : Decoder} {platform : Platform} {entry : Address} {linkage : Linkage}
  {leaders : List Address} {draft : Draft}

/-! Where the code of a block stands in the arena -/

/-- Where the code of a finished block starts. -/
def offset (draft : Draft) (index : Nat) : Nat :=
  7 * (draft.leaders.length + 1) + ((draft.pieces.take index).flatMap Piece.code).length

theorem offset_mono (draft : Draft) {first second : Nat} (hle : first ≤ second) :
    draft.offset first ≤ draft.offset second := by
  unfold offset
  have hsublist : ((draft.pieces.take first).flatMap Piece.code).Sublist
      ((draft.pieces.take second).flatMap Piece.code) := by
    rw [← List.take_append_drop first (draft.pieces.take second), List.take_take,
      Nat.min_eq_left hle, List.flatMap_append]
    exact List.sublist_append_left _ _
  have hlength := hsublist.length_le
  omega

theorem offset_succ {index : Nat} {piece : Piece} (hpiece : draft.pieces[index]? = some piece) :
    draft.offset (index + 1) = draft.offset index + piece.code.length := by
  unfold offset
  rw [List.take_add_one, hpiece, List.flatMap_append, List.length_append, Option.toList_some,
    List.flatMap_singleton, Nat.add_assoc]

theorem bounds_of_mem_leading {index : Nat} {id : ValueId} (hid : id ∈ leading index) :
    7 * index ≤ id.index ∧ id.index < 7 * (index + 1) := by
  obtain ⟨position, register, rfl, rfl⟩ := mem_leading_iff.mp hid
  have hindex := register.index_lt
  rw [get_seeds]
  refine ⟨Nat.le_add_right _ _, ?_⟩
  show 7 * (position + 1) + register.index < 7 * (position + 1 + 1)
  omega

theorem pairwise_leading (index : Nat) :
    (leading index).Pairwise fun first second => first.index < second.index := by
  cases index with
  | zero => exact .nil
  | succ position =>
      show (seeds ⟨position + 1⟩).toList.Pairwise _
      have hregisters : Register.all.Pairwise fun first second => first.index < second.index := by
        decide
      rw [PerRegister.toList_eq_map_all, List.pairwise_map]
      refine hregisters.imp fun hlt => ?_
      rw [get_seeds, get_seeds]
      exact Nat.add_lt_add_left hlt _

theorem lt_of_pairwise {ids : List ValueId}
    (hpairwise : ids.Pairwise fun first second => first.index < second.index)
    {first second : Nat} {low high : ValueId} (hlow : ids[first]? = some low)
    (hhigh : ids[second]? = some high) (hlt : low.index < high.index) : first < second := by
  obtain ⟨hfirst, rfl⟩ := List.getElem?_eq_some_iff.mp hlow
  obtain ⟨hsecond, rfl⟩ := List.getElem?_eq_some_iff.mp hhigh
  rcases Nat.lt_trichotomy first second with hbefore | rfl | hafter
  · exact hbefore
  · exact absurd hlt (Nat.lt_irrefl _)
  · have hreverse := List.pairwise_iff_getElem.mp hpairwise second first hsecond hfirst hafter
    omega

theorem Finished.size_eq {index : Nat} {before : Draft} {code : List Value}
    {values : PerRegister ValueId} {targets : List BlockId} {terminator : Terminator}
    (hfinished : draft.Finished platform index before code values targets terminator) :
    before.size = draft.offset index := by
  obtain ⟨more, hmore⟩ := hfinished.grows.pieces
  have hpieces : draft.pieces.take index = before.pieces := by
    rw [hmore]
    show List.take index ((before.pieces ++ [_]) ++ more) = before.pieces
    rw [List.append_assoc, ← hfinished.length, List.take_left]
  unfold size offset
  rw [hpieces, hfinished.leaders_eq]

section Placement

variable {index : Nat} {before : Draft} {code : List Value} {values : PerRegister ValueId}
  {targets : List BlockId} {terminator : Terminator}
  (hfinished : draft.Finished platform index before code values targets terminator)

include hfinished

theorem Finished.pairwise_insts (hindex : index < draft.leaders.length + 1) :
    (draft.block index).insts.toList.Pairwise fun first second =>
      first.index < second.index := by
  rw [hfinished.insts]
  refine List.pairwise_append.mpr ⟨pairwise_leading index, pairwise_placed _ _, ?_⟩
  intro first hfirst second hsecond
  have hlow := (bounds_of_mem_leading hfirst).2
  have hhigh := (base_le_of_mem_placed hsecond).1
  have hsize : 7 * (draft.leaders.length + 1) ≤ before.size := by
    rw [hfinished.size_eq]
    exact Nat.le_add_right _ _
  omega

/-- A phi of a block, an entry of its code: which ids a block lists. -/
theorem Finished.mem_insts_cases {id : ValueId} (hid : id ∈ (draft.block index).insts.toList) :
    (7 * index ≤ id.index ∧ id.index < 7 * (index + 1)) ∨
      (draft.offset index ≤ id.index ∧ id.index < draft.offset (index + 1)) := by
  rw [hfinished.insts, List.mem_append] at hid
  refine hid.imp bounds_of_mem_leading fun hid => ?_
  have hbounds := base_le_of_mem_placed hid
  rw [offset_succ hfinished.piece, ← hfinished.size_eq]
  exact hbounds

end Placement

theorem placedAt_iff {block : BlockId} {position : Nat} {id : ValueId} :
    draft.function.PlacedAt block position id ↔ block.index < draft.leaders.length + 1 ∧
      (draft.block block.index).insts.toList[position]? = some id := by
  unfold Function.PlacedAt
  constructor
  · rintro ⟨found, hfound, hid⟩
    have hlt := (Array.getElem?_eq_some_iff.mp hfound).1
    rw [blocks_size_function] at hlt
    rw [draft.getElem?_blocks hlt] at hfound
    cases hfound
    exact ⟨hlt, by rwa [Array.getElem?_toList]⟩
  · rintro ⟨hlt, hid⟩
    exact ⟨_, draft.getElem?_blocks hlt, by rwa [Array.getElem?_toList] at hid⟩

theorem Built.place_unique (hbuilt : Built decoder platform entry linkage leaders draft)
    (hcomplete : draft.pieces.length = draft.leaders.length + 1) {id : ValueId}
    {first second : BlockId} {position other : Nat}
    (hfirst : draft.function.PlacedAt first position id)
    (hsecond : draft.function.PlacedAt second other id) : first = second ∧ position = other := by
  obtain ⟨hlt, hid⟩ := placedAt_iff.mp hfirst
  obtain ⟨hlt', hid'⟩ := placedAt_iff.mp hsecond
  obtain ⟨_, _, _, _, _, hfinished⟩ := hbuilt.exists_finished (hcomplete ▸ hlt)
  obtain ⟨_, _, _, _, _, hfinished'⟩ := hbuilt.exists_finished (hcomplete ▸ hlt')
  have hblock : first.index = second.index := by
    have hphis : ∀ index < draft.leaders.length + 1,
        7 * (index + 1) ≤ draft.offset 0 := by
      intro index hindex
      show 7 * (index + 1) ≤ 7 * (draft.leaders.length + 1) + _
      omega
    have hlow := draft.offset_mono (Nat.zero_le first.index)
    have hlow' := draft.offset_mono (Nat.zero_le second.index)
    have hfit := hphis first.index hlt
    have hfit' := hphis second.index hlt'
    have hcases := hfinished.mem_insts_cases (List.mem_of_getElem? hid)
    have hcases' := hfinished'.mem_insts_cases (List.mem_of_getElem? hid')
    rcases Nat.lt_trichotomy first.index second.index with hbefore | heq | hafter
    · have hmono : draft.offset (first.index + 1) ≤ draft.offset second.index :=
        draft.offset_mono hbefore
      omega
    · exact heq
    · have hmono : draft.offset (second.index + 1) ≤ draft.offset first.index :=
        draft.offset_mono hafter
      omega
  have hsame : first = second := by
    cases first
    cases second
    exact congrArg BlockId.mk hblock
  subst hsame
  refine ⟨rfl, ?_⟩
  have hpairwise := hfinished.pairwise_insts hlt
  have hnodup : (draft.block first.index).insts.toList.Nodup :=
    hpairwise.imp fun hlt heq => absurd hlt (by rw [heq]; exact Nat.lt_irrefl _)
  obtain ⟨hposition, hget⟩ := List.getElem?_eq_some_iff.mp hid
  obtain ⟨hother, hget'⟩ := List.getElem?_eq_some_iff.mp hid'
  exact (List.Nodup.getElem_inj_iff hnodup).mp (hget.trans hget'.symm)

/-! What the entries of the arena are -/

theorem isParam_seed (draft : Draft) (register : Register) :
    draft.function.IsParam ((seeds ⟨0⟩).get register) := by
  refine ⟨⟨.param register.index, register.type, some register.name⟩, register.index, ?_, rfl⟩
  rw [get_seeds, Nat.mul_zero, Nat.zero_add]
  exact draft.getElem?_values_param register

theorem placedAt_seed (hbuilt : Built decoder platform entry linkage leaders draft)
    (hcomplete : draft.pieces.length = draft.leaders.length + 1) {position : Nat}
    (hposition : position < draft.leaders.length) (register : Register) :
    draft.function.PlacedAt ⟨position + 1⟩ register.index
      ((seeds ⟨position + 1⟩).get register) := by
  have hindex : position + 1 < draft.leaders.length + 1 := Nat.succ_lt_succ hposition
  obtain ⟨_, _, _, _, _, hfinished⟩ := hbuilt.exists_finished (hcomplete ▸ hindex)
  refine placedAt_iff.mpr ⟨hindex, ?_⟩
  rw [hfinished.insts]
  rcases register with holder | condition
  · cases holder <;> rfl
  · cases condition <;> rfl

/-- An entry of the arena is a parameter, a phi, or belongs to the code of a
block. -/
theorem Built.value_cases (hbuilt : Built decoder platform entry linkage leaders draft)
    (hcomplete : draft.pieces.length = draft.leaders.length + 1) {id : ValueId} {value : Value}
    (hvalue : draft.function.values[id.index]? = some value) :
    (∃ register : Register, id = (seeds ⟨0⟩).get register ∧
        value.inst = .param register.index) ∨
      (∃ position register, position < draft.leaders.length ∧
        id = (seeds ⟨position + 1⟩).get register ∧
        value.inst = .phi (Edge.feeds draft.edges (position + 1) register)) ∨
      ∃ index before code values targets terminator position,
        index < draft.leaders.length + 1 ∧
        draft.Finished platform index before code values targets terminator ∧
        code[position]? = some value ∧ id = ⟨before.size + position⟩ := by
  by_cases hseed : id.index < 7 * (draft.leaders.length + 1)
  · have hregister := Register.index_ofIndex (Nat.mod_lt id.index (show 0 < 7 by decide))
    have hid : id = (seeds ⟨id.index / 7⟩).get (Register.ofIndex (id.index % 7)) := by
      rw [get_seeds, hregister]
      exact congrArg ValueId.mk (Nat.div_add_mod id.index 7).symm
    rw [hid] at hvalue ⊢
    cases hblock : id.index / 7 with
    | zero =>
        rw [hblock, get_seeds, Nat.mul_zero, Nat.zero_add, draft.getElem?_values_param] at hvalue
        cases hvalue
        exact .inl ⟨_, rfl, rfl⟩
    | succ position =>
        have hposition : position < draft.leaders.length := by omega
        rw [hblock, get_seeds, draft.getElem?_values_phi hposition] at hvalue
        cases hvalue
        exact .inr (.inl ⟨position, _, hposition, rfl, rfl⟩)
  · obtain ⟨position, hposition⟩ := Nat.exists_eq_add_of_le (Nat.le_of_not_lt hseed)
    rw [hposition, draft.getElem?_values_code] at hvalue
    obtain ⟨index, piece, place, hpiece, hplace, hoffset⟩ := List.exists_of_getElem?_flatMap hvalue
    have hindex := (List.getElem?_eq_some_iff.mp hpiece).1
    obtain ⟨before, code, values, targets, terminator, hfinished⟩ := hbuilt.exists_finished hindex
    cases hpiece.symm.trans hfinished.piece
    refine .inr (.inr ⟨index, before, code, values, targets, terminator, place, hcomplete ▸ hindex,
      hfinished, hplace, ?_⟩)
    rw [hfinished.size_eq]
    unfold offset
    cases id
    exact congrArg ValueId.mk (by simp only at hposition; omega)

theorem Built.start_piece (hbuilt : Built decoder platform entry linkage leaders draft) :
    ∃ base position, draft.pieces[0]? = some ⟨base, [], .br ⟨position + 1⟩⟩ := by
  obtain ⟨position, _, hfinished⟩ := hbuilt.finished_start
  exact ⟨_, position, hfinished.piece⟩

/-- What a block may use is a constant, a parameter in the first block, or
listed in the block. -/
theorem Finished.local_cases (hbuilt : Built decoder platform entry linkage leaders draft)
    (hcomplete : draft.pieces.length = draft.leaders.length + 1) {index : Nat} {before : Draft}
    {code : List Value} {values : PerRegister ValueId} {targets : List BlockId}
    {terminator : Terminator} (hindex : index < draft.leaders.length + 1)
    (hfinished : draft.Finished platform index before code values targets terminator)
    {bound : Nat} {id : ValueId} (hlocal : before.Local bound id)
    (hbound : bound ≤ before.size + code.length) :
    draft.function.IsConst id ∨ index = 0 ∧ draft.function.IsParam id ∨
      ∃ position, draft.function.PlacedAt ⟨index⟩ position id := by
  rcases hlocal with ⟨register, rfl⟩ | ⟨hlow, hhigh⟩
  · rw [hfinished.current_eq]
    cases index with
    | zero => exact .inr (.inl ⟨rfl, draft.isParam_seed register⟩)
    | succ position =>
        exact .inr (.inr ⟨_, placedAt_seed hbuilt hcomplete (Nat.lt_of_succ_lt_succ hindex)
          register⟩)
  · obtain ⟨position, hposition⟩ := Nat.exists_eq_add_of_le hlow
    have hlt : position < code.length := by omega
    have hvalue := hfinished.hosts (List.getElem?_eq_getElem hlt)
    rw [← hposition] at hvalue
    cases hconstant : code[position].inst.constant? with
    | some bits =>
        refine .inl ⟨_, bits, hvalue, ?_⟩
        cases hinst : code[position].inst <;> rw [hinst] at hconstant <;> cases hconstant
        rfl
    | none =>
        have hmem : id ∈ (draft.block index).insts.toList := by
          rw [hfinished.insts]
          refine List.mem_append_right _ (mem_placed_iff.mpr
            ⟨position, code[position], List.getElem?_eq_getElem hlt, hconstant, ?_⟩)
          cases id
          exact congrArg ValueId.mk hposition
        obtain ⟨place, hplace⟩ := List.mem_iff_getElem?.mp hmem
        exact .inr (.inr ⟨place, placedAt_iff.mpr ⟨hindex, hplace⟩⟩)

theorem Finished.local_lt {index : Nat} {before : Draft} {code : List Value}
    {values : PerRegister ValueId} {targets : List BlockId} {terminator : Terminator}
    (hindex : index < draft.leaders.length + 1)
    (hfinished : draft.Finished platform index before code values targets terminator)
    {bound : Nat} {id : ValueId} (hlocal : before.Local bound id) (hbase : before.size ≤ bound) :
    id.index < bound := by
  rcases hlocal with ⟨register, rfl⟩ | ⟨_, hhigh⟩
  · have hlt := seed_lt register hindex
    have hsize : 7 * (draft.leaders.length + 1) ≤ before.size := by
      rw [hfinished.size_eq]
      exact Nat.le_add_right _ _
    rw [hfinished.current_eq, get_seeds]
    exact Nat.lt_of_lt_of_le hlt (Nat.le_trans hsize hbase)
  · exact hhigh

theorem Finished.end_le_size {index : Nat} {before : Draft} {code : List Value}
    {values : PerRegister ValueId} {targets : List BlockId} {terminator : Terminator}
    (hfinished : draft.Finished platform index before code values targets terminator) :
    before.size + code.length ≤ draft.size := by
  have hsucc := offset_succ hfinished.piece
  have hindex := (List.getElem?_eq_some_iff.mp hfinished.piece).1
  have hall : draft.offset draft.pieces.length = draft.size := by
    unfold offset size
    rw [List.take_length]
  rw [hfinished.size_eq, ← hall, ← hsucc]
  exact draft.offset_mono hindex

/-! Valid form -/

section Valid

variable (hbuilt : Built decoder platform entry linkage leaders draft)
  (hcomplete : draft.pieces.length = draft.leaders.length + 1)

include hbuilt hcomplete

/-- On an edge the registers are held as at the end of its source. -/
theorem Built.finished_of_edge {edge : Edge} (hedge : edge ∈ draft.edges) :
    edge.source.index < draft.leaders.length + 1 ∧ ∃ before code targets terminator,
      draft.Finished platform edge.source.index before code edge.values targets terminator := by
  have hsource := hbuilt.source_lt hedge
  obtain ⟨before, code, values, targets, terminator, hfinished⟩ := hbuilt.exists_finished hsource
  obtain ⟨_, rfl⟩ := (hfinished.mem_edges_iff rfl).mp hedge
  exact ⟨hcomplete ▸ hsource, before, code, targets, terminator, hfinished⟩

theorem Built.mem_incoming {id : ValueId} {value : Value} {entry : ValueId × BlockId}
    (hvalue : draft.function.values[id.index]? = some value)
    (hentry : entry ∈ value.inst.incoming) :
    ∃ position register, ∃ edge ∈ draft.edges, id = (seeds ⟨position + 1⟩).get register ∧
      entry = (edge.values.get register, edge.source) := by
  rcases hbuilt.value_cases hcomplete hvalue with ⟨register, _, hinst⟩ |
    ⟨position, register, _, hid, hinst⟩ | ⟨_, _, code, _, _, _, place, _, hfinished, hplace, _⟩
  · rw [hinst] at hentry
    cases hentry
  · rw [hinst] at hentry
    obtain ⟨edge, hedge, rfl⟩ := List.mem_map.mp hentry
    exact ⟨position, register, edge, (List.mem_filter.mp hedge).1, hid, rfl⟩
  · have hplain := (hfinished.ended.sound.plain value (List.mem_of_getElem? hplace)).1
    cases hinst : value.inst <;> rw [hinst] at hplain hentry <;> cases hplain <;> cases hentry

theorem Built.operands_lt {id : ValueId} {value : Value}
    (hvalue : draft.function.values[id.index]? = some value) :
    ∀ operand ∈ value.inst.operands, operand.index < draft.size := by
  intro operand hoperand
  rcases hbuilt.value_cases hcomplete hvalue with ⟨register, _, hinst⟩ |
    ⟨position, register, _, hid, hinst⟩ |
    ⟨index, before, code, _, _, _, place, hindex, hfinished, hplace, _⟩
  · rw [hinst] at hoperand
    cases hoperand
  · rw [hinst] at hoperand
    obtain ⟨entry, hentry, rfl⟩ := List.mem_map.mp hoperand
    obtain ⟨_, register', edge, hedge, _, rfl⟩ :=
      hbuilt.mem_incoming hcomplete hvalue (by rw [hinst]; exact hentry)
    obtain ⟨hsource, before, code, _, _, hfinished⟩ := hbuilt.finished_of_edge hcomplete hedge
    have hlt := hfinished.local_lt hsource (hfinished.ended.sound.held register')
      (Nat.le_add_right _ _)
    exact Nat.lt_of_lt_of_le hlt hfinished.end_le_size
  · have hlocal := hfinished.ended.sound.inScope place value hplace operand hoperand
    have hlt := hfinished.local_lt hindex hlocal (Nat.le_add_right _ _)
    have hplaceLt := (List.getElem?_eq_some_iff.mp hplace).1
    have hsize := hfinished.end_le_size
    omega

/-- An instruction uses constants and what its block lists before it. -/
theorem Built.operands_earlier {block : BlockId} {position : Nat} {id : ValueId} {value : Value}
    (hplaced : draft.function.PlacedAt block position id)
    (hvalue : draft.function.values[id.index]? = some value) (hphi : value.inst.isPhi = false) :
    ∀ operand ∈ value.inst.operands, draft.function.IsConst operand ∨
      ∃ earlier, earlier < position ∧ draft.function.PlacedAt block earlier operand := by
  intro operand hoperand
  rcases hbuilt.value_cases hcomplete hvalue with ⟨register, _, hinst⟩ |
    ⟨_, register, _, _, hinst⟩ |
    ⟨index, before, code, values, targets, terminator, place, hindex, hfinished, hplace, rfl⟩
  · rw [hinst] at hoperand
    cases hoperand
  · rw [hinst] at hphi
    cases hphi
  have hconstant : value.inst.constant? = none := by
    cases hinst : value.inst with
    | const bits =>
        rw [hinst] at hoperand
        cases hoperand
    | _ => rfl
  have hmem : (⟨before.size + place⟩ : ValueId) ∈ (draft.block index).insts.toList := by
    rw [hfinished.insts]
    exact List.mem_append_right _ (mem_placed_iff.mpr ⟨place, value, hplace, hconstant, rfl⟩)
  obtain ⟨position', hposition'⟩ := List.mem_iff_getElem?.mp hmem
  obtain ⟨rfl, rfl⟩ := hbuilt.place_unique hcomplete
    (placedAt_iff.mpr ⟨hindex, hposition'⟩) hplaced
  have hlocal := hfinished.ended.sound.inScope place value hplace operand hoperand
  have hplaceLt := (List.getElem?_eq_some_iff.mp hplace).1
  rcases hfinished.local_cases hbuilt hcomplete hindex hlocal (by omega) with
    hconst | ⟨rfl, _⟩ | ⟨earlier, hearlier⟩
  · exact .inl hconst
  · obtain ⟨_, _, hstart⟩ := hbuilt.start_piece
    cases hstart.symm.trans hfinished.piece
    cases hplace
  · refine .inr ⟨earlier, ?_, hearlier⟩
    exact lt_of_pairwise (hfinished.pairwise_insts hindex) (placedAt_iff.mp hearlier).2
      (placedAt_iff.mp hplaced).2 (hfinished.local_lt hindex hlocal (Nat.le_add_right _ _))

theorem Built.terminator_earlier {block : BlockId} {found : Block} {terminator : Terminator}
    (hblock : draft.function.blocks[block.index]? = some found)
    (hterminator : found.terminator = some terminator) :
    ∀ operand ∈ terminator.operands, draft.function.IsConst operand ∨
      ∃ position, draft.function.PlacedAt block position operand := by
  intro operand hoperand
  have hindex := (Array.getElem?_eq_some_iff.mp hblock).1
  rw [blocks_size_function] at hindex
  rw [draft.getElem?_blocks hindex] at hblock
  cases hblock
  obtain ⟨before, code, values, targets, terminator', hfinished⟩ :=
    hbuilt.exists_finished (hcomplete ▸ hindex)
  cases hterminator.symm.trans hfinished.terminator_eq
  rcases hfinished.local_cases hbuilt hcomplete hindex
    (hfinished.ended.operands operand hoperand) (Nat.le_refl _) with
    hconst | ⟨hstart, _⟩ | hplaced
  · exact .inl hconst
  · obtain ⟨_, _, hpiece⟩ := hbuilt.start_piece
    rw [← hstart] at hpiece
    cases hpiece.symm.trans hfinished.piece
    cases hoperand
  · exact .inr hplaced

theorem Built.placed_once {id : ValueId} {value : Value}
    (hvalue : draft.function.values[id.index]? = some value)
    (hconst : ¬draft.function.IsConst id) (hparam : ¬draft.function.IsParam id) :
    ∃! place : BlockId × Nat, draft.function.PlacedAt place.1 place.2 id := by
  have hplaced : ∃ block position, draft.function.PlacedAt block position id := by
    rcases hbuilt.value_cases hcomplete hvalue with ⟨register, rfl, _⟩ |
      ⟨position, register, hposition, rfl, _⟩ |
      ⟨index, before, code, _, _, _, place, hindex, hfinished, hplace, rfl⟩
    · exact absurd (draft.isParam_seed register) hparam
    · exact ⟨_, _, placedAt_seed hbuilt hcomplete hposition register⟩
    · have hlt := (List.getElem?_eq_some_iff.mp hplace).1
      have hlocal : before.Local (before.size + code.length) ⟨before.size + place⟩ :=
        .inr ⟨Nat.le_add_right _ _, Nat.add_lt_add_left hlt _⟩
      rcases hfinished.local_cases hbuilt hcomplete hindex hlocal (Nat.le_refl _) with
        hconst' | ⟨_, hparam'⟩ | ⟨position, hposition⟩
      · exact absurd hconst' hconst
      · exact absurd hparam' hparam
      · exact ⟨_, position, hposition⟩
  obtain ⟨block, position, hplaced⟩ := hplaced
  refine ⟨(block, position), hplaced, fun ⟨block', position'⟩ hplaced' => ?_⟩
  obtain ⟨rfl, rfl⟩ := hbuilt.place_unique hcomplete hplaced hplaced'
  rfl

theorem Built.hasPhis {position : Nat} (hposition : position < draft.leaders.length) :
    draft.function.HasPhis (draft.block (position + 1)) fun register =>
      RegisterFile.phiName register (draft.leaders.getD position 0) where
  leading register := by
    obtain ⟨_, hid⟩ := placedAt_iff.mp (placedAt_seed hbuilt hcomplete hposition register)
    rw [Array.getElem?_toList] at hid
    refine ⟨_, Edge.feeds draft.edges (position + 1) register, hid, ?_⟩
    rw [get_seeds]
    exact draft.getElem?_values_phi hposition register
  others place id value hplace hid hvalue := by
    have hindex : position + 1 < draft.leaders.length + 1 := Nat.succ_lt_succ hposition
    obtain ⟨before, code, values, targets, terminator, hfinished⟩ :=
      hbuilt.exists_finished (hcomplete ▸ hindex)
    have hleading : (leading (position + 1)).length ≤ place := hplace
    rw [← Array.getElem?_toList, hfinished.insts, List.getElem?_append_right hleading] at hid
    obtain ⟨offset, found, hfound, _, rfl⟩ := mem_placed_iff.mp (List.mem_of_getElem? hid)
    cases hvalue.symm.trans (hfinished.hosts hfound)
    exact (hfinished.ended.sound.plain value (List.mem_of_getElem? hfound)).1

theorem Built.entries {id : ValueId} {value : Value}
    (hvalue : draft.function.values[id.index]? = some value) {entry : ValueId × BlockId}
    (hentry : entry ∈ value.inst.incoming) :
    draft.function.IsConst entry.1 ∨ entry.2 = ⟨0⟩ ∧ draft.function.IsParam entry.1 ∨
      ∃ position, draft.function.PlacedAt entry.2 position entry.1 := by
  obtain ⟨_, register, edge, hedge, _, rfl⟩ := hbuilt.mem_incoming hcomplete hvalue hentry
  obtain ⟨hsource, before, code, _, _, hfinished⟩ := hbuilt.finished_of_edge hcomplete hedge
  rcases hfinished.local_cases hbuilt hcomplete hsource (hfinished.ended.sound.held register)
    (Nat.le_refl _) with hconst | ⟨hstart, hparam⟩ | hplaced
  · exact .inl hconst
  · exact .inr (.inl ⟨congrArg BlockId.mk hstart, hparam⟩)
  · exact .inr (.inr hplaced)

/-- Entries of one phi from one block hold one register at the end of that
block. -/
theorem Built.entries_agree {id : ValueId} {value : Value}
    (hvalue : draft.function.values[id.index]? = some value) {first second : ValueId × BlockId}
    (hfirst : first ∈ value.inst.incoming) (hsecond : second ∈ value.inst.incoming)
    (hsame : first.2 = second.2) : first.1 = second.1 := by
  obtain ⟨_, register, edge, hedge, hid, rfl⟩ := hbuilt.mem_incoming hcomplete hvalue hfirst
  obtain ⟨_, register', edge', hedge', hid', rfl⟩ := hbuilt.mem_incoming hcomplete hvalue hsecond
  have hregisters : register = register' := by
    have hindex := congrArg (fun id : ValueId => id.index % 7) (hid.symm.trans hid')
    simp only [get_seeds] at hindex
    rw [(seed_position _ register).2, (seed_position _ register').2] at hindex
    rw [← Register.ofIndex_index register, hindex, Register.ofIndex_index]
  obtain ⟨_, before, code, _, _, hfinished⟩ := hbuilt.finished_of_edge hcomplete hedge
  have hvalues := ((hfinished.mem_edges_iff (congrArg BlockId.index hsame.symm)).mp hedge').2
  show edge.values.get register = edge'.values.get register'
  rw [hregisters, hvalues]

theorem Built.entries_perm {index position : Nat} {id : ValueId} {value : Value}
    (hplaced : draft.function.PlacedAt ⟨index⟩ position id)
    (hvalue : draft.function.values[id.index]? = some value) (hphi : value.inst.isPhi = true) :
    (value.inst.incoming.map Prod.snd).Perm (Function.sources draft.function.edges index) := by
  rcases hbuilt.value_cases hcomplete hvalue with ⟨register, _, hinst⟩ |
    ⟨position', register, hposition, rfl, hinst⟩ |
    ⟨_, _, code, _, _, _, place, _, hfinished, hplace, _⟩
  · rw [hinst] at hphi
    cases hphi
  · obtain ⟨hblock, _⟩ := hbuilt.place_unique hcomplete hplaced
      (placedAt_seed hbuilt hcomplete hposition register)
    cases hblock
    rw [hinst]
    show ((Edge.feeds draft.edges (position' + 1) register).map Prod.snd).Perm _
    rw [map_snd_feeds, edges_function hcomplete]
    exact (hbuilt.edges_perm.filter _).map _
  · rw [(hfinished.ended.sound.plain value (List.mem_of_getElem? hplace)).1] at hphi
    cases hphi

theorem Built.exists_of_mem_blocks {block : Block} (hblock : block ∈ draft.function.blocks) :
    ∃ index, index < draft.leaders.length + 1 ∧ ∃ before code values targets terminator,
      block = draft.block index ∧
      draft.Finished platform index before code values targets terminator := by
  obtain ⟨index, hindex⟩ := Array.mem_iff_getElem?.mp hblock
  have hlt := (Array.getElem?_eq_some_iff.mp hindex).1
  rw [blocks_size_function] at hlt
  rw [draft.getElem?_blocks hlt] at hindex
  cases hindex
  obtain ⟨before, code, values, targets, terminator, hfinished⟩ :=
    hbuilt.exists_finished (hcomplete ▸ hlt)
  exact ⟨index, hlt, before, code, values, targets, terminator, rfl, hfinished⟩

theorem Built.valid : draft.function.Valid where
  params_lt id hid := by
    obtain ⟨register, _, rfl⟩ := List.mem_map.mp
      (show id ∈ Register.all.map (seeds ⟨0⟩).get from PerRegister.toList_eq_map_all _ ▸ hid)
    obtain ⟨value, index, hvalue, _⟩ := draft.isParam_seed register
    exact (Array.getElem?_eq_some_iff.mp hvalue).1
  operands_lt value hmem id hid := by
    obtain ⟨index, hvalue⟩ := Array.mem_iff_getElem?.mp hmem
    have hentry : draft.function.values[(⟨index⟩ : ValueId).index]? = some value := hvalue
    rw [values_size_function]
    exact hbuilt.operands_lt hcomplete hentry id hid
  sources_lt value hmem entry hentry := by
    obtain ⟨index, hindex⟩ := Array.mem_iff_getElem?.mp hmem
    have hvalue : draft.function.values[(⟨index⟩ : ValueId).index]? = some value := hindex
    obtain ⟨_, _, edge, hedge, _, rfl⟩ := hbuilt.mem_incoming hcomplete hvalue hentry
    rw [blocks_size_function]
    exact (hbuilt.finished_of_edge hcomplete hedge).1
  insts_lt block hblock id hid := by
    obtain ⟨index, hindex, before, code, values, targets, terminator, rfl, hfinished⟩ :=
      hbuilt.exists_of_mem_blocks hcomplete hblock
    have hmem := Array.mem_toList_iff.mpr hid
    rw [hfinished.insts, List.mem_append] at hmem
    rw [values_size_function]
    rcases hmem with hmem | hmem
    · have hbounds := bounds_of_mem_leading hmem
      unfold size
      omega
    · exact Nat.lt_of_lt_of_le (base_le_of_mem_placed hmem).2 hfinished.end_le_size
  terminators block hblock := by
    obtain ⟨index, hindex, before, code, values, targets, terminator, rfl, hfinished⟩ :=
      hbuilt.exists_of_mem_blocks hcomplete hblock
    refine ⟨terminator, hfinished.terminator_eq, fun id hid => ?_, fun target htarget => ?_⟩
    · rw [values_size_function]
      exact Nat.lt_of_lt_of_le (hfinished.local_lt hindex (hfinished.ended.operands id hid)
        (Nat.le_add_right _ _)) hfinished.end_le_size
    · rw [blocks_size_function, ← hfinished.leaders_eq]
      exact Nat.lt_succ_of_le (hfinished.ended.targets target
        (hfinished.ended.successors.mem_iff.mp htarget)).2
  placed_once id value := hbuilt.placed_once hcomplete
  start_phis position id value hplaced := by
    obtain ⟨hindex, hid⟩ := placedAt_iff.mp hplaced
    obtain ⟨_, _, hstart⟩ := hbuilt.start_piece
    obtain ⟨before, code, _, _, _, hfinished⟩ := hbuilt.exists_finished (hcomplete ▸ hindex)
    cases hstart.symm.trans hfinished.piece
    rw [hfinished.insts] at hid
    cases hid
  phis index block hpositive hblock := by
    have hindex := (Array.getElem?_eq_some_iff.mp hblock).1
    rw [blocks_size_function] at hindex
    rw [draft.getElem?_blocks hindex] at hblock
    cases hblock
    obtain ⟨position, rfl⟩ := Nat.exists_eq_add_one.mpr hpositive
    exact ⟨draft.leaders.getD position 0, rfl,
      hbuilt.hasPhis hcomplete (Nat.lt_of_succ_lt_succ hindex)⟩
  operands_earlier block position id value := hbuilt.operands_earlier hcomplete
  terminator_earlier block found terminator := hbuilt.terminator_earlier hcomplete
  entries id value hvalue entry := hbuilt.entries hcomplete hvalue
  entries_agree id value hvalue first hfirst second := hbuilt.entries_agree hcomplete hvalue hfirst
  entries_perm index position id value := hbuilt.entries_perm hcomplete

end Valid

end Draft

namespace Decoder

open Ssa

/-- Whatever a routine is lifted to is in valid static single assignment form,
and every use in it is dominated by its definition. -/
theorem valid_of_liftRoutine {decoder : Decoder} {platform : Platform} {entry : Address}
    {linkage : Linkage} {journal journal' : Journal} {function : Function}
    (hrun : decoder.liftRoutine platform entry linkage journal = .ok function journal') :
    function.Valid ∧ function.Dominated := by
  obtain ⟨_, _, _, draft, _, hbuilt, hcomplete, rfl⟩ := exists_built_of_liftRoutine hrun
  have hvalid := hbuilt.valid hcomplete
  exact ⟨hvalid, hvalid.dominated⟩

/-- A program that calls a routine three times. The routine counts in a byte
of the zero page. -/
def tally : Decoder where
  space := Image.space
    { base := 0x8000
      bytes := #[0xA2, 0x03, 0x20, 0x09, 0x80, 0xCA, 0xD0, 0xFA, 0x60, 0xE6, 0x10, 0x60] }

theorem exists_liftRoutine_tally : ∃ function journal',
    tally.liftRoutine .nes 0x8000 .external {} = .ok function journal' :=
  Session.exists_of_isOk (by decide +kernel)

theorem valid_tally : ∃ function journal',
    tally.liftRoutine .nes 0x8000 .external {} = .ok function journal' ∧
      function.Valid ∧ function.Dominated := by
  obtain ⟨function, journal', hrun⟩ := exists_liftRoutine_tally
  exact ⟨function, journal', hrun, valid_of_liftRoutine hrun⟩

end Decoder

end Lift6502
