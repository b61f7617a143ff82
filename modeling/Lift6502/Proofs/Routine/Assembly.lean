import Lift6502.Proofs.Routine.Lifting

/-! What is known of each block once all blocks are finished. -/

namespace Lift6502.Draft

open Ssa

/-! Growth -/

/-- A later draft has more finished blocks, and further edges out of these
only. -/
structure Grows (draft later : Draft) : Prop where
  entry_eq : later.entry = draft.entry
  linkage_eq : later.linkage = draft.linkage
  leaders_eq : later.leaders = draft.leaders
  edges : ∃ more, later.edges = draft.edges ++ more ∧
    ∀ edge ∈ more, draft.pieces.length ≤ edge.source.index
  pieces : ∃ more, later.pieces = draft.pieces ++ more

variable {draft middle later : Draft}

theorem Grows.refl (draft : Draft) : draft.Grows draft where
  entry_eq := rfl
  linkage_eq := rfl
  leaders_eq := rfl
  edges := ⟨[], (List.append_nil _).symm, fun _ hedge => by cases hedge⟩
  pieces := ⟨[], (List.append_nil _).symm⟩

theorem Grows.trans (hfirst : draft.Grows middle) (hsecond : middle.Grows later) :
    draft.Grows later where
  entry_eq := hsecond.entry_eq.trans hfirst.entry_eq
  linkage_eq := hsecond.linkage_eq.trans hfirst.linkage_eq
  leaders_eq := hsecond.leaders_eq.trans hfirst.leaders_eq
  edges := by
    obtain ⟨more, hmore, hsources⟩ := hfirst.edges
    obtain ⟨rest, hrest, hsources'⟩ := hsecond.edges
    obtain ⟨pieces, hpieces⟩ := hfirst.pieces
    refine ⟨more ++ rest, by rw [hrest, hmore, List.append_assoc], fun edge hedge => ?_⟩
    rcases List.mem_append.mp hedge with hedge | hedge
    · exact hsources edge hedge
    · have hle := hsources' edge hedge
      rw [hpieces, List.length_append] at hle
      omega
  pieces := by
    obtain ⟨more, hmore⟩ := hfirst.pieces
    obtain ⟨rest, hrest⟩ := hsecond.pieces
    exact ⟨more ++ rest, by rw [hrest, hmore, List.append_assoc]⟩

theorem grows_finish (draft : Draft) (values : PerRegister ValueId) (targets : List BlockId)
    (code : List Value) (terminator : Terminator) :
    draft.Grows ((draft.addEdges values targets).finish code terminator) where
  entry_eq := rfl
  linkage_eq := rfl
  leaders_eq := rfl
  edges := by
    refine ⟨_, rfl, fun edge hedge => ?_⟩
    obtain ⟨target, _, rfl⟩ := List.mem_map.mp hedge
    exact Nat.le_refl _
  pieces := ⟨_, rfl⟩

/-! Entries of the arena -/

theorem getElem?_values_code (draft : Draft) (position : Nat) :
    draft.function.values[7 * (draft.leaders.length + 1) + position]? =
      (draft.pieces.flatMap Piece.code)[position]? := by
  unfold function
  rw [List.getElem?_toArray, List.getElem?_append_right (by simp), length_seedValues,
    Nat.add_sub_cancel_left]

theorem seedValue_type (leaders : List Address) (feeds : Feeds) (index : Nat) :
    (seedValue leaders feeds index).type = (Register.ofIndex (index % 7)).type := by
  unfold seedValue
  split <;> rfl

/-- Phis take further entries, but the types of values and the code of
finished blocks stay. -/
theorem Grows.value (hgrows : draft.Grows later) {index : Nat} {value : Value}
    (hvalue : draft.function.values[index]? = some value) :
    ∃ value', later.function.values[index]? = some value' ∧ value'.type = value.type ∧
      (7 * (draft.leaders.length + 1) ≤ index → value' = value) := by
  by_cases hindex : index < 7 * (draft.leaders.length + 1)
  · rw [draft.getElem?_values_lt hindex] at hvalue
    cases hvalue
    have hlater : index < 7 * (later.leaders.length + 1) := by
      rw [hgrows.leaders_eq]
      exact hindex
    refine ⟨_, later.getElem?_values_lt hlater, ?_, fun hle => absurd hindex (by omega)⟩
    rw [seedValue_type, seedValue_type]
  · obtain ⟨position, rfl⟩ := Nat.exists_eq_add_of_le (Nat.le_of_not_lt hindex)
    obtain ⟨more, hmore⟩ := hgrows.pieces
    rw [draft.getElem?_values_code] at hvalue
    have hlater := later.getElem?_values_code position
    rw [hgrows.leaders_eq, hmore, List.flatMap_append,
      List.getElem?_append_left (List.getElem?_eq_some_iff.mp hvalue).1, hvalue] at hlater
    exact ⟨value, hlater, rfl, fun _ => rfl⟩

theorem Grows.type? (hgrows : draft.Grows later) {id : ValueId} {type : Ty}
    (htype : draft.function.type? id = some type) : later.function.type? id = some type := by
  obtain ⟨value, hvalue, rfl⟩ := Option.map_eq_some_iff.mp htype
  obtain ⟨value', hvalue', htype', _⟩ := hgrows.value hvalue
  unfold Function.type?
  rw [hvalue', Option.map_some, htype']

theorem value_finish (draft : Draft) (values : PerRegister ValueId) (targets : List BlockId)
    (code : List Value) (terminator : Terminator) (position : Nat) :
    ((draft.addEdges values targets).finish code terminator).function.values[
      draft.size + position]? = code[position]? := by
  have hcode := ((draft.addEdges values targets).finish code terminator).getElem?_values_code
    ((draft.pieces.flatMap Piece.code).length + position)
  have hpieces : ((draft.addEdges values targets).finish code terminator).pieces.flatMap
      Piece.code = draft.pieces.flatMap Piece.code ++ code := by
    simp [finish, addEdges]
  rw [hpieces, List.getElem?_append_right (Nat.le_add_right _ _), Nat.add_sub_cancel_left,
    ← Nat.add_assoc] at hcode
  exact hcode

theorem type?_finish {id : ValueId} {type : Ty} {code : List Value}
    (htype : (draft.function.append draft.current code).type? id = some type)
    (values : PerRegister ValueId) (targets : List BlockId) (terminator : Terminator) :
    ((draft.addEdges values targets).finish code terminator).function.type? id = some type := by
  obtain ⟨value, hvalue, rfl⟩ := Option.map_eq_some_iff.mp htype
  by_cases hindex : id.index < draft.size
  · rw [← values_size_function] at hindex
    rw [Function.append_value_before _ _ _ hindex] at hvalue
    refine (draft.grows_finish values targets code terminator).type? ?_
    unfold Function.type?
    rw [hvalue, Option.map_some]
  · obtain ⟨position, hposition⟩ := Nat.exists_eq_add_of_le (Nat.le_of_not_lt hindex)
    have hwithin := Function.append_value_within draft.function draft.current code position
    rw [values_size_function, ← hposition, hvalue] at hwithin
    unfold Function.type?
    rw [hposition, value_finish, ← hwithin, Option.map_some]

/-! Finished blocks -/

/-- The code and the terminator of a block are sound, and the edges out of the
block lead to blocks of leaders. -/
structure Ended (draft : Draft) (platform : Platform) (code : List Value)
    (values : PerRegister ValueId) (targets : List BlockId) (terminator : Terminator) :
    Prop where
  sound : draft.Sound platform code values
  successors : terminator.successors.Perm targets
  targets : ∀ target ∈ targets, 0 < target.index ∧ target.index ≤ draft.leaders.length
  operands : ∀ id ∈ terminator.operands, draft.Local (draft.size + code.length) id
  typed : terminator.Typed (draft.function.append draft.current code).type?

variable {decoder : Decoder} {platform : Platform} {entry : Address} {linkage : Linkage}
  {leaders : List Address}

theorem target_bounds {position : Nat} {leader : Address}
    (hleader : draft.leaders[position]? = some leader) :
    0 < position + 1 ∧ position + 1 ≤ draft.leaders.length :=
  ⟨Nat.succ_pos _, (List.getElem?_eq_some_iff.mp hleader).1⟩

theorem Ends.ended {code code' : List Value} {values : PerRegister ValueId}
    {leader address : Address} {targets : List BlockId} {terminator : Terminator}
    (hends : draft.Ends decoder code values leader address code' targets terminator)
    (hsound : draft.Sound platform code values) :
    draft.Ended platform code' values targets terminator := by
  cases hends with
  | fall hleader _ | jump hdecoded hoperation htarget hleader =>
      refine ⟨hsound, List.Perm.refl _, ?_, ?_, trivial⟩
      · intro target htarget
        rw [List.mem_singleton.mp htarget]
        exact target_bounds hleader
      · intro id hid
        cases hid
  | branch hdecoded hoperation htarget htaken hnotTaken =>
      rename_i instruction flag inverse target taken notTaken
      refine ⟨hsound, ?_, ?_, ?_, ?_⟩
      · cases inverse with
        | true => exact List.Perm.swap _ _ _
        | false => exact List.Perm.refl _
      · intro target htarget
        rcases List.mem_pair.mp htarget with rfl | rfl
        · exact target_bounds htaken
        · exact target_bounds hnotTaken
      · intro id hid
        have hflag : id = values.get (.flag flag) := by
          cases inverse <;> exact List.mem_singleton.mp hid
        rw [hflag]
        exact hsound.held (.flag flag)
      · have hflag := hsound.held_typed (.flag flag)
        cases inverse <;> exact hflag
  | ret hdecoded hoperation =>
      refine ⟨hsound.makeRegs, List.Perm.refl _, ?_, ?_, ?_⟩
      · intro target htarget
        cases htarget
      · intro id hid
        rw [List.mem_singleton.mp hid, List.length_append]
        exact .inr ⟨Nat.le_add_right _ _, Nat.lt_succ_self _⟩
      · show Function.type? _ _ = some .regs
        have hvalue := Function.append_value_within draft.function draft.current
          (code ++ [⟨.makeRegs values, .regs, none⟩]) code.length
        rw [values_size_function] at hvalue
        unfold Function.type?
        rw [hvalue]
        simp

namespace Built

theorem source_lt (hbuilt : Built decoder platform entry linkage leaders draft) {edge : Edge}
    (hedge : edge ∈ draft.edges) : edge.source.index < draft.pieces.length := by
  induction hbuilt with
  | start hentry =>
      rw [List.mem_singleton.mp hedge]
      exact Nat.zero_lt_one
  | block hbuilt hplace hleader hpasses hlowers hsound hends ih =>
      show edge.source.index < (List.length (_ ++ [_]))
      rw [List.length_append, List.length_singleton]
      rcases List.mem_append.mp hedge with hedge | hedge
      · exact Nat.lt_succ_of_lt (ih hedge)
      · obtain ⟨target, _, rfl⟩ := List.mem_map.mp hedge
        exact Nat.lt_succ_self _

end Built

/-! Blocks of a draft that goes on -/

/-- How a finished block came about: the draft when it was begun, and what was
added to it. -/
structure Finished (draft : Draft) (platform : Platform) (index : Nat) (before : Draft)
    (code : List Value) (values : PerRegister ValueId) (targets : List BlockId)
    (terminator : Terminator) : Prop where
  length : before.pieces.length = index
  leaders_eq : before.leaders = draft.leaders
  sources : ∀ edge ∈ before.edges, edge.source.index < index
  ended : before.Ended platform code values targets terminator
  grows : ((before.addEdges values targets).finish code terminator).Grows draft

theorem Finished.trans {index : Nat} {before : Draft} {code : List Value}
    {values : PerRegister ValueId} {targets : List BlockId} {terminator : Terminator}
    (hfinished : middle.Finished platform index before code values targets terminator)
    (hgrows : middle.Grows later) :
    later.Finished platform index before code values targets terminator where
  length := hfinished.length
  leaders_eq := hfinished.leaders_eq.trans hgrows.leaders_eq.symm
  sources := hfinished.sources
  ended := hfinished.ended
  grows := hfinished.grows.trans hgrows

theorem sound_opening (entry : Address) (linkage : Linkage) (leaders : List Address)
    (platform : Platform) :
    (laidOut entry linkage leaders).Sound platform [] (seeds ⟨0⟩) where
  typed value hvalue := by cases hvalue
  plain value hvalue := by cases hvalue
  unnamed value hvalue := by cases hvalue
  inScope position value hvalue := by cases hvalue
  held_typed register := by
    have hparam := (laidOut entry linkage leaders).getElem?_values_param register
    unfold Function.type?
    rw [Function.append_nil, get_seeds, Nat.mul_zero, Nat.zero_add, hparam]
    rfl
  held register := .inl ⟨register, rfl⟩

theorem Built.finished_start (hbuilt : Built decoder platform entry linkage leaders draft) :
    ∃ position : Nat, leaders[position]? = some entry ∧
      draft.Finished platform 0 (laidOut entry linkage leaders) [] (seeds ⟨0⟩) [⟨position + 1⟩]
        (.br ⟨position + 1⟩) := by
  induction hbuilt with
  | start hentry =>
      refine ⟨_, hentry, rfl, rfl, fun _ hedge => (List.not_mem_nil hedge).elim, ?_, Grows.refl _⟩
      refine ⟨sound_opening entry linkage leaders platform, List.Perm.refl _, ?_, ?_, trivial⟩
      · intro target htarget
        rw [List.mem_singleton.mp htarget]
        exact ⟨Nat.succ_pos _, (List.getElem?_eq_some_iff.mp hentry).1⟩
      · intro id hid
        cases hid
  | block hbuilt hplace hleader hpasses hlowers hsound hends ih =>
      obtain ⟨position, hentry, hfinished⟩ := ih
      exact ⟨position, hentry, hfinished.trans (grows_finish _ _ _ _ _)⟩

theorem Built.exists_block (hbuilt : Built decoder platform entry linkage leaders draft)
    {position : Nat} (hposition : position + 1 < draft.pieces.length) :
    ∃ before leader address instructions code code' values targets terminator,
      leaders[position]? = some leader ∧ decoder.Passes leader instructions address ∧
      Lowers platform (sites leaders) before.function before.current instructions []
        (seeds before.current) code values ∧
      before.Ends decoder code values leader address code' targets terminator ∧
      draft.Finished platform (position + 1) before code' values targets terminator := by
  induction hbuilt with
  | start hentry => exact absurd hposition (by simp [opened, finish, addEdges, laidOut])
  | block hbuilt hplace hleader hpasses hlowers hsound hends ih =>
      rename_i before place leader address instructions code code' values targets terminator
      by_cases hearlier : position + 1 < before.pieces.length
      · obtain ⟨first, leader', address', instructions', code₁, code₁', values', targets',
          terminator', hleader', hpasses', hlowers', hends', hfinished⟩ := ih hearlier
        exact ⟨first, leader', address', instructions', code₁, code₁', values', targets',
          terminator', hleader', hpasses', hlowers', hends',
          hfinished.trans (grows_finish _ _ _ _ _)⟩
      · have hlength : position + 1 < (before.pieces ++ [_]).length := hposition
        rw [List.length_append, List.length_singleton] at hlength
        have hplaces : place = position := by omega
        subst hplaces
        refine ⟨before, leader, address, instructions, code, code', values, targets, terminator,
          hleader, hpasses, hlowers, hends, hplace, rfl, ?_, hends.ended hsound, Grows.refl _⟩
        exact fun edge hedge => hplace ▸ hbuilt.source_lt hedge

theorem Built.exists_finished (hbuilt : Built decoder platform entry linkage leaders draft)
    {index : Nat} (hindex : index < draft.pieces.length) :
    ∃ before code values targets terminator,
      draft.Finished platform index before code values targets terminator := by
  cases index with
  | zero =>
      obtain ⟨position, _, hfinished⟩ := hbuilt.finished_start
      exact ⟨_, _, _, _, _, hfinished⟩
  | succ position =>
      obtain ⟨before, _, _, _, _, code, values, targets, terminator, _, _, _, _, hfinished⟩ :=
        hbuilt.exists_block hindex
      exact ⟨before, code, values, targets, terminator, hfinished⟩

namespace Finished

variable {index : Nat} {before : Draft} {code : List Value} {values : PerRegister ValueId}
  {targets : List BlockId} {terminator : Terminator}
  (hfinished : draft.Finished platform index before code values targets terminator)

include hfinished

theorem current_eq : before.current = ⟨index⟩ := by
  unfold current
  rw [hfinished.length]

theorem piece : draft.pieces[index]? = some ⟨before.size, code, terminator⟩ := by
  obtain ⟨more, hmore⟩ := hfinished.grows.pieces
  have hpieces : ((before.addEdges values targets).finish code terminator).pieces =
      before.pieces ++ [⟨before.size, code, terminator⟩] := rfl
  rw [hmore, hpieces, List.append_assoc, ← hfinished.length,
    List.getElem?_append_right (Nat.le_refl _), Nat.sub_self]
  rfl

theorem insts : (draft.block index).insts.toList = leading index ++ placed before.size code := by
  unfold block
  rw [hfinished.piece]
  simp

theorem terminator_eq : (draft.block index).terminator = some terminator := by
  unfold block
  rw [hfinished.piece]
  rfl

theorem hosts {position : Nat} {value : Value} (hvalue : code[position]? = some value) :
    draft.function.values[before.size + position]? = some value := by
  have hfinish := before.value_finish values targets code terminator position
  rw [hvalue] at hfinish
  obtain ⟨value', hvalue', _, hsame⟩ := hfinished.grows.value hfinish
  rw [hsame (by unfold size; exact Nat.le_trans (Nat.le_add_right _ _) (Nat.le_add_right _ _))]
    at hvalue'
  exact hvalue'

theorem type? {id : ValueId} {type : Ty}
    (htype : (before.function.append before.current code).type? id = some type) :
    draft.function.type? id = some type :=
  hfinished.grows.type? (type?_finish htype values targets terminator)

/-- The edges out of a block are those added when it was finished, with the
values of the registers at its end. -/
theorem mem_edges_iff {edge : Edge} (hsource : edge.source.index = index) :
    edge ∈ draft.edges ↔ edge.target ∈ targets ∧ edge.values = values := by
  obtain ⟨more, hmore, hsources⟩ := hfinished.grows.edges
  have hedges : ((before.addEdges values targets).finish code terminator).edges =
      before.edges ++ targets.map fun target => ⟨before.current, target, values⟩ := rfl
  have hcount : ((before.addEdges values targets).finish code terminator).pieces.length =
      index + 1 := by
    rw [← hfinished.length]
    exact List.length_append
  rw [hmore, hedges, List.mem_append, List.mem_append, hfinished.current_eq, List.mem_map]
  constructor
  · rintro ((hedge | ⟨target, htarget, rfl⟩) | hedge)
    · have hlt := hfinished.sources edge hedge
      omega
    · exact ⟨htarget, rfl⟩
    · have hle := hsources edge hedge
      omega
  · rintro ⟨htarget, hvalues⟩
    refine .inl (.inr ⟨edge.target, htarget, ?_⟩)
    subst hvalues hsource
    rfl

end Finished

end Lift6502.Draft
