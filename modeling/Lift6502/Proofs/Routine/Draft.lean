import Lift6502.Lowering.Routine
import Lift6502.Proofs.Ssa.Segment

/-! The function of a routine while its blocks are finished one after another.
A draft is all that such a function is made of: the leaders, the edges so far,
and the code of the blocks that are finished. -/

namespace Lift6502

open Ssa

namespace Register

theorem index_lt (register : Register) : register.index < 7 := by
  rcases register with holder | condition
  · cases holder <;> decide
  · cases condition <;> decide

def ofIndex : Nat → Register
  | 0 => .byte .a
  | 1 => .byte .x
  | 2 => .byte .y
  | 3 => .flag .n
  | 4 => .flag .v
  | 5 => .flag .z
  | _ => .flag .c

@[simp] theorem ofIndex_index (register : Register) : ofIndex register.index = register := by
  rcases register with holder | condition
  · cases holder <;> rfl
  · cases condition <;> rfl

theorem index_ofIndex {index : Nat} (hindex : index < 7) : (ofIndex index).index = index := by
  match index, hindex with
  | 0, _ | 1, _ | 2, _ | 3, _ | 4, _ | 5, _ | 6, _ => rfl

end Register

/-- The values that a block starts with: the parameters in the first block, and
phis in all others. -/
def seeds (block : BlockId) : PerRegister ValueId :=
  PerRegister.ofFn fun register => ⟨7 * block.index + register.index⟩

/-- An edge between two blocks, and what the registers hold on it. -/
structure Edge where
  source : BlockId
  target : BlockId
  values : PerRegister ValueId

/-- What has been added to a block that is finished. -/
structure Piece where
  base : Nat
  code : List Value
  terminator : Terminator

/-- The entries of the phi of each register of each block. -/
abbrev Feeds := Nat → Register → List (ValueId × BlockId)

def Edge.feeds (edges : List Edge) : Feeds := fun block register =>
  (edges.filter fun edge => edge.target.index == block).map fun edge =>
    (edge.values.get register, edge.source)

/-- The entry of the arena at `index` among the parameters and phis. -/
def seedValue (leaders : List Address) (feeds : Feeds) (index : Nat) : Value :=
  let register := Register.ofIndex (index % 7)
  match index / 7 with
  | 0 => ⟨.param register.index, register.type, some register.name⟩
  | position + 1 =>
      ⟨.phi (feeds (position + 1) register), register.type,
        some (RegisterFile.phiName register (leaders.getD position 0))⟩

def seedValues (leaders : List Address) (feeds : Feeds) : List Value :=
  (List.range (7 * (leaders.length + 1))).map (seedValue leaders feeds)

structure Draft where
  entry : Address
  linkage : Linkage
  leaders : List Address
  edges : List Edge
  /-- The blocks that are finished, from the first on. -/
  pieces : List Piece

namespace Draft

/-- The phis of a block. The first block has none. -/
def leading : Nat → List ValueId
  | 0 => []
  | position + 1 => (seeds ⟨position + 1⟩).toList

def block (draft : Draft) (index : Nat) : Block where
  label := if index = 0 then "start" else s!"l_{Hex.word (draft.leaders.getD (index - 1) 0)}"
  insts := (leading index ++
    ((draft.pieces[index]?).map fun piece => placed piece.base piece.code).getD []).toArray
  terminator := (draft.pieces[index]?).map Piece.terminator

def function (draft : Draft) : Function where
  name := routineName draft.entry
  linkage := draft.linkage
  params := (seeds ⟨0⟩).toList
  result := .regs
  values := (seedValues draft.leaders (Edge.feeds draft.edges) ++
    draft.pieces.flatMap Piece.code).toArray
  blocks := ((List.range (draft.leaders.length + 1)).map draft.block).toArray

def size (draft : Draft) : Nat :=
  7 * (draft.leaders.length + 1) + (draft.pieces.flatMap Piece.code).length

def current (draft : Draft) : BlockId :=
  ⟨draft.pieces.length⟩

def addEdges (draft : Draft) (values : PerRegister ValueId) (targets : List BlockId) : Draft :=
  { draft with
    edges := draft.edges ++ targets.map fun target => ⟨draft.current, target, values⟩ }

def finish (draft : Draft) (code : List Value) (terminator : Terminator) : Draft :=
  { draft with pieces := draft.pieces ++ [⟨draft.size, code, terminator⟩] }

end Draft

/-! Parameters and phis -/

@[simp] theorem length_seedValues (leaders : List Address) (feeds : Feeds) :
    (seedValues leaders feeds).length = 7 * (leaders.length + 1) := by
  simp [seedValues]

theorem getElem?_seedValues {leaders : List Address} {feeds : Feeds} {index : Nat}
    (hindex : index < 7 * (leaders.length + 1)) :
    (seedValues leaders feeds)[index]? = some (seedValue leaders feeds index) := by
  unfold seedValues
  rw [List.getElem?_map, List.getElem?_range hindex, Option.map_some]

@[simp] theorem get_seeds (block : BlockId) (register : Register) :
    (seeds block).get register = ⟨7 * block.index + register.index⟩ :=
  PerRegister.get_ofFn _ register

theorem seed_position (block : Nat) (register : Register) :
    (7 * block + register.index) / 7 = block ∧
      (7 * block + register.index) % 7 = register.index := by
  have hindex := register.index_lt
  omega

theorem seedValue_param (leaders : List Address) (feeds : Feeds) (register : Register) :
    seedValue leaders feeds register.index =
      ⟨.param register.index, register.type, some register.name⟩ := by
  rcases register with holder | condition
  · cases holder <;> rfl
  · cases condition <;> rfl

theorem seedValue_phi (leaders : List Address) (feeds : Feeds) (position : Nat)
    (register : Register) :
    seedValue leaders feeds (7 * (position + 1) + register.index) =
      ⟨.phi (feeds (position + 1) register), register.type,
        some (RegisterFile.phiName register (leaders.getD position 0))⟩ := by
  obtain ⟨hblock, hregister⟩ := seed_position (position + 1) register
  unfold seedValue
  rw [hblock, hregister, Register.ofIndex_index]

theorem seed_lt {leaders : List Address} {block : Nat} (register : Register)
    (hblock : block < leaders.length + 1) :
    7 * block + register.index < 7 * (leaders.length + 1) := by
  have hindex := register.index_lt
  omega

/-! Edges -/

def Feeds.add (feeds : Feeds) (block : Nat) (register : Register)
    (entry : ValueId × BlockId) : Feeds := fun other register' =>
  if other = block ∧ register' = register then feeds other register' ++ [entry]
  else feeds other register'

theorem seedValues_set {leaders : List Address} (feeds : Feeds) (position : Nat)
    (register : Register) (entry : ValueId × BlockId) :
    (seedValues leaders feeds).set (7 * (position + 1) + register.index)
        ⟨.phi (feeds (position + 1) register ++ [entry]), register.type,
          some (RegisterFile.phiName register (leaders.getD position 0))⟩ =
      seedValues leaders (feeds.add (position + 1) register entry) := by
  apply List.ext_getElem?
  intro index
  unfold seedValues
  rw [List.getElem?_set, List.getElem?_map, List.getElem?_map, List.length_map, List.length_range]
  by_cases hlt : index < 7 * (leaders.length + 1)
  · rw [List.getElem?_range hlt, Option.map_some, Option.map_some]
    by_cases hindex : 7 * (position + 1) + register.index = index
    · subst hindex
      rw [if_pos rfl, if_pos hlt, seedValue_phi]
      simp [Feeds.add]
    · rw [if_neg hindex]
      -- Another index belongs to another block or to another register.
      unfold seedValue
      cases hblock : index / 7 with
      | zero => rfl
      | succ other =>
          have hother : ¬(other + 1 = position + 1 ∧ Register.ofIndex (index % 7) = register) := by
            rintro ⟨hsame, rfl⟩
            rw [Register.index_ofIndex (Nat.mod_lt _ (by omega))] at hindex
            omega
          simp only [Feeds.add, hother, if_false]
  · have hnone : (List.range (7 * (leaders.length + 1)))[index]? = none := by
      rw [List.getElem?_eq_none_iff, List.length_range]
      omega
    rw [hnone]
    split
    · rename_i hindex
      rw [if_neg (by omega)]
      rfl
    · rfl

namespace Builder

theorem addIncoming_eq {function : Function} {phi value : ValueId} {source : BlockId}
    {incoming : List (ValueId × BlockId)} {type : Ty} {name : Option String}
    (hphi : function.values[phi.index]? = some ⟨.phi incoming, type, name⟩) :
    Builder.addIncoming phi value source function = .ok ((),
      { function with
        values := function.values.setIfInBounds phi.index
          ⟨.phi (incoming ++ [(value, source)]), type, name⟩ }) := by
  unfold Builder.addIncoming
  rw [hphi]

end Builder

theorem addIncoming_seeds {function : Function} {leaders : List Address} {feeds : Feeds}
    {tail : List Value} {position : Nat} (hposition : position < leaders.length)
    (hvalues : function.values = (seedValues leaders feeds ++ tail).toArray)
    (register : Register) (value : ValueId) (source : BlockId) :
    Builder.addIncoming ((seeds ⟨position + 1⟩).get register) value source function = .ok ((),
      { function with values := (seedValues leaders
          (feeds.add (position + 1) register (value, source)) ++ tail).toArray }) := by
  have hlt := seed_lt register (Nat.succ_lt_succ hposition)
  have hphi : function.values[((seeds ⟨position + 1⟩).get register).index]? =
      some ⟨.phi (feeds (position + 1) register), register.type,
        some (RegisterFile.phiName register (leaders.getD position 0))⟩ := by
    rw [hvalues, get_seeds, List.getElem?_toArray,
      List.getElem?_append_left (by rw [length_seedValues]; exact hlt),
      getElem?_seedValues hlt, seedValue_phi]
  rw [Builder.addIncoming_eq hphi, hvalues, get_seeds, List.setIfInBounds_toArray,
    List.set_append_left _ _ (by rw [length_seedValues]; exact hlt), seedValues_set]

theorem addIncoming_forM {function : Function} {leaders : List Address} {feeds : Feeds}
    {tail : List Value} {position : Nat} (hposition : position < leaders.length)
    (hvalues : function.values = (seedValues leaders feeds ++ tail).toArray)
    (values : PerRegister ValueId) (source : BlockId) (taken : List Register) :
    taken.forM (fun register => Builder.addIncoming ((seeds ⟨position + 1⟩).get register)
        (values.get register) source) function = .ok ((),
      { function with values := (seedValues leaders (taken.foldl (fun feeds register =>
          feeds.add (position + 1) register (values.get register, source)) feeds) ++
        tail).toArray }) := by
  induction taken generalizing function feeds with
  | nil =>
      rw [List.foldl_nil, ← hvalues]
      rfl
  | cons register rest ih =>
      exact (StateT.bind_of_ok (addIncoming_seeds hposition hvalues register
        (values.get register) source)).trans (ih rfl)

theorem Edge.feeds_concat (edges : List Edge) (source : BlockId) (position : Nat)
    (values : PerRegister ValueId) :
    Register.all.foldl (fun feeds register =>
        feeds.add (position + 1) register (values.get register, source)) (Edge.feeds edges) =
      Edge.feeds (edges ++ [⟨source, ⟨position + 1⟩, values⟩]) := by
  funext block register
  unfold Edge.feeds Feeds.add
  by_cases hblock : block = position + 1
  · subst hblock
    rcases register with holder | condition
    · cases holder <;> simp [Register.all, List.filter_append]
    · cases condition <;> simp [Register.all, List.filter_append]
  · simp [Register.all, List.filter_append, hblock, Ne.symm hblock]

namespace Draft

variable (draft : Draft) (code : List Value)

/-- The block of a leader, by the position of the leader. -/
def site (position : Nat) : Site where
  block := ⟨position + 1⟩
  registers := { phis := seeds ⟨position + 1⟩, values := seeds ⟨position + 1⟩ }

@[simp] theorem values_size_function : draft.function.values.size = draft.size := by
  simp [function, size]

@[simp] theorem blocks_size_function :
    draft.function.blocks.size = draft.leaders.length + 1 := by
  simp [function]

@[simp] theorem size_addEdges (values : PerRegister ValueId) (targets : List BlockId) :
    (draft.addEdges values targets).size = draft.size := rfl

theorem addEdges_nil (values : PerRegister ValueId) : draft.addEdges values [] = draft := by
  simp [addEdges]

theorem addEdges_addEdges (values : PerRegister ValueId) (first second : List BlockId) :
    (draft.addEdges values first).addEdges values second =
      draft.addEdges values (first ++ second) := by
  simp [addEdges, current]

theorem receive_append {position : Nat} (hposition : position < draft.leaders.length)
    (values : PerRegister ValueId) :
    (site position).registers.receive values draft.current
        (draft.function.append draft.current code) = .ok ((),
      (draft.addEdges values [⟨position + 1⟩]).function.append draft.current code) := by
  have hvalues : (draft.function.append draft.current code).values =
      (seedValues draft.leaders (Edge.feeds draft.edges) ++
        (draft.pieces.flatMap Piece.code ++ code)).toArray := by
    simp [Function.append, function]
  have hadded : ((draft.addEdges values [⟨position + 1⟩]).function.append
      draft.current code).values = (seedValues draft.leaders (Edge.feeds
        (draft.edges ++ [⟨draft.current, ⟨position + 1⟩, values⟩])) ++
        (draft.pieces.flatMap Piece.code ++ code)).toArray := by
    simp [Function.append, function, addEdges]
  refine (addIncoming_forM hposition hvalues values draft.current Register.all).trans ?_
  rw [Edge.feeds_concat, ← hadded]
  simp only [Function.append, values_size_function, size_addEdges]
  rfl

theorem getElem?_values_lt {index : Nat} (hindex : index < 7 * (draft.leaders.length + 1)) :
    draft.function.values[index]? =
      some (seedValue draft.leaders (Edge.feeds draft.edges) index) := by
  unfold function
  rw [List.getElem?_toArray,
    List.getElem?_append_left (by rw [length_seedValues]; exact hindex)]
  exact getElem?_seedValues hindex

theorem getElem?_values_param (register : Register) :
    draft.function.values[register.index]? =
      some ⟨.param register.index, register.type, some register.name⟩ := by
  have hindex := register.index_lt
  rw [getElem?_values_lt draft (by omega), seedValue_param]

theorem getElem?_values_phi {position : Nat} (hposition : position < draft.leaders.length)
    (register : Register) :
    draft.function.values[7 * (position + 1) + register.index]? =
      some ⟨.phi (Edge.feeds draft.edges (position + 1) register), register.type,
        some (RegisterFile.phiName register (draft.leaders.getD position 0))⟩ := by
  rw [getElem?_values_lt draft (seed_lt register (Nat.succ_lt_succ hposition)), seedValue_phi]

theorem getElem?_blocks {index : Nat} (hindex : index < draft.leaders.length + 1) :
    draft.function.blocks[index]? = some (draft.block index) := by
  unfold function
  rw [List.getElem?_toArray, List.getElem?_map, List.getElem?_range hindex, Option.map_some]

theorem block_unfinished {index : Nat} (hindex : draft.pieces.length ≤ index) :
    draft.block index =
      { label := (draft.block index).label, insts := (leading index).toArray } := by
  unfold block
  rw [List.getElem?_eq_none hindex]
  simp

theorem block_finish_self (terminator : Terminator) :
    (draft.finish code terminator).block draft.pieces.length =
      { label := (draft.block draft.pieces.length).label
        insts := (leading draft.pieces.length ++ placed draft.size code).toArray
        terminator := some terminator } := by
  simp [finish, block]

theorem block_finish_other (terminator : Terminator) {index : Nat}
    (hindex : index ≠ draft.pieces.length) :
    (draft.finish code terminator).block index = draft.block index := by
  have hpiece : (draft.finish code terminator).pieces[index]? = draft.pieces[index]? := by
    unfold finish
    rcases Nat.lt_or_gt_of_ne hindex with hlt | hgt
    · exact List.getElem?_append_left hlt
    · rw [List.getElem?_eq_none (by simp; omega), List.getElem?_eq_none (by omega)]
  unfold block
  rw [hpiece]
  rfl

theorem terminate_append (terminator : Terminator)
    (hblock : draft.pieces.length < draft.leaders.length + 1) :
    Builder.terminate draft.current terminator (draft.function.append draft.current code) =
      .ok ((), (draft.finish code terminator).function) := by
  have hself := Function.append_block_self draft.function draft.current code
  unfold current at hself ⊢
  rw [getElem?_blocks draft hblock, draft.block_unfinished (Nat.le_refl _),
    values_size_function] at hself
  have hvalues : (draft.function.append ⟨draft.pieces.length⟩ code).values =
      (draft.finish code terminator).function.values := by
    simp [Function.append, function, finish]
  have hblocks : (draft.function.append ⟨draft.pieces.length⟩ code).blocks.setIfInBounds
      draft.pieces.length
      { label := (draft.block draft.pieces.length).label
        insts := (leading draft.pieces.length ++ placed draft.size code).toArray
        terminator := some terminator } =
      (draft.finish code terminator).function.blocks := by
    apply Array.ext_getElem?
    intro index
    rw [Array.getElem?_setIfInBounds]
    by_cases hindex : draft.pieces.length = index
    · subst hindex
      rw [if_pos rfl, if_pos (by simpa using hblock),
        getElem?_blocks (draft.finish code terminator) hblock, block_finish_self]
    · rw [if_neg hindex, Function.append_block_other _ _ _ (Ne.symm hindex)]
      by_cases hlt : index < draft.leaders.length + 1
      · rw [getElem?_blocks draft hlt, getElem?_blocks (draft.finish code terminator) hlt,
          block_finish_other _ _ _ (Ne.symm hindex)]
      · rw [Array.getElem?_eq_none (by simpa using hlt),
          Array.getElem?_eq_none (by simpa [finish] using hlt)]
  unfold Builder.terminate
  rw [hself]
  simp only [Option.map_some, Option.isSome_none, Bool.false_eq_true, if_false,
    List.append_toArray]
  rw [hblocks, hvalues]
  rfl

end Draft

end Lift6502
