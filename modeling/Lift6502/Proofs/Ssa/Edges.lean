import Lift6502.Ssa.Module
import Lift6502.Proofs.General

/-! The edges between the blocks of a function, and what the check of a
function finds if they lead to blocks and phis match them. -/

namespace Lift6502.Ssa

theorem VerifyError.ofFault_ok {α : Type} (value : α) : ofFault (.ok value) = .ok value :=
  rfl

/-- An id where a block lists it. -/
structure Spot where
  index : Nat
  block : Block
  id : ValueId

namespace Function

/-- The edges of a function, each with its source and its target. -/
def edges (function : Function) : List (BlockId × BlockId) :=
  function.blocks.toList.zipIdx.flatMap fun (block, index) =>
    block.successors.map fun target => (⟨index⟩, target)

/-- The sources of those edges that lead to a block. -/
def sources (edges : List (BlockId × BlockId)) (target : Nat) : List BlockId :=
  (edges.filter fun edge => edge.2.index == target).map Prod.fst

def sourcesOfAll (count : Nat) (edges : List (BlockId × BlockId)) : Array (List BlockId) :=
  ((List.range count).map (sources edges)).toArray

def addEdge (found : Array (List BlockId)) (edge : BlockId × BlockId) :
    Except Fault (Array (List BlockId)) :=
  if edge.2.index < found.size then
    .ok (found.modify edge.2.index fun edges => edges ++ [edge.1])
  else
    .error (.outOfBounds found.size edge.2.index)

theorem predecessors_eq_foldlM (function : Function) :
    function.predecessors =
      function.edges.foldlM addEdge (Array.replicate function.blocks.size []) := by
  unfold predecessors edges
  generalize Array.replicate function.blocks.size [] = found
  generalize function.blocks.toList.zipIdx = blocks
  induction blocks generalizing found with
  | nil => rfl
  | cons head rest ih =>
      rw [List.foldlM_cons, List.flatMap_cons, List.foldlM_append, List.foldlM_map]
      exact bind_congr fun found => ih found

theorem sources_concat (edges : List (BlockId × BlockId)) (edge : BlockId × BlockId)
    (target : Nat) :
    sources (edges ++ [edge]) target =
      if edge.2.index = target then sources edges target ++ [edge.1] else sources edges target := by
  unfold sources
  rw [List.filter_append, List.map_append]
  split
  · rename_i htarget
    simp [htarget]
  · rename_i htarget
    simp [htarget]

theorem addEdge_sourcesOfAll {count : Nat} (edges : List (BlockId × BlockId))
    {edge : BlockId × BlockId} (htarget : edge.2.index < count) :
    addEdge (sourcesOfAll count edges) edge = .ok (sourcesOfAll count (edges ++ [edge])) := by
  have hmodify : (sourcesOfAll count edges).modify edge.2.index (fun found => found ++ [edge.1]) =
      sourcesOfAll count (edges ++ [edge]) := by
    apply Array.ext
    · simp [sourcesOfAll]
    · intro index _ _
      rw [Array.getElem_modify]
      simp only [sourcesOfAll, List.getElem_toArray, List.getElem_map, List.getElem_range,
        sources_concat]
  unfold addEdge
  rw [if_pos (by simpa [sourcesOfAll] using htarget), hmodify]

/-- If every edge leads to a block, the sources of all edges are found. -/
theorem predecessors_eq {function : Function}
    (htargets : ∀ edge ∈ function.edges, edge.2.index < function.blocks.size) :
    function.predecessors = .ok (sourcesOfAll function.blocks.size function.edges) := by
  have hfold : ∀ (rest before : List (BlockId × BlockId)),
      (∀ edge ∈ rest, edge.2.index < function.blocks.size) →
      rest.foldlM addEdge (sourcesOfAll function.blocks.size before) =
        .ok (sourcesOfAll function.blocks.size (before ++ rest)) := by
    intro rest
    induction rest with
    | nil =>
        intro before _
        rw [List.append_nil]
        rfl
    | cons edge rest ih =>
        intro before hrest
        rw [List.foldlM_cons, addEdge_sourcesOfAll before (hrest edge List.mem_cons_self)]
        refine (ih (before ++ [edge]) fun other hother =>
          hrest other (List.mem_cons_of_mem _ hother)).trans ?_
        rw [List.append_assoc, List.singleton_append]
  have hstart : Array.replicate function.blocks.size [] =
      sourcesOfAll function.blocks.size [] := by
    apply Array.ext
    · simp [sourcesOfAll]
    · intro index _ _
      simp [sourcesOfAll, sources]
  rw [predecessors_eq_foldlM, hstart]
  exact hfold function.edges [] htargets

/-! The check of a function -/

theorem value_of_getElem? {function : Function} {id : ValueId} {value : Value}
    (hvalue : function.values[id.index]? = some value) : function.value id = .ok value := by
  rw [Function.value, hvalue]

theorem exists_valueName {function : Function} {id : ValueId} {value : Value}
    (hvalue : function.values[id.index]? = some value) :
    ∃ name, function.valueName id = .ok name := by
  rw [valueName, value_of_getElem? hvalue]
  cases hname : value.name with
  | some name => exact ⟨s!"%{name}", by simp [bind, Except.bind, hname, pure, Except.pure]⟩
  | none => exact ⟨s!"%v{id.index}", by simp [bind, Except.bind, hname, pure, Except.pure]⟩

theorem verifyPhi_eq_ok {function : Function} (block : Block) {edges : List BlockId}
    {id : ValueId} {value : Value} (hvalue : function.values[id.index]? = some value)
    (hphi : ∀ incoming, value.inst = .phi incoming → (incoming.map Prod.snd).Perm edges) :
    function.verifyPhi block edges id = .ok () := by
  unfold verifyPhi
  rw [value_of_getElem? hvalue]
  cases hinst : value.inst with
  | phi incoming =>
      have hperm := hphi incoming hinst
      have hlength : incoming.length = edges.length := by
        rw [← hperm.length_eq, List.length_map]
      obtain ⟨name, hname⟩ := exists_valueName hvalue
      simp [VerifyError.ofFault_ok, bind, Except.bind, hinst, hname, hlength,
        List.isPerm_iff.mpr hperm, pure, Except.pure]
  | _ => simp [VerifyError.ofFault_ok, bind, Except.bind, hinst, pure, Except.pure]

def spots (function : Function) : List Spot :=
  function.blocks.toList.zipIdx.flatMap fun (block, index) =>
    block.insts.toList.map fun id => ⟨index, block, id⟩

theorem mem_zipIdx_iff {function : Function} {block : Block} {index : Nat} :
    (block, index) ∈ function.blocks.toList.zipIdx ↔ function.blocks[index]? = some block := by
  rw [List.mem_zipIdx_iff_getElem?, Array.getElem?_toList]

theorem mem_spots_iff {function : Function} {spot : Spot} :
    spot ∈ function.spots ↔
      function.blocks[spot.index]? = some spot.block ∧ spot.id ∈ spot.block.insts.toList := by
  unfold spots
  rw [List.mem_flatMap]
  constructor
  · rintro ⟨⟨block, index⟩, hblock, hspot⟩
    obtain ⟨id, hid, rfl⟩ := List.mem_map.mp hspot
    exact ⟨mem_zipIdx_iff.mp hblock, hid⟩
  · rintro ⟨hblock, hid⟩
    exact ⟨_, mem_zipIdx_iff.mpr hblock, List.mem_map.mpr ⟨spot.id, hid, rfl⟩⟩

def verifySpot (function : Function) (spot : Spot) : Except VerifyError Unit :=
  function.verifyPhi spot.block (sources function.edges spot.index) spot.id

theorem unterminated?_eq_none_iff {function : Function} :
    function.unterminated? = none ↔ ∀ block ∈ function.blocks, block.terminator ≠ none := by
  unfold unterminated?
  rw [Array.find?_eq_none]
  simp only [Option.isNone_iff_eq_none, ne_eq]

/-- If blocks are terminated and edges lead to blocks, every listed id is
checked in turn. -/
theorem verify_eq_forM {function : Function}
    (hterminated : ∀ block ∈ function.blocks, block.terminator ≠ none)
    (htargets : ∀ edge ∈ function.edges, edge.2.index < function.blocks.size) :
    function.verify = function.spots.forM function.verifySpot := by
  have hzip : function.blocks.toList.zip
      (sourcesOfAll function.blocks.size function.edges).toList =
      function.blocks.toList.zipIdx.map fun pair => (pair.1, sources function.edges pair.2) := by
    apply List.ext_getElem
    · simp [sourcesOfAll]
    · intro index _ _
      simp [sourcesOfAll]
  unfold verify
  rw [unterminated?_eq_none_iff.mpr hterminated, predecessors_eq htargets]
  show (function.blocks.toList.zip _).forM _ = _
  rw [hzip]
  unfold spots
  rw [List.forM_flatMap]
  simp only [List.forM_eq_forM, List.forM_map]
  rfl

/-- A function passes its check if its blocks are terminated, its edges lead
to blocks, and its phis have entries for just these edges. -/
theorem verify_eq_ok {function : Function}
    (hterminated : ∀ block ∈ function.blocks.toList, block.terminator.isSome = true)
    (htargets : ∀ edge ∈ function.edges, edge.2.index < function.blocks.size)
    (hphis : ∀ (index : Nat) (block : Block), function.blocks[index]? = some block →
      ∀ id ∈ block.insts.toList, ∃ value, function.values[id.index]? = some value ∧
        ∀ incoming, value.inst = .phi incoming →
          (incoming.map Prod.snd).Perm (sources function.edges index)) :
    function.verify = .ok () := by
  have hset : ∀ block ∈ function.blocks, block.terminator ≠ none := fun block hblock =>
    Option.isSome_iff_ne_none.mp (hterminated block (Array.mem_toList_iff.mpr hblock))
  rw [verify_eq_forM hset htargets]
  apply List.forM_eq_ok_iff.mpr
  intro spot hspot
  obtain ⟨hblock, hid⟩ := mem_spots_iff.mp hspot
  obtain ⟨value, hvalue, hphi⟩ := hphis spot.index spot.block hblock spot.id hid
  exact verifyPhi_eq_ok spot.block hvalue hphi

end Function

/-! The check of a module -/

namespace Module

theorem verifySymbols_eq_ok_iff {module : Module} {function : Function} :
    module.verifySymbols function = .ok () ↔
      ∀ value ∈ function.values, module.undeclared? value.inst = none := by
  simp only [← Array.mem_toList_iff]
  rw [← List.findSome?_eq_none_iff]
  unfold verifySymbols
  constructor
  · intro hpasses
    split at hpasses
    · cases hpasses
    · assumption
  · intro hnone
    rw [hnone]

theorem verify_eq_ok_iff {module : Module} :
    module.verify = .ok () ↔ ∀ function ∈ module.functions.toList,
      function.verify = .ok () ∧ module.verifySymbols function = .ok () := by
  constructor
  · intro hpasses function hfunction
    have hcheck := List.forM_eq_ok_iff.mp hpasses function hfunction
    cases hown : function.verify with
    | ok =>
        rw [hown] at hcheck
        exact ⟨rfl, hcheck⟩
    | error failure =>
        rw [hown] at hcheck
        cases hcheck
  · intro hmembers
    apply List.forM_eq_ok_iff.mpr
    intro function hfunction
    obtain ⟨hown, hsymbols⟩ := hmembers function hfunction
    rw [hown]
    exact hsymbols

/-- If the functions pass their own checks, only a symbol can be missing. -/
theorem verify_ne_fault {module : Module}
    (hfunctions : ∀ function ∈ module.functions.toList, function.verify = .ok ())
    (fault : Fault) : module.verify ≠ .error (.fault fault) := by
  intro hfails
  obtain ⟨function, hfunction, hcheck⟩ := List.exists_of_forM_error hfails
  rw [hfunctions function hfunction] at hcheck
  have hsymbols : module.verifySymbols function = .error (.fault fault) := hcheck
  unfold verifySymbols at hsymbols
  split at hsymbols <;> cases hsymbols

theorem isCallable_of_verify {module : Module} (hverify : module.verify = .ok ())
    {function : Function} (hfunction : function ∈ module.functions.toList) {value : Value}
    (hvalue : value ∈ function.values) {callee : String} {args : List ValueId}
    (hcall : value.inst = .call callee args) : module.isCallable callee = true := by
  have hsymbols := (verify_eq_ok_iff.mp hverify function hfunction).2
  have hdeclared := verifySymbols_eq_ok_iff.mp hsymbols value hvalue
  rw [hcall] at hdeclared
  cases hcallable : module.isCallable callee with
  | true => rfl
  | false => simp [undeclared?, hcallable] at hdeclared

end Module

end Lift6502.Ssa
