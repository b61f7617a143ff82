import Lift6502.Proofs.Routine.Assembly
import Lift6502.Proofs.Ssa.Edges

/-! A function all of whose blocks have been built passes its check. -/

namespace Lift6502.Draft

open Ssa

variable {decoder : Decoder} {platform : Platform} {entry : Address} {linkage : Linkage}
  {leaders : List Address} {draft : Draft}

/-! Edges -/

/-- The edges that the terminators of finished blocks make. -/
def terminatorEdges (pieces : List Piece) : List (BlockId × BlockId) :=
  pieces.zipIdx.flatMap fun (piece, index) =>
    piece.terminator.successors.map fun target => (⟨index⟩, target)

theorem terminatorEdges_concat (pieces : List Piece) (piece : Piece) :
    terminatorEdges (pieces ++ [piece]) = terminatorEdges pieces ++
      piece.terminator.successors.map fun target => (⟨pieces.length⟩, target) := by
  unfold terminatorEdges
  rw [List.zipIdx_append, List.flatMap_append]
  simp

/-- The edges that values were handed on along are those of the
terminators. -/
theorem Built.edges_perm (hbuilt : Built decoder platform entry linkage leaders draft) :
    (draft.edges.map fun edge => (edge.source, edge.target)).Perm
      (terminatorEdges draft.pieces) := by
  induction hbuilt with
  | start hentry => exact List.Perm.refl _
  | block hbuilt hposition hleader hpasses hlowers hsound hends ih =>
      rename_i draft position leader address instructions code code' values targets terminator
      show ((draft.edges ++ targets.map fun target =>
        (⟨draft.current, target, values⟩ : Edge)).map fun edge => (edge.source, edge.target)).Perm
        (terminatorEdges (draft.pieces ++ [⟨draft.size, code', terminator⟩]))
      rw [List.map_append, List.map_map, terminatorEdges_concat]
      have hsuccessors := (hends.ended hsound).successors
      exact ih.append (hsuccessors.symm.map fun target => (draft.current, target))

theorem edges_function (hcomplete : draft.pieces.length = draft.leaders.length + 1) :
    draft.function.edges = terminatorEdges draft.pieces := by
  have hblocks : draft.function.blocks.toList.zipIdx =
      draft.pieces.zipIdx.map fun (piece, index) => (draft.block index, index) := by
    apply List.ext_getElem?
    intro index
    unfold function
    rw [List.getElem?_zipIdx, List.getElem?_map, List.getElem?_map, List.getElem?_zipIdx,
      ← hcomplete]
    by_cases hindex : index < draft.pieces.length
    · rw [List.getElem?_range hindex, List.getElem?_eq_getElem hindex]
      simp
    · rw [List.getElem?_eq_none (by simpa using hindex), List.getElem?_eq_none (by omega)]
      rfl
  unfold Function.edges terminatorEdges
  rw [hblocks, List.flatMap_map]
  refine List.flatMap_congr fun ⟨piece, index⟩ hpiece => ?_
  have hget : draft.pieces[index]? = some piece := List.mem_zipIdx_iff_getElem?.mp hpiece
  have hsuccessors : (draft.block index).successors = piece.terminator.successors := by
    unfold Block.successors block
    rw [hget]
    rfl
  simp only [hsuccessors]

/-! The check -/

theorem mem_leading_iff {index : Nat} {id : ValueId} :
    id ∈ leading index ↔ ∃ position register, index = position + 1 ∧
      id = (seeds ⟨position + 1⟩).get register := by
  cases index with
  | zero => simp [leading]
  | succ position =>
      show id ∈ (seeds ⟨position + 1⟩).toList ↔ _
      rw [PerRegister.toList_eq_map_all, List.mem_map]
      constructor
      · rintro ⟨register, _, rfl⟩
        exact ⟨position, register, rfl, rfl⟩
      · rintro ⟨_, register, heq, rfl⟩
        cases heq
        exact ⟨register, Register.mem_all register, rfl⟩

theorem map_snd_feeds (edges : List Edge) (block : Nat) (register : Register) :
    (Edge.feeds edges block register).map Prod.snd =
      Function.sources (edges.map fun edge => (edge.source, edge.target)) block := by
  unfold Edge.feeds Function.sources
  rw [List.filter_map, List.map_map, List.map_map]
  rfl

theorem Built.verify_eq_ok (hbuilt : Built decoder platform entry linkage leaders draft)
    (hcomplete : draft.pieces.length = draft.leaders.length + 1) :
    draft.function.verify = .ok () := by
  refine Function.verify_eq_ok ?_ ?_ ?_
  · intro block hblock
    obtain ⟨index, hindex, rfl⟩ := List.mem_map.mp hblock
    rw [List.mem_range, ← hcomplete] at hindex
    obtain ⟨before, code, values, targets, terminator, hfinished⟩ := hbuilt.exists_finished hindex
    rw [hfinished.terminator_eq]
    rfl
  · intro edge hedge
    rw [edges_function hcomplete, ← hbuilt.edges_perm.mem_iff] at hedge
    obtain ⟨found, hfound, rfl⟩ := List.mem_map.mp hedge
    obtain ⟨before, code, values, targets, terminator, hfinished⟩ :=
      hbuilt.exists_finished (hbuilt.source_lt hfound)
    have htarget := ((hfinished.mem_edges_iff rfl).mp hfound).1
    have hbound := (hfinished.ended.targets _ htarget).2
    rw [blocks_size_function, ← hfinished.leaders_eq]
    exact Nat.lt_succ_of_le hbound
  · intro index block hblock id hid
    have hindex := (Array.getElem?_eq_some_iff.mp hblock).1
    rw [blocks_size_function] at hindex
    rw [draft.getElem?_blocks hindex] at hblock
    cases hblock
    obtain ⟨before, code, values, targets, terminator, hfinished⟩ :=
      hbuilt.exists_finished (hcomplete ▸ hindex)
    rw [hfinished.insts] at hid
    rcases List.mem_append.mp hid with hid | hid
    · obtain ⟨position, register, rfl, rfl⟩ := mem_leading_iff.mp hid
      rw [get_seeds]
      refine ⟨_, draft.getElem?_values_phi (by omega) register, fun incoming hincoming => ?_⟩
      cases hincoming
      rw [map_snd_feeds, edges_function hcomplete]
      exact (hbuilt.edges_perm.filter _).map _
    · obtain ⟨position, value, hvalue, _, rfl⟩ := mem_placed_iff.mp hid
      refine ⟨value, hfinished.hosts hvalue, fun incoming hincoming => ?_⟩
      have hplain := (hfinished.ended.sound.plain value (List.mem_of_getElem? hvalue)).1
      rw [hincoming] at hplain
      cases hplain

end Lift6502.Draft
