import Lift6502.Proofs.Ssa.Arrangement
import Lift6502.Proofs.Ssa.Edges
import Mathlib.Data.Multiset.Defs

/-! What the checks of functions and modules find. A function that was built
step by step passes if it is sound, and otherwise its first defect is named:
a block without a terminator before any phi, and phis in the order in which
the blocks list them. -/

namespace Lift6502.Ssa

/-- The arms of a terminator that lead to a block. -/
def Terminator.armsTo (target : BlockId) : Terminator → Nat
  | .br next => if next = target then 1 else 0
  | .condBr _ ifTrue ifFalse =>
      (if ifTrue = target then 1 else 0) + if ifFalse = target then 1 else 0
  | .ret _ => 0

namespace Function

/-! Soundness and defects -/

/-- A phi has an entry for each edge into its block. Edges are counted as
often as a terminator names the block. -/
def Balanced (function : Function) (spot : Spot) : Prop :=
  ∀ value incoming, function.values[spot.id.index]? = some value →
    value.inst = .phi incoming →
      (incoming.map Prod.snd : Multiset BlockId) = sources function.edges spot.index

def TargetsExist (function : Function) : Prop :=
  ∀ block ∈ function.blocks, ∀ target ∈ block.successors, target.index < function.blocks.size

structure Sound (function : Function) : Prop where
  terminated : ∀ block ∈ function.blocks, block.terminator ≠ none
  targets : function.TargetsExist
  phis : ∀ spot ∈ function.spots, function.Balanced spot

/-- What is wrong with the phi at a spot: the number of its entries, or only
where they come from. -/
inductive Offends (function : Function) (spot : Spot) : Defect → Prop
  | arity {value : Value} {incoming : List (ValueId × BlockId)} {name : String}
      (hvalue : function.values[spot.id.index]? = some value)
      (hphi : value.inst = .phi incoming) (hname : function.valueName spot.id = .ok name)
      (hcount : incoming.length ≠ (sources function.edges spot.index).length) :
      Offends function spot (.phiArity function.name spot.block.label name incoming.length
        (sources function.edges spot.index).length)
  | sources {value : Value} {incoming : List (ValueId × BlockId)} {name : String}
      (hvalue : function.values[spot.id.index]? = some value)
      (hphi : value.inst = .phi incoming) (hname : function.valueName spot.id = .ok name)
      (hcount : incoming.length = (sources function.edges spot.index).length)
      (hdiffers : (incoming.map Prod.snd : Multiset BlockId) ≠
        sources function.edges spot.index) :
      Offends function spot (.phiSources function.name spot.block.label name)

inductive FirstDefect (function : Function) : Defect → Prop
  | unterminated {before after : List Block} {block : Block}
      (hblocks : function.blocks.toList = before ++ block :: after)
      (hbefore : ∀ earlier ∈ before, earlier.terminator ≠ none)
      (hblock : block.terminator = none) :
      FirstDefect function (.unterminated function.name block.label)
  | phi {before after : List Spot} {spot : Spot} {defect : Defect}
      (hterminated : ∀ block ∈ function.blocks, block.terminator ≠ none)
      (hspots : function.spots = before ++ spot :: after)
      (hbefore : ∀ earlier ∈ before, function.Balanced earlier)
      (hoffends : function.Offends spot defect) :
      FirstDefect function defect

/-! One phi -/

section Phi

variable {function : Function} {value : Value} {spot : Spot}
  (hvalue : function.values[spot.id.index]? = some value)

include hvalue

theorem verifySpot_of_plain (hplain : ∀ incoming, value.inst ≠ .phi incoming) :
    function.verifySpot spot = .ok () := by
  apply verifyPhi_eq_ok spot.block hvalue
  exact fun incoming hphi => absurd hphi (hplain incoming)

theorem verifySpot_of_phi {incoming : List (ValueId × BlockId)} {name : String}
    (hphi : value.inst = .phi incoming) (hname : function.valueName spot.id = .ok name) :
    function.verifySpot spot =
      if incoming.length ≠ (sources function.edges spot.index).length then
        .error (.defect (.phiArity function.name spot.block.label name incoming.length
          (sources function.edges spot.index).length))
      else if (incoming.map Prod.snd).isPerm (sources function.edges spot.index) = false then
        .error (.defect (.phiSources function.name spot.block.label name))
      else .ok () := by
  unfold verifySpot verifyPhi
  rw [value_of_getElem? hvalue, hname]
  simp only [VerifyError.ofFault_ok, bind, Except.bind, hphi]
  by_cases hcount : incoming.length = (sources function.edges spot.index).length
  · rw [if_neg (not_not_intro hcount), if_neg (not_not_intro hcount)]
    cases hperm : (incoming.map Prod.snd).isPerm (sources function.edges spot.index) <;> rfl
  · rw [if_pos hcount, if_pos hcount]
    rfl

theorem verifySpot_eq_ok_iff : function.verifySpot spot = .ok () ↔ function.Balanced spot := by
  constructor
  · intro hpasses found incoming hfound hphi
    cases hvalue.symm.trans hfound
    obtain ⟨name, hname⟩ := exists_valueName hvalue
    rw [verifySpot_of_phi hvalue hphi hname] at hpasses
    split at hpasses
    · cases hpasses
    · split at hpasses
      · cases hpasses
      · rename_i hperm
        rw [Multiset.coe_eq_coe, ← List.isPerm_iff]
        exact (Bool.not_eq_false _).mp hperm
  · intro hbalanced
    apply verifyPhi_eq_ok spot.block hvalue
    intro incoming hphi
    exact Multiset.coe_eq_coe.mp (hbalanced value incoming hvalue hphi)

theorem verifySpot_eq_error_iff {error : VerifyError} :
    function.verifySpot spot = .error error ↔
      ∃ defect, error = .defect defect ∧ function.Offends spot defect := by
  constructor
  · intro hfails
    by_cases hphi : ∃ incoming, value.inst = .phi incoming
    · obtain ⟨incoming, hphi⟩ := hphi
      obtain ⟨name, hname⟩ := exists_valueName hvalue
      rw [verifySpot_of_phi hvalue hphi hname] at hfails
      split at hfails
      · next hcount =>
          cases hfails
          exact ⟨_, rfl, .arity hvalue hphi hname hcount⟩
      · next hcount =>
          split at hfails
          · next hperm =>
              cases hfails
              refine ⟨_, rfl, .sources hvalue hphi hname (not_not.mp hcount) ?_⟩
              rw [ne_eq, Multiset.coe_eq_coe, ← List.isPerm_iff, hperm]
              exact Bool.false_ne_true
          · cases hfails
    · rw [verifySpot_of_plain hvalue fun incoming hinst => hphi ⟨incoming, hinst⟩] at hfails
      cases hfails
  · rintro ⟨_, rfl, hoffends⟩
    cases hoffends with
    | arity hfound hphi hname hcount =>
        rw [verifySpot_of_phi hfound hphi hname, if_pos hcount]
    | sources hfound hphi hname hcount hdiffers =>
        rw [ne_eq, Multiset.coe_eq_coe, ← List.isPerm_iff, Bool.not_eq_true] at hdiffers
        rw [verifySpot_of_phi hfound hphi hname, if_neg (not_not_intro hcount), if_pos hdiffers]

end Phi

/-! Targets -/

theorem mem_edges_iff {function : Function} {edge : BlockId × BlockId} :
    edge ∈ function.edges ↔ ∃ block, function.blocks[edge.1.index]? = some block ∧
      edge.2 ∈ block.successors := by
  unfold edges
  rw [List.mem_flatMap]
  constructor
  · rintro ⟨⟨block, index⟩, hblock, hedge⟩
    obtain ⟨target, htarget, rfl⟩ := List.mem_map.mp hedge
    exact ⟨block, mem_zipIdx_iff.mp hblock, htarget⟩
  · rintro ⟨block, hblock, htarget⟩
    exact ⟨_, mem_zipIdx_iff.mpr hblock, List.mem_map.mpr ⟨edge.2, htarget, rfl⟩⟩

theorem targetsExist_iff {function : Function} :
    function.TargetsExist ↔ ∀ edge ∈ function.edges, edge.2.index < function.blocks.size := by
  constructor
  · intro htargets edge hedge
    obtain ⟨block, hblock, htarget⟩ := mem_edges_iff.mp hedge
    exact htargets block (Array.mem_of_getElem? hblock) edge.2 htarget
  · intro hedges block hblock target htarget
    obtain ⟨index, hindex⟩ := Array.mem_iff_getElem?.mp hblock
    exact hedges (⟨index⟩, target) (mem_edges_iff.mpr ⟨block, hindex, htarget⟩)

theorem target_lt_of_foldlM {edges : List (BlockId × BlockId)} {found found' : Array (List BlockId)}
    (hruns : edges.foldlM addEdge found = .ok found') :
    ∀ edge ∈ edges, edge.2.index < found.size := by
  induction edges generalizing found with
  | nil =>
      intro edge hedge
      cases hedge
  | cons first rest ih =>
      rw [List.foldlM_cons] at hruns
      by_cases htarget : first.2.index < found.size
      · rw [addEdge, if_pos htarget] at hruns
        intro edge hedge
        rcases List.mem_cons.mp hedge with rfl | hedge
        · exact htarget
        · have hlater := ih hruns edge hedge
          rwa [Array.size_modify] at hlater
      · rw [addEdge, if_neg htarget] at hruns
        cases hruns

theorem targetsExist_of_predecessors {function : Function} {found : Array (List BlockId)}
    (hfound : function.predecessors = .ok found) : function.TargetsExist := by
  rw [predecessors_eq_foldlM] at hfound
  have htargets := target_lt_of_foldlM hfound
  rw [Array.size_replicate] at htargets
  exact targetsExist_iff.mpr htargets

/-! The check of a function -/

theorem unterminated?_eq_some_iff {function : Function} {block : Block} :
    function.unterminated? = some block ↔ ∃ before after,
      function.blocks.toList = before ++ block :: after ∧
      (∀ earlier ∈ before, earlier.terminator ≠ none) ∧ block.terminator = none := by
  unfold unterminated?
  rw [← Array.find?_toList, List.find?_eq_some_iff_append]
  simp only [Option.isNone_iff_eq_none, Bool.not_eq_true', Option.isNone_eq_false_iff,
    Option.isSome_iff_ne_none]
  constructor
  · rintro ⟨hblock, before, after, hblocks, hbefore⟩
    exact ⟨before, after, hblocks, hbefore, hblock⟩
  · rintro ⟨before, after, hblocks, hbefore, hblock⟩
    exact ⟨hblock, before, after, hblocks, hbefore⟩

theorem Arranged.exists_value {function : Function} (harranged : function.Arranged) {spot : Spot}
    (hspot : spot ∈ function.spots) :
    ∃ value, function.values[spot.id.index]? = some value := by
  obtain ⟨hblock, hid⟩ := mem_spots_iff.mp hspot
  have hlisted := mem_listed_of_mem (Array.mem_of_getElem? hblock) (Array.mem_toList_iff.mp hid)
  obtain ⟨value, hvalue, _⟩ := (harranged.mem_listed_iff spot.id).mp hlisted
  exact ⟨value, hvalue⟩

theorem Arranged.verify_eq_ok_iff {function : Function} (harranged : function.Arranged) :
    function.verify = .ok () ↔ function.Sound := by
  constructor
  · intro hpasses
    cases hopen : function.unterminated? with
    | some block =>
        rw [verify, hopen] at hpasses
        cases hpasses
    | none =>
        have hterminated := unterminated?_eq_none_iff.mp hopen
        cases hfound : function.predecessors with
        | error fault =>
            rw [verify, hopen, hfound] at hpasses
            cases hpasses
        | ok found =>
            have htargets := targetsExist_of_predecessors hfound
            rw [verify_eq_forM hterminated (targetsExist_iff.mp htargets)] at hpasses
            refine ⟨hterminated, htargets, fun spot hspot => ?_⟩
            obtain ⟨value, hvalue⟩ := harranged.exists_value hspot
            exact (verifySpot_eq_ok_iff hvalue).mp (List.forM_eq_ok_iff.mp hpasses spot hspot)
  · intro hsound
    rw [verify_eq_forM hsound.terminated (targetsExist_iff.mp hsound.targets)]
    apply List.forM_eq_ok_iff.mpr
    intro spot hspot
    obtain ⟨value, hvalue⟩ := harranged.exists_value hspot
    exact (verifySpot_eq_ok_iff hvalue).mpr (hsound.phis spot hspot)

theorem Arranged.verify_eq_error_iff {function : Function} (harranged : function.Arranged)
    (htargets : function.TargetsExist) (error : VerifyError) :
    function.verify = .error error ↔
      ∃ defect, error = .defect defect ∧ function.FirstDefect defect := by
  constructor
  · intro hfails
    cases hopen : function.unterminated? with
    | some block =>
        rw [verify, hopen] at hfails
        cases hfails
        obtain ⟨before, after, hblocks, hbefore, hblock⟩ := unterminated?_eq_some_iff.mp hopen
        exact ⟨_, rfl, .unterminated hblocks hbefore hblock⟩
    | none =>
        have hterminated := unterminated?_eq_none_iff.mp hopen
        rw [verify_eq_forM hterminated (targetsExist_iff.mp htargets)] at hfails
        obtain ⟨before, spot, after, hspots, hbefore, hspot⟩ := List.forM_eq_error_iff.mp hfails
        -- Every listed id has a value, so a check can only fail by a defect.
        have hvalue {other : Spot} (hother : other ∈ before ++ spot :: after) :=
          harranged.exists_value (hspots ▸ hother)
        obtain ⟨value, hfound⟩ := hvalue (List.mem_append_right _ List.mem_cons_self)
        obtain ⟨defect, rfl, hoffends⟩ := (verifySpot_eq_error_iff hfound).mp hspot
        refine ⟨defect, rfl, .phi hterminated hspots (fun earlier hearlier => ?_) hoffends⟩
        obtain ⟨value, hfound⟩ := hvalue (List.mem_append_left _ hearlier)
        exact (verifySpot_eq_ok_iff hfound).mp (hbefore earlier hearlier)
  · rintro ⟨_, rfl, hfirst⟩
    cases hfirst with
    | unterminated hblocks hbefore hblock =>
        rw [verify, unterminated?_eq_some_iff.mpr ⟨_, _, hblocks, hbefore, hblock⟩]
        rfl
    | phi hterminated hspots hbefore hoffends =>
        rw [verify_eq_forM hterminated (targetsExist_iff.mp htargets)]
        refine List.forM_eq_error_iff.mpr ⟨_, _, _, hspots, fun earlier hearlier => ?_, ?_⟩
        · obtain ⟨value, hfound⟩ := harranged.exists_value
            (hspots ▸ List.mem_append_left _ hearlier)
          exact (verifySpot_eq_ok_iff hfound).mpr (hbefore earlier hearlier)
        · obtain ⟨value, hfound⟩ := harranged.exists_value
            (hspots ▸ List.mem_append_right _ List.mem_cons_self)
          exact (verifySpot_eq_error_iff hfound).mpr ⟨_, rfl, hoffends⟩

/-! Edges that are counted -/

theorem Block.count_successors (block : Block) (target : BlockId) :
    block.successors.count target = block.terminator.elim 0 (Terminator.armsTo target) := by
  unfold Block.successors
  cases block.terminator with
  | none => rfl
  | some terminator =>
      cases terminator with
      | br next => simp [Terminator.successors, Terminator.armsTo, List.count_cons]
      | condBr cond ifTrue ifFalse =>
          simp [Terminator.successors, Terminator.armsTo, List.count_cons, Nat.add_comm]
      | ret value => rfl

theorem sources_append (first second : List (BlockId × BlockId)) (target : Nat) :
    sources (first ++ second) target = sources first target ++ sources second target := by
  unfold sources
  rw [List.filter_append, List.map_append]

theorem sources_map (source : BlockId) (successors : List BlockId) (target : BlockId) :
    sources (successors.map fun next => (source, next)) target.index =
      List.replicate (successors.count target) source := by
  induction successors with
  | nil => rfl
  | cons next rest ih =>
      rw [List.map_cons, ← List.singleton_append, sources_append, ih, List.count_cons]
      by_cases hnext : next = target
      · simp [sources, hnext, List.replicate_succ]
      · have hindex : next.index ≠ target.index := fun heq => hnext (congrArg BlockId.mk heq)
        simp [sources, hnext, hindex]

theorem count_sources_zipIdx (blocks : List Block) (start : Nat) (source target : BlockId) :
    (sources ((blocks.zipIdx start).flatMap fun (block, index) =>
      block.successors.map fun next => (⟨index⟩, next)) target.index).count source =
      if start ≤ source.index then
        (blocks[source.index - start]?.map fun block => block.successors.count target).getD 0
      else 0 := by
  induction blocks generalizing start with
  | nil => simp [sources]
  | cons block rest ih =>
      rw [List.zipIdx_cons, List.flatMap_cons, sources_append, List.count_append, sources_map, ih,
        List.count_replicate]
      obtain ⟨index⟩ := source
      rcases Nat.lt_trichotomy start index with hlt | rfl | hgt
      · have hnext : index - start = index - (start + 1) + 1 := by omega
        rw [hnext, List.getElem?_cons_succ, if_pos (Nat.succ_le_of_lt hlt), if_pos hlt.le]
        simp [hlt.ne]
      · simp
      · have hnext : ¬start + 1 ≤ index := by omega
        simp [hgt.ne', Nat.not_le.mpr hgt, hnext]

theorem count_sources (function : Function) (source target : BlockId) :
    (sources function.edges target.index).count source =
      (function.blocks[source.index]?.bind Block.terminator).elim 0
        (Terminator.armsTo target) := by
  refine (count_sources_zipIdx function.blocks.toList 0 source target).trans ?_
  rw [if_pos (Nat.zero_le _), Nat.sub_zero, Array.getElem?_toList]
  cases function.blocks[source.index]? with
  | none => rfl
  | some block => exact Block.count_successors block target

end Function

/-! The check of a module -/

namespace Module

/-- The module has what an instruction refers to. -/
def Resolves (module : Module) : Inst → Prop
  | .call callee _ => (∃ provided ∈ module.imports, provided.name = callee) ∨
      ∃ function ∈ module.functions, function.name = callee
  | .load symbol _ | .store symbol _ _ => ∃ global ∈ module.globals, global.name = symbol
  | _ => True

theorem undeclared?_eq_none_iff {module : Module} {inst : Inst} :
    module.undeclared? inst = none ↔ module.Resolves inst := by
  have hcallable (symbol : String) : module.isCallable symbol = true ↔
      (∃ provided ∈ module.imports, provided.name = symbol) ∨
        ∃ function ∈ module.functions, function.name = symbol := by
    simp only [isCallable, Bool.or_eq_true, Array.any_eq_true', beq_iff_eq]
  have hglobal (symbol : String) : module.isGlobal symbol = true ↔
      ∃ global ∈ module.globals, global.name = symbol := by
    simp only [isGlobal, Array.any_eq_true', beq_iff_eq]
  cases inst with
  | call callee args => simp [undeclared?, Resolves, ← hcallable]
  | load symbol index => simp [undeclared?, Resolves, ← hglobal]
  | store symbol index value => simp [undeclared?, Resolves, ← hglobal]
  | _ => simp [undeclared?, Resolves]

theorem verify_iff {module : Module} :
    module.verify = .ok () ↔ ∀ function ∈ module.functions, function.verify = .ok () ∧
      ∀ value ∈ function.values, module.Resolves value.inst := by
  rw [verify_eq_ok_iff]
  simp only [verifySymbols_eq_ok_iff, undeclared?_eq_none_iff, Array.mem_toList_iff]

end Module

end Lift6502.Ssa

namespace Lift6502.Action

open Ssa

/-- The check of a function that is built in any order of actions. It passes
if and only if the function is sound. If it fails though all targets exist, it
names the first defect. An edge counts as often as the terminator of its
source names its target. A module passes if and only if its functions do and
it has all that they refer to. -/
theorem verify_exact {name : String} {linkage : Linkage} {params : List (String × Ty)}
    {result : Ty} {actions : List Action} {function : Function}
    (hrun : actions.forM run (Function.declare name linkage params result) =
      .ok ((), function)) :
    (function.verify = .ok () ↔ function.Sound) ∧
      (function.TargetsExist → ∀ error, function.verify = .error error ↔
        ∃ defect, error = .defect defect ∧ function.FirstDefect defect) ∧
      (∀ source target : BlockId,
        (Function.sources function.edges target.index).count source =
          (function.blocks[source.index]?.bind Block.terminator).elim 0
            (Terminator.armsTo target)) ∧
      ∀ module : Module, module.verify = .ok () ↔
        ∀ member ∈ module.functions, member.verify = .ok () ∧
          ∀ value ∈ member.values, module.Resolves value.inst := by
  have harranged := arranged_forM hrun (Function.arranged_declare name linkage params result)
  exact ⟨harranged.verify_eq_ok_iff, harranged.verify_eq_error_iff, function.count_sources,
    fun _ => Module.verify_iff⟩

/-- Both arms of a terminator lead to the block of a phi with one entry. -/
def lackingEntry : List Action :=
  [.single (.addBlock "entry"), .single (.addBlock "join"), .single (.addPhi ⟨1⟩ .i8 "a"),
    .single (.terminate ⟨0⟩ (.condBr ⟨0⟩ ⟨1⟩ ⟨1⟩)), .single (.addIncoming ⟨1⟩ ⟨0⟩ ⟨0⟩),
    .single (.terminate ⟨1⟩ (.ret ⟨1⟩))]

def lackingEntryFunction : Function where
  name := "f"
  linkage := .external
  params := [⟨0⟩]
  result := .i8
  values := #[⟨.param 0, .i1, some "c"⟩, ⟨.phi [(⟨0⟩, ⟨0⟩)], .i8, some "a"⟩]
  blocks := #[{ label := "entry", terminator := some (.condBr ⟨0⟩ ⟨1⟩ ⟨1⟩) },
    { label := "join", insts := #[⟨1⟩], terminator := some (.ret ⟨1⟩) }]

theorem verify_lackingEntry :
    lackingEntry.forM run (Function.declare "f" .external [("c", .i1)] .i8) =
        .ok ((), lackingEntryFunction) ∧
      lackingEntryFunction.TargetsExist ∧ ¬lackingEntryFunction.Sound ∧
      lackingEntryFunction.FirstDefect (.phiArity "f" "join" "%a" 1 2) := by
  have hrun : lackingEntry.forM run (Function.declare "f" .external [("c", .i1)] .i8) =
      .ok ((), lackingEntryFunction) := by
    decide +kernel
  have htargets : lackingEntryFunction.TargetsExist := by
    simp [Function.TargetsExist, lackingEntryFunction, Block.successors, Terminator.successors]
  have hfails : lackingEntryFunction.verify =
      .error (.defect (.phiArity "f" "join" "%a" 1 2)) := by
    decide +kernel
  obtain ⟨hpasses, herror, _⟩ := verify_exact hrun
  obtain ⟨_, hdefect, hfirst⟩ := (herror htargets _).mp hfails
  cases hdefect
  refine ⟨hrun, htargets, fun hsound => ?_, hfirst⟩
  rw [hpasses.mpr hsound] at hfails
  cases hfails

end Lift6502.Action
