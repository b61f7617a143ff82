import Lift6502.Proofs.ControlFlow
import Lift6502.Proofs.General
import Lift6502.Proofs.Routine.Draft
import Mathlib.Data.List.Sort
import Mathlib.Data.List.TakeWhile

/-! The blocks of a routine as they are laid out before any code is added. -/

namespace Lift6502

open Ssa

/-! Phis of one block -/

def emptyPhi (leader : Address) (register : Register) : Value :=
  ⟨.phi [], register.type, some (RegisterFile.phiName register leader)⟩

/-- A function with one more block, which has the phis of some registers. -/
def seeded (function : Function) (leader : Address) (taken : List Register) : Function :=
  { function with
    values := function.values ++ (taken.map (emptyPhi leader)).toArray
    blocks := function.blocks.push
      { label := s!"l_{Hex.word leader}"
        insts := ((List.range taken.length).map fun position =>
          ⟨function.values.size + position⟩).toArray } }

theorem insertPhi_eq {values : Array Value} {phi : ValueId} {block : Block}
    (hphis : ∀ id ∈ block.insts, Builder.isPhiIn values id = true) :
    Builder.insertPhi values phi block = { block with insts := block.insts.push phi } := by
  have htake : block.insts.takeWhile (Builder.isPhiIn values) = block.insts := by
    have hlist : block.insts.toList.takeWhile (Builder.isPhiIn values) = block.insts.toList :=
      List.takeWhile_eq_self_iff.mpr fun id hid => hphis id (Array.mem_toList_iff.mp hid)
    calc block.insts.takeWhile (Builder.isPhiIn values)
        = (block.insts.toList.takeWhile (Builder.isPhiIn values)).toArray := by
          rw [← List.takeWhile_toArray, Array.toArray_toList]
      _ = block.insts := by rw [hlist, Array.toArray_toList]
  unfold Builder.insertPhi
  simp [htake]

theorem isPhiIn_seeded (function : Function) (leader : Address) (taken : List Register)
    (register : Register) {id : ValueId}
    (hid : id ∈ ((List.range taken.length).map fun position =>
      (⟨function.values.size + position⟩ : ValueId)).toArray) :
    Builder.isPhiIn ((seeded function leader taken).values.push (emptyPhi leader register)) id =
      true := by
  obtain ⟨position, hposition, rfl⟩ := List.mem_map.mp (List.mem_toArray.mp hid)
  have hlt : position < taken.length := List.mem_range.mp hposition
  have hvalue : ((seeded function leader taken).values.push
      (emptyPhi leader register))[function.values.size + position]? =
      some (emptyPhi leader taken[position]) := by
    rw [Array.getElem?_push, if_neg (by simp [seeded]; omega)]
    unfold seeded
    rw [Array.getElem?_append_right (Nat.le_add_right _ _), Nat.add_sub_cancel_left]
    simp [hlt]
  unfold Builder.isPhiIn
  rw [hvalue]
  rfl

theorem addPhi_seeded (function : Function) (leader : Address) (taken : List Register)
    (register : Register) :
    Builder.addPhi ⟨function.blocks.size⟩ register.type (RegisterFile.phiName register leader)
        (seeded function leader taken) =
      .ok (⟨function.values.size + taken.length⟩,
        seeded function leader (taken ++ [register])) := by
  have hphis : ∀ id ∈ _, Builder.isPhiIn _ id = true :=
    fun _ => isPhiIn_seeded function leader taken register
  have hblock : function.blocks.size < (seeded function leader taken).blocks.size := by
    simp [seeded]
  have hsize : (seeded function leader taken).values.size =
      function.values.size + taken.length := by
    simp [seeded]
  have hpushed : (seeded function leader taken).values.push (emptyPhi leader register) =
      (seeded function leader (taken ++ [register])).values := by
    simp [seeded]
  have hblocks : (seeded function leader taken).blocks.modify function.blocks.size
      (Builder.insertPhi ((seeded function leader taken).values.push (emptyPhi leader register))
        ⟨function.values.size + taken.length⟩) =
      (seeded function leader (taken ++ [register])).blocks := by
    unfold seeded at hphis ⊢
    rw [Array.modify_push_size, insertPhi_eq hphis]
    simp [List.range_succ]
  have hpush : Builder.push (.phi []) register.type
      (some (RegisterFile.phiName register leader)) (seeded function leader taken) =
      .ok (⟨function.values.size + taken.length⟩,
        { seeded function leader taken with
          values := (seeded function leader taken).values.push (emptyPhi leader register) }) := by
    unfold Builder.push
    rw [hsize]
    rfl
  have hmodify : Builder.modifyBlock ⟨function.blocks.size⟩
      (Builder.insertPhi ((seeded function leader taken).values.push (emptyPhi leader register))
        ⟨function.values.size + taken.length⟩)
      { seeded function leader taken with
        values := (seeded function leader taken).values.push (emptyPhi leader register) } =
      .ok ((), seeded function leader (taken ++ [register])) := by
    unfold Builder.modifyBlock
    rw [if_pos hblock, hblocks, hpushed]
    rfl
  unfold Builder.addPhi
  rw [StateT.bind_of_ok hpush, StateT.bind_of_ok rfl, StateT.bind_of_ok hmodify]
  rfl

theorem seed_seeded (function : Function) (leader : Address) :
    RegisterFile.seed ⟨function.blocks.size⟩ leader (seeded function leader []) =
      .ok ({ phis := PerRegister.ofFn fun register => ⟨function.values.size + register.index⟩
             values := PerRegister.ofFn fun register => ⟨function.values.size + register.index⟩ },
        seeded function leader Register.all) := by
  have hphi := addPhi_seeded function leader
  unfold RegisterFile.seed PerRegister.ofFnM
  simp only [bind_assoc]
  rw [StateT.bind_of_ok (hphi [] (.byte .a)), StateT.bind_of_ok (hphi _ (.byte .x)),
    StateT.bind_of_ok (hphi _ (.byte .y)), StateT.bind_of_ok (hphi _ (.flag .n)),
    StateT.bind_of_ok (hphi _ (.flag .v)), StateT.bind_of_ok (hphi _ (.flag .z)),
    StateT.bind_of_ok (hphi _ (.flag .c))]
  rfl

theorem addSite_eq (function : Function) (leader : Address) :
    Decoder.addSite leader function =
      .ok ({ block := ⟨function.blocks.size⟩
             registers :=
              { phis := PerRegister.ofFn fun register => ⟨function.values.size + register.index⟩
                values := PerRegister.ofFn fun register =>
                  ⟨function.values.size + register.index⟩ } },
        seeded function leader Register.all) := by
  have hblock : Builder.addBlock s!"l_{Hex.word leader}" function =
      .ok (⟨function.blocks.size⟩, seeded function leader []) := by
    simp [Builder.addBlock, seeded]
  unfold Decoder.addSite
  rw [StateT.bind_of_ok hblock, StateT.bind_of_ok (seed_seeded function leader)]
  rfl

/-! All blocks -/

namespace Draft

/-- The draft of a routine before anything is added to its blocks. -/
def laidOut (entry : Address) (linkage : Linkage) (leaders : List Address) : Draft where
  entry := entry
  linkage := linkage
  leaders := leaders
  edges := []
  pieces := []

variable (entry : Address) (linkage : Linkage)

theorem seedValues_concat (leaders : List Address) (leader : Address) :
    seedValues (leaders ++ [leader]) (Edge.feeds []) =
      seedValues leaders (Edge.feeds []) ++ Register.all.map (emptyPhi leader) := by
  have hrange : (List.range 7 : List Nat) = Register.all.map Register.index := rfl
  have hsize : 7 * ((leaders ++ [leader]).length + 1) = 7 * (leaders.length + 1) + 7 := by
    rw [List.length_append, List.length_singleton]
    omega
  unfold seedValues
  rw [hsize, List.range_add, List.map_append]
  congr 1
  · refine List.map_congr_left fun index hindex => ?_
    have hlt := List.mem_range.mp hindex
    unfold seedValue
    cases hblock : index / 7 with
    | zero => rfl
    | succ position =>
        have hposition : position < leaders.length := by omega
        simp [List.getElem?_append_left hposition]
  · rw [hrange, List.map_map, List.map_map]
    refine List.map_congr_left fun register _ => ?_
    show seedValue _ _ (7 * (leaders.length + 1) + register.index) = _
    rw [seedValue_phi]
    simp [emptyPhi, Edge.feeds]

theorem seeded_laidOut (leaders : List Address) (leader : Address) :
    seeded (laidOut entry linkage leaders).function leader Register.all =
      (laidOut entry linkage (leaders ++ [leader])).function := by
  have hvalues : (seeded (laidOut entry linkage leaders).function leader Register.all).values =
      (laidOut entry linkage (leaders ++ [leader])).function.values := by
    simp [seeded, function, laidOut, seedValues_concat]
  have hsame : ∀ index ∈ List.range (leaders.length + 1),
      (laidOut entry linkage leaders).block index =
        (laidOut entry linkage (leaders ++ [leader])).block index := by
    intro index hindex
    have hlt := List.mem_range.mp hindex
    unfold block laidOut
    by_cases hzero : index = 0
    · simp [hzero]
    · simp [hzero, List.getElem?_append_left (show index - 1 < leaders.length by omega)]
  have hlast : (laidOut entry linkage (leaders ++ [leader])).block (leaders.length + 1) =
      { label := s!"l_{Hex.word leader}"
        insts := (seeds ⟨leaders.length + 1⟩).toList.toArray } := by
    simp [block, laidOut, leading]
  have hblocks : (seeded (laidOut entry linkage leaders).function leader Register.all).blocks =
      (laidOut entry linkage (leaders ++ [leader])).function.blocks := by
    show _ = ((List.range ((leaders ++ [leader]).length + 1)).map _).toArray
    rw [List.length_append, List.length_singleton, List.range_succ, List.map_append,
      List.map_singleton, hlast, ← List.map_congr_left hsame, ← List.push_toArray]
    simp only [seeded, values_size_function]
    rfl
  unfold seeded at hvalues hblocks ⊢
  simp only at hvalues hblocks ⊢
  rw [hvalues, hblocks]
  rfl

theorem addSite_laidOut (leaders : List Address) (leader : Address) :
    Decoder.addSite leader (laidOut entry linkage leaders).function =
      .ok (site leaders.length, (laidOut entry linkage (leaders ++ [leader])).function) := by
  rw [addSite_eq, seeded_laidOut, blocks_size_function, values_size_function]
  rfl

/-- The leaders with their blocks, from the position `first` on. -/
def sitesFrom (first : Nat) (leaders : List Address) : List (Address × Site) :=
  (leaders.zipIdx first).map fun (leader, position) => (leader, site position)

theorem addSites_laidOut (before rest : List Address) (sites : Sites) :
    Decoder.addSites rest sites (laidOut entry linkage before).function =
      .ok ((sitesFrom before.length rest).foldl (fun sites added => sites.insert added.1 added.2)
        sites, (laidOut entry linkage (before ++ rest)).function) := by
  induction rest generalizing before sites with
  | nil =>
      rw [List.append_nil]
      rfl
  | cons leader rest ih =>
      unfold Decoder.addSites
      rw [StateT.bind_of_ok (addSite_laidOut entry linkage before leader), ih]
      simp [sitesFrom]

def sites (leaders : List Address) : Sites :=
  (sitesFrom 0 leaders).foldl (fun sites added => sites.insert added.1 added.2) ∅

theorem layOut_eq (leaders : AddressSet) :
    Decoder.layOut leaders (Function.declare (routineName entry) linkage
        (Register.all.map fun register => (register.name, register.type)) .regs) =
      .ok ((⟨0⟩, sites leaders.toList), (laidOut entry linkage leaders.toList).function) := by
  have hstart : Builder.addBlock "start" (Function.declare (routineName entry) linkage
      (Register.all.map fun register => (register.name, register.type)) .regs) =
      .ok (⟨0⟩, (laidOut entry linkage []).function) := by
    with_unfolding_all rfl
  unfold Decoder.layOut
  rw [StateT.bind_of_ok hstart, StateT.bind_of_ok (addSites_laidOut entry linkage [] _ ∅)]
  rfl

/-! Looking up blocks -/

theorem mem_sitesFrom_iff {leaders : List Address} {first : Nat} {leader : Address} {found : Site} :
    (leader, found) ∈ sitesFrom first leaders ↔
      ∃ position, leaders[position]? = some leader ∧ found = site (first + position) := by
  unfold sitesFrom
  simp only [List.mem_map, Prod.mk.injEq, Prod.exists, List.mk_mem_zipIdx_iff_le_and_getElem?_sub]
  constructor
  · rintro ⟨member, index, ⟨hle, hmember⟩, rfl, rfl⟩
    exact ⟨index - first, hmember, by rw [Nat.add_sub_cancel' hle]⟩
  · rintro ⟨position, hposition, rfl⟩
    exact ⟨leader, first + position, ⟨Nat.le_add_right _ _, by simpa using hposition⟩, rfl, rfl⟩

theorem getElem?_foldl_insert {added : List (Address × Site)} (sites : Sites)
    (hdistinct : added.Pairwise fun first second => first.1 < second.1) (address : Address)
    (found : Site) :
    (added.foldl (fun sites next => sites.insert next.1 next.2) sites)[address]? = some found ↔
      (address, found) ∈ added ∨
        (∀ other, (address, other) ∉ added) ∧ sites[address]? = some found := by
  induction added generalizing sites with
  | nil => simp
  | cons next rest ih =>
      obtain ⟨hnext, hrest⟩ := List.pairwise_cons.mp hdistinct
      rw [List.foldl_cons, ih _ hrest, Std.TreeMap.getElem?_insert]
      simp only [Std.LawfulEqCmp.compare_eq_iff_eq]
      by_cases heq : next.1 = address
      · have hfresh : ∀ other, (address, other) ∉ rest := by
          intro other hother
          exact absurd (hnext _ hother) (heq ▸ UInt16.lt_irrefl _)
        rw [if_pos heq]
        simp only [hfresh, not_false_eq_true, implies_true, true_and, false_or, List.mem_cons,
          or_false, Option.some.injEq]
        constructor
        · intro hfound
          exact .inl (Prod.ext heq.symm hfound.symm)
        · rintro (hfound | ⟨hother, _⟩)
          · exact (congrArg Prod.snd hfound).symm
          · exact (hother next.2 (Prod.ext heq.symm rfl)).elim
      · have hne : ∀ other, (address, other) ≠ next := by
          rintro other rfl
          exact heq rfl
        rw [if_neg heq]
        simp only [List.mem_cons, hne, false_or]

theorem pairwise_sitesFrom {leaders : List Address} (first : Nat)
    (hsorted : leaders.Pairwise fun first second => first < second) :
    (sitesFrom first leaders).Pairwise fun first second => first.1 < second.1 := by
  unfold sitesFrom
  rw [List.pairwise_map]
  have hkeys : ((leaders.zipIdx first).map Prod.fst).Pairwise fun first second =>
      first < second := by
    rw [List.zipIdx_map_fst]
    exact hsorted
  exact List.pairwise_map.mp hkeys

variable {leaders : List Address} (hsorted : leaders.Pairwise fun first second => first < second)

include hsorted

theorem getElem?_sites_iff {leader : Address} {found : Site} :
    (sites leaders)[leader]? = some found ↔
      ∃ position, leaders[position]? = some leader ∧ found = site position := by
  unfold sites
  rw [getElem?_foldl_insert _ (pairwise_sitesFrom 0 hsorted), mem_sitesFrom_iff]
  simp

theorem toList_sites : (sites leaders).toList = sitesFrom 0 leaders := by
  have : Std.Antisymm fun first second : Address × Site => first.1 < second.1 :=
    ⟨fun _ _ hlt hgt => absurd hlt (UInt16.lt_asymm hgt)⟩
  have : Std.Irrefl fun first second : Address × Site => first.1 < second.1 :=
    ⟨fun _ => UInt16.lt_irrefl _⟩
  have hordered : (sites leaders).toList.Pairwise fun first second => first.1 < second.1 :=
    Std.TreeMap.ordered_keys_toList.imp fun hlt => Std.compare_eq_lt.mp hlt
  refine hordered.eq_of_mem_iff (pairwise_sitesFrom 0 hsorted) fun ⟨leader, found⟩ => ?_
  rw [Std.TreeMap.mem_toList_iff_getElem?_eq_some, getElem?_sites_iff hsorted,
    mem_sitesFrom_iff]
  simp

def blockOf (leaders : List Address) (leader : Address) : BlockId :=
  ⟨leaders.idxOf leader + 1⟩

theorem blockOf_eq {leader : Address} {position : Nat}
    (hleader : leaders[position]? = some leader) : blockOf leaders leader = ⟨position + 1⟩ := by
  have hnodup : leaders.Nodup := hsorted.imp fun hlt => UInt16.ne_of_lt hlt
  obtain ⟨_, rfl⟩ := List.getElem?_eq_some_iff.mp hleader
  unfold blockOf
  rw [hnodup.idxOf_getElem]

end Draft

end Lift6502
