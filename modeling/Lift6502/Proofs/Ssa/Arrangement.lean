import Lift6502.Platform
import Lift6502.RegisterFile
import Lift6502.Proofs.Ssa.Construction

/-! How a function stands at any point of its construction. Blocks list their
phis first, every entry of the arena stands in one place or in none, and what
is there once is never changed but for the incoming values of phis. -/

namespace Lift6502

open Ssa

/-! Lists of ids in a block -/

/-- Phis and then other ids, both in ascending order. -/
structure PhisFirst (isPhi : ValueId → Bool) (ids : List ValueId) : Prop where
  lead : ids = ids.filter isPhi ++ ids.filter fun id => !isPhi id
  phis_ascend : (ids.filter isPhi).Pairwise fun first second => first.index < second.index
  others_ascend : (ids.filter fun id => !isPhi id).Pairwise fun first second =>
    first.index < second.index

namespace PhisFirst

variable {isPhi isPhi' : ValueId → Bool} {ids : List ValueId} {new : ValueId}

theorem nil : PhisFirst isPhi [] :=
  ⟨rfl, .nil, .nil⟩

theorem congr (hfirst : PhisFirst isPhi ids) (hsame : ∀ id ∈ ids, isPhi' id = isPhi id) :
    PhisFirst isPhi' ids := by
  have hphis : ids.filter isPhi' = ids.filter isPhi := List.filter_congr hsame
  have hothers : (ids.filter fun id => !isPhi' id) = ids.filter fun id => !isPhi id :=
    List.filter_congr fun id hid => by rw [hsame id hid]
  refine ⟨?_, ?_, ?_⟩
  · rw [hphis, hothers]
    exact hfirst.lead
  · rw [hphis]
    exact hfirst.phis_ascend
  · rw [hothers]
    exact hfirst.others_ascend

theorem takeWhile_eq (hfirst : PhisFirst isPhi ids) :
    ids.takeWhile isPhi = ids.filter isPhi := by
  have hphis : ∀ id ∈ ids.filter isPhi, isPhi id = true := fun id hid => (List.mem_filter.mp hid).2
  have hothers : (ids.filter fun id => !isPhi id).takeWhile isPhi = [] := by
    cases hrest : ids.filter fun id => !isPhi id with
    | nil => rfl
    | cons other rest =>
        have hmem : other ∈ ids.filter fun id => !isPhi id := by
          rw [hrest]
          exact List.mem_cons_self
        rw [List.takeWhile_cons_of_neg]
        simpa using (List.mem_filter.mp hmem).2
  calc ids.takeWhile isPhi
      = (ids.filter isPhi ++ ids.filter fun id => !isPhi id).takeWhile isPhi := by
        rw [← hfirst.lead]
    _ = ids.filter isPhi := by rw [List.takeWhile_append_of_pos hphis, hothers, List.append_nil]

theorem dropWhile_eq (hfirst : PhisFirst isPhi ids) :
    ids.dropWhile isPhi = ids.filter fun id => !isPhi id := by
  have hsplit : ids.takeWhile isPhi ++ ids.dropWhile isPhi =
      ids.filter isPhi ++ ids.filter fun id => !isPhi id := by
    rw [List.takeWhile_append_dropWhile]
    exact hfirst.lead
  rw [hfirst.takeWhile_eq] at hsplit
  exact List.append_cancel_left hsplit

theorem ascend_concat {ids : List ValueId}
    (hascend : ids.Pairwise fun first second => first.index < second.index)
    (hbelow : ∀ id ∈ ids, id.index < new.index) :
    (ids ++ [new]).Pairwise fun first second => first.index < second.index := by
  refine List.pairwise_append.mpr ⟨hascend, List.pairwise_singleton _ _, ?_⟩
  intro id hid last hlast
  cases List.mem_singleton.mp hlast
  exact hbelow id hid

theorem concat (hfirst : PhisFirst isPhi ids) (hnew : isPhi new = false)
    (hbelow : ∀ id ∈ ids, id.index < new.index) : PhisFirst isPhi (ids ++ [new]) := by
  have hphis : (ids ++ [new]).filter isPhi = ids.filter isPhi := by simp [hnew]
  have hothers : ((ids ++ [new]).filter fun id => !isPhi id) =
      (ids.filter fun id => !isPhi id) ++ [new] := by simp [hnew]
  refine ⟨?_, ?_, ?_⟩
  · rw [hphis, hothers, ← List.append_assoc, ← hfirst.lead]
  · rw [hphis]
    exact hfirst.phis_ascend
  · rw [hothers]
    exact ascend_concat hfirst.others_ascend fun id hid => hbelow id (List.mem_filter.mp hid).1

/-- A phi goes behind the phis that are there. -/
theorem insert (hfirst : PhisFirst isPhi ids) (hnew : isPhi new = true)
    (hbelow : ∀ id ∈ ids, id.index < new.index) :
    PhisFirst isPhi (ids.filter isPhi ++ new :: ids.filter fun id => !isPhi id) := by
  have hphis : (ids.filter isPhi ++ new :: ids.filter fun id => !isPhi id).filter isPhi =
      ids.filter isPhi ++ [new] := by simp [hnew, List.filter_filter]
  have hothers : ((ids.filter isPhi ++ new :: ids.filter fun id => !isPhi id).filter
      fun id => !isPhi id) = ids.filter fun id => !isPhi id := by
    simp [hnew, List.filter_filter]
  refine ⟨?_, ?_, ?_⟩
  · rw [hphis, hothers, List.append_assoc, List.singleton_append]
  · rw [hphis]
    exact ascend_concat hfirst.phis_ascend fun id hid => hbelow id (List.mem_filter.mp hid).1
  · rw [hothers]
    exact hfirst.others_ascend

end PhisFirst

namespace Ssa

/-- Entries that stand in no block. -/
def Inst.isFree : Inst → Bool
  | .param _ | .const _ => true
  | .phi _ | .binary .. | .compare .. | .zext _ | .trunc _ | .load .. | .store .. | .call ..
  | .makeRegs _ | .extractReg .. => false

namespace Function

def listed (function : Function) : List ValueId :=
  function.blocks.toList.flatMap fun block => block.insts.toList

/-- Every block lists phis first, and the blocks together list each entry of
the arena once, but for the parameters and the constants. -/
structure Arranged (function : Function) : Prop where
  phisFirst : ∀ block ∈ function.blocks,
    PhisFirst (Builder.isPhiIn function.values) block.insts.toList
  nodup : function.listed.Nodup
  mem_listed_iff : ∀ id, id ∈ function.listed ↔
    ∃ value, function.values[id.index]? = some value ∧ value.inst.isFree = false

theorem arranged_declare (name : String) (linkage : Linkage) (params : List (String × Ty))
    (result : Ty) : (declare name linkage params result).Arranged where
  phisFirst block hblock := by
    simp [declare] at hblock
  nodup := List.nodup_nil
  mem_listed_iff id := by
    constructor
    · intro hid
      cases hid
    · rintro ⟨value, hvalue, hfree⟩
      have hmem : value ∈ (declare name linkage params result).values :=
        Array.mem_of_getElem? hvalue
      unfold declare at hmem
      simp only [List.mem_toArray, List.mem_map] at hmem
      obtain ⟨_, _, rfl⟩ := hmem
      cases hfree

variable {function : Function}

theorem mem_listed_of_mem {block : Block} {id : ValueId} (hblock : block ∈ function.blocks)
    (hid : id ∈ block.insts) : id ∈ function.listed :=
  List.mem_flatMap.mpr ⟨block, by simpa using hblock, by simpa using hid⟩

theorem Arranged.index_lt (harranged : function.Arranged) {id : ValueId}
    (hid : id ∈ function.listed) : id.index < function.values.size := by
  obtain ⟨value, hvalue, _⟩ := (harranged.mem_listed_iff id).mp hid
  exact (Array.getElem?_eq_some_iff.mp hvalue).1

theorem isPhiIn_push {values : Array Value} (value : Value) {id : ValueId}
    (hid : id.index < values.size) :
    Builder.isPhiIn (values.push value) id = Builder.isPhiIn values id := by
  simp [Builder.isPhiIn, Array.getElem?_push, Nat.ne_of_lt hid]

theorem Arranged.phisFirst_push (harranged : function.Arranged) (value : Value) {block : Block}
    (hblock : block ∈ function.blocks) :
    PhisFirst (Builder.isPhiIn (function.values.push value)) block.insts.toList := by
  apply (harranged.phisFirst block hblock).congr
  intro id hid
  exact isPhiIn_push value
    (harranged.index_lt (mem_listed_of_mem hblock (Array.mem_toList_iff.mp hid)))

theorem Arranged.pushFree (harranged : function.Arranged) {value : Value}
    (hfree : value.inst.isFree = true) :
    Arranged { function with values := function.values.push value } where
  phisFirst block hblock := harranged.phisFirst_push value hblock
  nodup := harranged.nodup
  mem_listed_iff id := by
    have hlast : (∃ found, (function.values.push value)[id.index]? = some found ∧
        found.inst.isFree = false) ↔
        ∃ found, function.values[id.index]? = some found ∧ found.inst.isFree = false := by
      rw [Array.getElem?_push]
      split
      · next heq => simp [heq, hfree]
      · rfl
    exact (harranged.mem_listed_iff id).trans hlast.symm

theorem perm_flatMap_modify {blocks : List Block} {index : Nat} {block : Block}
    {change : Block → Block} {new : ValueId} (hblock : blocks[index]? = some block)
    (hperm : (change block).insts.toList.Perm (new :: block.insts.toList)) :
    ((blocks.modify index change).flatMap fun block => block.insts.toList).Perm
      (new :: blocks.flatMap fun block => block.insts.toList) := by
  induction blocks generalizing index with
  | nil => cases hblock
  | cons first rest ih =>
      cases index with
      | zero =>
          cases hblock
          simp only [List.modify_zero_cons, List.flatMap_cons]
          exact hperm.append_right _
      | succ index =>
          simp only [List.modify_succ_cons, List.flatMap_cons]
          exact ((ih hblock).append_left _).trans List.perm_middle

theorem Arranged.place (harranged : function.Arranged) {value : Value} {block : BlockId}
    {found : Block} {change : Block → Block} (hplaced : value.inst.isFree = false)
    (hfound : function.blocks[block.index]? = some found)
    (hperm : (change found).insts.toList.Perm (⟨function.values.size⟩ :: found.insts.toList))
    (hfirst : PhisFirst (Builder.isPhiIn (function.values.push value))
      (change found).insts.toList) :
    Arranged { function with
      values := function.values.push value
      blocks := function.blocks.modify block.index change } := by
  have hlisted : (listed { function with
      values := function.values.push value
      blocks := function.blocks.modify block.index change }).Perm
      (⟨function.values.size⟩ :: function.listed) := by
    unfold listed
    rw [Array.toList_modify]
    exact perm_flatMap_modify (by simpa using hfound) hperm
  refine ⟨fun other hother => ?_, ?_, fun id => ?_⟩
  · obtain ⟨index, hindex⟩ := Array.mem_iff_getElem?.mp hother
    rw [Array.getElem?_modify] at hindex
    split at hindex
    · next heq =>
        subst heq
        rw [hfound] at hindex
        cases hindex
        exact hfirst
    · exact harranged.phisFirst_push value (Array.mem_of_getElem? hindex)
  · refine hlisted.nodup_iff.mpr (List.nodup_cons.mpr ⟨fun hmem => ?_, harranged.nodup⟩)
    exact Nat.lt_irrefl _ (harranged.index_lt hmem)
  · rw [hlisted.mem_iff, List.mem_cons, harranged.mem_listed_iff, Array.getElem?_push]
    obtain ⟨index⟩ := id
    by_cases heq : index = function.values.size
    · simp [heq, hplaced]
    · simp [heq]

theorem isPhiIn_set {values : Array Value} {position : Nat} {entry entry' : Value}
    (hentry : values[position]? = some entry) (hphi : entry.inst.isPhi = true)
    (hphi' : entry'.inst.isPhi = true) :
    Builder.isPhiIn (values.setIfInBounds position entry') = Builder.isPhiIn values := by
  funext id
  unfold Builder.isPhiIn
  rw [Array.getElem?_setIfInBounds]
  by_cases heq : position = id.index
  · subst heq
    rw [if_pos rfl, if_pos (Array.getElem?_eq_some_iff.mp hentry).1, hentry]
    simp [hphi, hphi']
  · rw [if_neg heq]

theorem Arranged.feed (harranged : function.Arranged) {position : Nat} {entry entry' : Value}
    (hentry : function.values[position]? = some entry) (hphi : entry.inst.isPhi = true)
    (hphi' : entry'.inst.isPhi = true) :
    Arranged { function with values := function.values.setIfInBounds position entry' } where
  phisFirst block hblock := by
    rw [isPhiIn_set hentry hphi hphi']
    exact harranged.phisFirst block hblock
  nodup := harranged.nodup
  mem_listed_iff id := by
    have hplaced {value : Value} (hphi : value.inst.isPhi = true) :
        value.inst.isFree = false := by
      cases hinst : value.inst <;> simp_all [Inst.isPhi, Inst.isFree]
    refine (harranged.mem_listed_iff id).trans ?_
    rw [Array.getElem?_setIfInBounds]
    by_cases heq : position = id.index
    · subst heq
      rw [if_pos rfl, if_pos (Array.getElem?_eq_some_iff.mp hentry).1, hentry]
      simp [hplaced hphi, hplaced hphi']
    · rw [if_neg heq]

theorem Arranged.addBlock (harranged : function.Arranged) (label : String) :
    Arranged { function with blocks := function.blocks.push { label } } := by
  have hlisted : listed { function with blocks := function.blocks.push { label } } =
      function.listed := by
    simp [listed]
  refine ⟨fun block hblock => ?_, by rw [hlisted]; exact harranged.nodup,
    fun id => by rw [hlisted]; exact harranged.mem_listed_iff id⟩
  rcases Array.mem_push.mp hblock with hblock | rfl
  · exact harranged.phisFirst block hblock
  · exact .nil

theorem Arranged.of_insts (harranged : function.Arranged) {blocks : Array Block}
    (hinsts : blocks.toList.map Block.insts = function.blocks.toList.map Block.insts) :
    Arranged { function with blocks } := by
  have hlisted : listed { function with blocks } = function.listed := by
    have hflat := congrArg (List.flatMap Array.toList) hinsts
    simpa [listed, List.flatMap_map] using hflat
  refine ⟨fun block hblock => ?_, by rw [hlisted]; exact harranged.nodup,
    fun id => by rw [hlisted]; exact harranged.mem_listed_iff id⟩
  have hmem : block.insts ∈ function.blocks.toList.map Block.insts := by
    rw [← hinsts]
    exact List.mem_map_of_mem (by simpa using hblock)
  obtain ⟨other, hother, heq⟩ := List.mem_map.mp hmem
  show PhisFirst _ block.insts.toList
  rw [← heq]
  exact harranged.phisFirst other (by simpa using hother)

theorem Arranged.terminate (harranged : function.Arranged) {index : Nat} {block : Block}
    (hblock : function.blocks[index]? = some block) (terminator : Terminator) :
    Arranged { function with blocks :=
      function.blocks.setIfInBounds index { block with terminator := some terminator } } := by
  apply harranged.of_insts
  obtain ⟨hindex, rfl⟩ := Array.getElem?_eq_some_iff.mp hblock
  have hset : (function.blocks.toList.map Block.insts).set index _ = _ :=
    List.set_getElem_self (by simpa using hindex)
  simpa [List.map_set] using hset

end Function

/-! What is kept -/

/-- The entry with more incoming values, if it is a phi. -/
def Value.feed (value : Value) (more : List (ValueId × BlockId)) : Value :=
  match value.inst with
  | .phi incoming => { value with inst := .phi (incoming ++ more) }
  | _ => value

@[simp] theorem Value.feed_nil (value : Value) : value.feed [] = value := by
  obtain ⟨inst, type, name⟩ := value
  cases inst <;> simp [feed]

theorem Value.feed_feed (value : Value) (first second : List (ValueId × BlockId)) :
    (value.feed first).feed second = value.feed (first ++ second) := by
  obtain ⟨inst, type, name⟩ := value
  cases inst <;> simp [feed]

/-- A later state of a block: its label, its terminator and its ids are still
there. -/
structure Block.Continues (block later : Block) : Prop where
  label_eq : later.label = block.label
  terminator_eq : ∀ terminator, block.terminator = some terminator →
    later.terminator = some terminator
  insts : block.insts.toList.Sublist later.insts.toList

theorem Block.Continues.refl (block : Block) : block.Continues block :=
  ⟨rfl, fun _ h => h, .refl _⟩

theorem Block.Continues.trans {first second third : Block} (hfirst : first.Continues second)
    (hsecond : second.Continues third) : first.Continues third where
  label_eq := hsecond.label_eq.trans hfirst.label_eq
  terminator_eq terminator hterminator :=
    hsecond.terminator_eq terminator (hfirst.terminator_eq terminator hterminator)
  insts := hfirst.insts.trans hsecond.insts

/-- Incoming values that are added to phis. -/
abbrev Feed := ValueId → List (ValueId × BlockId)

/-- A later state of a function. Its entries and blocks are still there, but
for the incoming values that are added to some phis. -/
structure Function.Develops (function : Function) (feed : Feed) (later : Function) : Prop where
  signature : later = { function with values := later.values, blocks := later.blocks }
  entries : ∀ (id : ValueId) (value : Value), function.values[id.index]? = some value →
    later.values[id.index]? = some (value.feed (feed id))
  fed : ∀ id, feed id ≠ [] → Builder.isPhiIn function.values id = true
  blocks : ∀ (id : BlockId) (block : Block), function.blocks[id.index]? = some block →
    ∃ block', later.blocks[id.index]? = some block' ∧ block.Continues block'

namespace Function.Develops

variable {function middle later : Function} {first second : Feed}

theorem refl (function : Function) : function.Develops (fun _ => []) function where
  signature := rfl
  entries id value hvalue := by rw [hvalue, Value.feed_nil]
  fed id hfed := (hfed rfl).elim
  blocks id block hblock := ⟨block, hblock, .refl block⟩

theorem trans (hfirst : function.Develops first middle) (hsecond : middle.Develops second later)
    (hphis : ∀ id, Builder.isPhiIn middle.values id = true → second id ≠ [] →
      Builder.isPhiIn function.values id = true) :
    function.Develops (fun id => first id ++ second id) later where
  signature := by rw [hsecond.signature, hfirst.signature]
  entries id value hvalue := by
    rw [hsecond.entries id _ (hfirst.entries id value hvalue), Value.feed_feed]
  fed id hfed := by
    by_cases hfirstFed : first id = []
    · have hsecondFed : second id ≠ [] := by simpa [hfirstFed] using hfed
      exact hphis id (hsecond.fed id hsecondFed) hsecondFed
    · exact hfirst.fed id hfirstFed
  blocks id block hblock := by
    obtain ⟨middleBlock, hmiddle, hcontinues⟩ := hfirst.blocks id block hblock
    obtain ⟨lastBlock, hlast, hcontinues'⟩ := hsecond.blocks id middleBlock hmiddle
    exact ⟨lastBlock, hlast, hcontinues.trans hcontinues'⟩

theorem push (value : Value) {blocks : Array Block}
    (hblocks : ∀ (id : BlockId) (block : Block), function.blocks[id.index]? = some block →
      ∃ block', blocks[id.index]? = some block' ∧ block.Continues block') :
    function.Develops (fun _ => []) { function with
      values := function.values.push value
      blocks := blocks } where
  signature := rfl
  entries id found hfound := by
    have hlt := (Array.getElem?_eq_some_iff.mp hfound).1
    rw [Value.feed_nil, Array.getElem?_push, if_neg (Nat.ne_of_lt hlt), hfound]
  fed id hfed := (hfed rfl).elim
  blocks := hblocks

end Function.Develops

theorem exists_continues_modify {blocks : Array Block} {index : Nat} {change : Block → Block}
    (hchange : ∀ block : Block, block.Continues (change block)) (id : BlockId) (block : Block)
    (hblock : blocks[id.index]? = some block) :
    ∃ block', (blocks.modify index change)[id.index]? = some block' ∧ block.Continues block' := by
  rw [Array.getElem?_modify, hblock]
  split
  · exact ⟨_, rfl, hchange block⟩
  · exact ⟨block, rfl, .refl block⟩

/-! Steps -/

namespace Builder

variable {α β : Type} {function later : Function} {feed : Feed}

/-- A step that keeps a function arranged and changes nothing that is there,
but for incoming values that it adds. -/
def Orderly (feed : Feed) (step : Builder α) : Prop :=
  ∀ function result later, step function = .ok (result, later) →
    (function.Arranged → later.Arranged) ∧ function.Develops feed later

theorem orderly_of_same {step : Builder α}
    (hsame : ∀ function result later, step function = .ok (result, later) → later = function) :
    Orderly (fun _ => []) step := by
  intro function result later hrun
  cases hsame function result later hrun
  exact ⟨id, .refl _⟩

theorem orderly_pure (result : α) : Orderly (fun _ => []) (pure result) := by
  refine orderly_of_same fun function _ later hrun => ?_
  cases hrun
  rfl

theorem orderly_value (id : ValueId) : Orderly (fun _ => []) (Builder.value id) :=
  orderly_of_same fun _ _ _ hrun => (value_ok hrun).1.symm

theorem Orderly.bind {step : Builder α} {next : α → Builder β}
    (hstep : Orderly (fun _ => []) step) (hnext : ∀ result, Orderly (fun _ => []) (next result)) :
    Orderly (fun _ => []) (step >>= next) := by
  intro function result later hrun
  obtain ⟨value, middle, hfirst, hrest⟩ := StateT.exists_of_bind hrun
  obtain ⟨harranged, hdevelops⟩ := hstep function value middle hfirst
  obtain ⟨harranged', hdevelops'⟩ := hnext value middle result later hrest
  exact ⟨harranged' ∘ harranged, hdevelops.trans hdevelops' fun _ _ hfed => (hfed rfl).elim⟩

theorem Orderly.discard {step : Builder α} (hstep : Orderly feed step) :
    Orderly feed (discard step : Builder Unit) := by
  intro function result later hrun
  obtain ⟨value, hstepped⟩ := exists_of_discard hrun
  exact hstep function value later hstepped

theorem orderly_const (type : Ty) (bits : UInt16) :
    Orderly (fun _ => []) (const type bits) := by
  intro function result later hrun
  cases hrun
  exact ⟨fun harranged => harranged.pushFree rfl,
    .push _ fun id block hblock => ⟨block, hblock, .refl block⟩⟩

theorem modifyBlock_ok {block : BlockId} {change : Block → Block} {result : Unit}
    (hrun : modifyBlock block change function = .ok (result, later)) :
    ∃ found, function.blocks[block.index]? = some found ∧
      later = { function with blocks := function.blocks.modify block.index change } := by
  unfold modifyBlock at hrun
  split at hrun
  · next hlt =>
      cases hrun
      exact ⟨_, Array.getElem?_eq_getElem hlt, rfl⟩
  · cases hrun

theorem orderly_emit (block : BlockId) {inst : Inst} (type : Ty) (hfree : inst.isFree = false)
    (hphi : inst.isPhi = false) : Orderly (fun _ => []) (emit block inst type) := by
  intro function result later hrun
  obtain ⟨id, middle, hpush, hrest⟩ := StateT.exists_of_bind hrun
  cases hpush
  obtain ⟨_, _, hmodify, hpure⟩ := StateT.exists_of_bind hrest
  cases hpure
  obtain ⟨found, hfound, rfl⟩ := modifyBlock_ok hmodify
  refine ⟨fun harranged => ?_, .push _ (exists_continues_modify fun other => ?_)⟩
  · have hmem : found ∈ function.blocks := Array.mem_of_getElem? hfound
    refine harranged.place hfree hfound ?_ ?_
    · simp
    · rw [Array.toList_push]
      refine (harranged.phisFirst_push _ hmem).concat ?_ ?_
      · simp [isPhiIn, hphi]
      · intro id hid
        exact harranged.index_lt (Function.mem_listed_of_mem hmem (by simpa using hid))
  · exact ⟨rfl, fun _ h => h, by simp⟩

theorem toList_insertPhi (values : Array Value) (phi : ValueId) (block : Block) :
    (insertPhi values phi block).insts.toList =
      block.insts.toList.takeWhile (isPhiIn values) ++
        phi :: block.insts.toList.dropWhile (isPhiIn values) := by
  have hdropWhile (ids : List ValueId) (isPhi : ValueId → Bool) :
      ids.drop (ids.takeWhile isPhi).length = ids.dropWhile isPhi := by
    calc ids.drop (ids.takeWhile isPhi).length
        = (ids.takeWhile isPhi ++ ids.dropWhile isPhi).drop (ids.takeWhile isPhi).length := by
          rw [List.takeWhile_append_dropWhile]
      _ = ids.dropWhile isPhi := List.drop_left
  have hdrop : block.insts.toList.drop (block.insts.takeWhile (isPhiIn values)).size =
      block.insts.toList.dropWhile (isPhiIn values) := by
    rw [← Array.length_toList, Array.toList_takeWhile, hdropWhile]
  unfold insertPhi
  simp only [Array.toList_append, Array.toList_push, Array.toList_takeWhile, Array.toList_extract,
    List.extract_eq_take_drop, hdrop, List.append_assoc, List.singleton_append]
  rw [List.take_of_length_le (Nat.le_of_eq ?_)]
  rw [← hdrop, List.length_drop, Array.length_toList]

theorem sublist_insertPhi (values : Array Value) (phi : ValueId) (block : Block) :
    block.insts.toList.Sublist (insertPhi values phi block).insts.toList := by
  have hskip : (block.insts.toList.takeWhile (isPhiIn values) ++
      block.insts.toList.dropWhile (isPhiIn values)).Sublist
      (block.insts.toList.takeWhile (isPhiIn values) ++
        phi :: block.insts.toList.dropWhile (isPhiIn values)) :=
    (List.sublist_cons_self _ _).append_left _
  rw [List.takeWhile_append_dropWhile] at hskip
  rwa [toList_insertPhi]

theorem orderly_addPhi (block : BlockId) (type : Ty) (name : String) :
    Orderly (fun _ => []) (addPhi block type name) := by
  intro function result later hrun
  obtain ⟨id, middle, hpush, hrest⟩ := StateT.exists_of_bind hrun
  cases hpush
  obtain ⟨values, _, hvalues, hrest⟩ := StateT.exists_of_bind hrest
  cases hvalues
  obtain ⟨_, _, hmodify, hpure⟩ := StateT.exists_of_bind hrest
  cases hpure
  obtain ⟨found, hfound, rfl⟩ := modifyBlock_ok hmodify
  refine ⟨fun harranged => ?_, .push _ (exists_continues_modify fun other => ?_)⟩
  · have hmem : found ∈ function.blocks := Array.mem_of_getElem? hfound
    have hfirst := harranged.phisFirst_push ⟨.phi [], type, some name⟩ hmem
    have hinsts := toList_insertPhi (function.values.push ⟨.phi [], type, some name⟩)
      ⟨function.values.size⟩ found
    refine harranged.place rfl hfound ?_ ?_
    · rw [hinsts]
      refine List.perm_middle.trans ?_
      rw [List.takeWhile_append_dropWhile]
    · rw [hinsts, hfirst.takeWhile_eq, hfirst.dropWhile_eq]
      refine hfirst.insert ?_ ?_
      · simp [isPhiIn, Inst.isPhi]
      · intro id hid
        exact harranged.index_lt (Function.mem_listed_of_mem hmem (by simpa using hid))
  · exact ⟨rfl, fun _ h => h, sublist_insertPhi _ _ _⟩

theorem orderly_addBlock (label : String) : Orderly (fun _ => []) (addBlock label) := by
  intro function result later hrun
  cases hrun
  refine ⟨fun harranged => harranged.addBlock label, rfl, ?_, fun _ hfed => (hfed rfl).elim, ?_⟩
  · intro id value hvalue
    rw [Value.feed_nil]
    exact hvalue
  · intro id block hblock
    have hlt := (Array.getElem?_eq_some_iff.mp hblock).1
    refine ⟨block, ?_, .refl block⟩
    show (function.blocks.push _)[id.index]? = _
    rw [Array.getElem?_push, if_neg (Nat.ne_of_lt hlt), hblock]

theorem orderly_terminate (block : BlockId) (terminator : Terminator) :
    Orderly (fun _ => []) (terminate block terminator) := by
  intro function result later hrun
  unfold terminate at hrun
  cases hfound : function.blocks[block.index]? with
  | none =>
      rw [hfound] at hrun
      cases hrun
  | some found =>
      simp only [hfound] at hrun
      split at hrun
      · cases hrun
      · next hopen =>
          cases hrun
          refine ⟨fun harranged => harranged.terminate hfound terminator, rfl, ?_,
            fun _ hfed => (hfed rfl).elim, ?_⟩
          · intro id value hvalue
            rw [Value.feed_nil]
            exact hvalue
          · intro id other hother
            show ∃ later, (function.blocks.setIfInBounds _ _)[id.index]? = _ ∧ _
            rw [Array.getElem?_setIfInBounds]
            by_cases heq : block.index = id.index
            · rw [← heq, hfound] at hother
              cases hother
              have hlt := (Array.getElem?_eq_some_iff.mp hfound).1
              refine ⟨{ found with terminator := some terminator },
                by rw [if_pos heq, if_pos hlt], rfl, ?_, .refl _⟩
              intro set hset
              simp [hset] at hopen
            · exact ⟨other, by rw [if_neg heq, hother], .refl other⟩

theorem addIncoming_ok {phi value : ValueId} {source : BlockId} {result : Unit}
    (hrun : addIncoming phi value source function = .ok (result, later)) :
    ∃ entry incoming, function.values[phi.index]? = some entry ∧ entry.inst = .phi incoming ∧
      later = { function with values := (function.values.setIfInBounds phi.index
        { entry with inst := .phi (incoming ++ [(value, source)]) }) } := by
  unfold addIncoming at hrun
  cases hentry : function.values[phi.index]? with
  | none =>
      rw [hentry] at hrun
      cases hrun
  | some entry =>
      simp only [hentry] at hrun
      split at hrun
      · next incoming hinst =>
          cases hrun
          exact ⟨entry, incoming, rfl, hinst, rfl⟩
      · cases hrun

theorem orderly_addIncoming (phi value : ValueId) (source : BlockId) :
    Orderly (fun id => if phi = id then [(value, source)] else [])
      (addIncoming phi value source) := by
  intro function result later hrun
  obtain ⟨entry, incoming, hentry, hinst, rfl⟩ := addIncoming_ok hrun
  have hphi : entry.inst.isPhi = true := by rw [hinst]; rfl
  have hlt := (Array.getElem?_eq_some_iff.mp hentry).1
  refine ⟨fun harranged => harranged.feed hentry hphi rfl, rfl, ?_, ?_,
    fun id block hblock => ⟨block, hblock, .refl block⟩⟩
  · intro id found hfound
    show (function.values.setIfInBounds _ _)[id.index]? = _
    rw [Array.getElem?_setIfInBounds]
    by_cases heq : phi = id
    · subst heq
      rw [hentry] at hfound
      cases hfound
      rw [if_pos rfl, if_pos hlt, if_pos rfl]
      simp [Value.feed, hinst]
    · have hne : phi.index ≠ id.index := fun hindex => heq (congrArg ValueId.mk hindex)
      rw [if_neg hne, if_neg heq, Value.feed_nil, hfound]
  · intro id hfed
    by_cases heq : phi = id
    · simp [← heq, isPhiIn, hentry, hphi]
    · simp [heq] at hfed

/-- Each phi gets the values of the registers that it stands for. -/
theorem orderly_feeds (phis values : Register → ValueId) (source : BlockId)
    (taken : List Register) :
    Orderly (fun id => (taken.filter fun register => phis register = id).map fun register =>
        (values register, source))
      (taken.forM fun register => addIncoming (phis register) (values register) source) := by
  induction taken with
  | nil => exact orderly_pure ()
  | cons register rest ih =>
      intro function result later hrun
      obtain ⟨_, middle, hfirst, hrest⟩ := StateT.exists_of_bind hrun
      obtain ⟨harranged, hdevelops⟩ := orderly_addIncoming _ _ _ function _ middle hfirst
      obtain ⟨harranged', hdevelops'⟩ := ih middle result later hrest
      have hsame : isPhiIn middle.values = isPhiIn function.values := by
        obtain ⟨entry, incoming, hentry, hinst, rfl⟩ := addIncoming_ok hfirst
        exact Function.isPhiIn_set hentry (by rw [hinst]; rfl) rfl
      have hboth := hdevelops.trans hdevelops' fun id hphi _ => hsame ▸ hphi
      refine ⟨harranged' ∘ harranged, ?_⟩
      convert hboth using 2 with id
      rw [List.filter_cons]
      split <;> simp_all

/-! Operations that are folded -/

theorem orderly_binary (block : BlockId) (op : BinOp) (lhs rhs : ValueId) :
    Orderly (fun _ => []) (binary block op lhs rhs) := by
  intro function result later hrun
  obtain ⟨left, right, hlhs, hrhs, htype⟩ := binary_operands hrun
  rcases binary_cases op hlhs hrhs htype with ⟨l, r, _, _, hfolds⟩ | ⟨_, hemits⟩
  · exact orderly_const _ _ _ _ _ (hfolds.symm.trans hrun)
  · exact orderly_emit block _ rfl rfl _ _ _ (hemits.symm.trans hrun)

theorem orderly_compare (block : BlockId) (predicate : Predicate) (lhs rhs : ValueId) :
    Orderly (fun _ => []) (compare block predicate lhs rhs) := by
  intro function result later hrun
  obtain ⟨left, _, hleft, hrest⟩ := StateT.exists_of_bind hrun
  obtain ⟨rfl, hlhs⟩ := value_ok hleft
  obtain ⟨right, _, hright, _⟩ := StateT.exists_of_bind hrest
  obtain ⟨rfl, hrhs⟩ := value_ok hright
  rcases compare_cases predicate hlhs hrhs with ⟨l, r, _, _, hfolds⟩ | ⟨_, hemits⟩
  · exact orderly_const _ _ _ _ _ (hfolds.symm.trans hrun)
  · exact orderly_emit block _ rfl rfl _ _ _ (hemits.symm.trans hrun)

theorem orderly_zext (block : BlockId) (operand : ValueId) (type : Ty) :
    Orderly (fun _ => []) (zext block operand type) := by
  refine .bind (orderly_value operand) fun value => ?_
  split
  · exact orderly_const _ _
  · exact orderly_emit block type rfl rfl

theorem orderly_trunc (block : BlockId) (operand : ValueId) (type : Ty) :
    Orderly (fun _ => []) (trunc block operand type) := by
  refine .bind (orderly_value operand) fun value => ?_
  split
  · exact orderly_const _ _
  · exact orderly_emit block type rfl rfl

theorem orderly_build (block : BlockId) (operation : Operation) :
    Orderly (fun _ => []) (operation.build block) := by
  cases operation with
  | const | byte | word | flag => exact orderly_const _ _
  | binary op lhs rhs => exact orderly_binary block op lhs rhs
  | compare predicate lhs rhs => exact orderly_compare block predicate lhs rhs
  | zext operand type => exact orderly_zext block operand type
  | trunc operand type => exact orderly_trunc block operand type

end Builder

end Ssa

/-! Registers and accesses -/

theorem RegisterFile.orderly_seed (block : BlockId) (address : Address) :
    Builder.Orderly (fun _ => []) (seed block address) := by
  have hphi (register : Register) := Builder.orderly_addPhi block register.type
    (phiName register address)
  exact .bind (.bind (hphi _) fun _ => .bind (hphi _) fun _ => .bind (hphi _) fun _ =>
    .bind (hphi _) fun _ => .bind (hphi _) fun _ => .bind (hphi _) fun _ => .bind (hphi _)
    fun _ => Builder.orderly_pure _) fun _ => Builder.orderly_pure _

theorem Platform.orderly_loadComputed (platform : Platform) (block : BlockId) (address : ValueId) :
    Builder.Orderly (fun _ => []) (platform.loadComputed block address) := by
  cases platform <;> exact Builder.orderly_emit block _ rfl rfl

theorem Platform.orderly_storeComputed (platform : Platform) (block : BlockId)
    (address value : ValueId) :
    Builder.Orderly (fun _ => []) (platform.storeComputed block address value) := by
  cases platform <;> exact .bind (Builder.orderly_emit block _ rfl rfl) fun _ =>
    Builder.orderly_pure ()

/-- A register file whose phis come from a block that was given them. -/
def RegisterFile.Seeded (file : RegisterFile) : Prop :=
  ∃ block address function first later,
    seed block address function = .ok (first, later) ∧ file.phis = first.phis

theorem Ssa.Builder.addPhi_ok {block : BlockId} {type : Ty} {name : String} {id : ValueId}
    {function later : Function} (hrun : addPhi block type name function = .ok (id, later)) :
    id = ⟨function.values.size⟩ ∧ later.values.size = function.values.size + 1 := by
  obtain ⟨_, _, hpush, hrest⟩ := StateT.exists_of_bind hrun
  cases hpush
  obtain ⟨_, _, hvalues, hrest⟩ := StateT.exists_of_bind hrest
  cases hvalues
  obtain ⟨_, _, hmodify, hpure⟩ := StateT.exists_of_bind hrest
  cases hpure
  obtain ⟨_, _, rfl⟩ := modifyBlock_ok hmodify
  exact ⟨rfl, Array.size_push _⟩

theorem RegisterFile.Seeded.phi_eq {file : RegisterFile} (hseeded : file.Seeded) :
    ∃ base, ∀ register, file.phi register = ⟨base + register.index⟩ := by
  obtain ⟨block, address, function, first, later, hrun, hphis⟩ := hseeded
  obtain ⟨_, _, hphi, hpure⟩ := StateT.exists_of_bind hrun
  cases hpure
  obtain ⟨a, _, ha, hphi⟩ := StateT.exists_of_bind hphi
  obtain ⟨x, _, hx, hphi⟩ := StateT.exists_of_bind hphi
  obtain ⟨y, _, hy, hphi⟩ := StateT.exists_of_bind hphi
  obtain ⟨n, _, hn, hphi⟩ := StateT.exists_of_bind hphi
  obtain ⟨v, _, hv, hphi⟩ := StateT.exists_of_bind hphi
  obtain ⟨z, _, hz, hphi⟩ := StateT.exists_of_bind hphi
  obtain ⟨c, _, hc, hphi⟩ := StateT.exists_of_bind hphi
  cases hphi
  obtain ⟨rfl, hsizeA⟩ := Builder.addPhi_ok ha
  obtain ⟨rfl, hsizeX⟩ := Builder.addPhi_ok hx
  obtain ⟨rfl, hsizeY⟩ := Builder.addPhi_ok hy
  obtain ⟨rfl, hsizeN⟩ := Builder.addPhi_ok hn
  obtain ⟨rfl, hsizeV⟩ := Builder.addPhi_ok hv
  obtain ⟨rfl, hsizeZ⟩ := Builder.addPhi_ok hz
  obtain ⟨rfl, _⟩ := Builder.addPhi_ok hc
  refine ⟨function.values.size, fun register => ?_⟩
  show file.phis.get register = _
  rw [hphis, hsizeZ, hsizeV, hsizeN, hsizeY, hsizeX, hsizeA]
  rcases register with holder | condition
  · cases holder <;> rfl
  · cases condition <;> rfl

/-! Runs -/

/-- What is done to a function under construction: a single step, or one of
the operations on registers and memory that take several. -/
inductive Action
  | single (step : Step)
  | seed (block : BlockId) (address : Address)
  | receive (file : RegisterFile) (values : PerRegister ValueId) (source : BlockId)
  | propagate (file : RegisterFile) (source : BlockId) (target : RegisterFile)
  | load (platform : Platform) (block : BlockId) (address : Address)
  | loadComputed (platform : Platform) (block : BlockId) (address : ValueId)
  | store (platform : Platform) (block : BlockId) (address : Address) (value : ValueId)
  | storeComputed (platform : Platform) (block : BlockId) (address value : ValueId)

namespace Action

def run : Action → Builder Unit
  | .single step => step.run
  | .seed block address => discard (RegisterFile.seed block address)
  | .receive file values source => file.receive values source
  | .propagate file source target => file.propagate source target
  | .load platform block address => discard (platform.load block address)
  | .loadComputed platform block address => discard (platform.loadComputed block address)
  | .store platform block address value => platform.store block address value
  | .storeComputed platform block address value => platform.storeComputed block address value

def received (file : RegisterFile) (values : PerRegister ValueId) (source : BlockId) : Feed :=
  fun id => (Register.all.filter fun register => file.phi register = id).map fun register =>
    (values.get register, source)

/-- The incoming values that an action adds. -/
def feed : Action → Feed
  | .single (.addIncoming phi value source), id => if phi = id then [(value, source)] else []
  | .receive file values source, id => received file values source id
  | .propagate file source target, id => received target file.values source id
  | _, _ => []

theorem orderly (action : Action) : Builder.Orderly action.feed action.run := by
  cases action with
  | single step =>
      cases step with
      | addBlock label => exact (Builder.orderly_addBlock label).discard
      | addPhi block type name => exact (Builder.orderly_addPhi block type name).discard
      | addIncoming phi value source => exact Builder.orderly_addIncoming phi value source
      | operate block operation => exact (Builder.orderly_build block operation).discard
      | load | call | makeRegs | extractReg =>
          exact (Builder.orderly_emit _ _ rfl rfl).discard
      | store =>
          exact .bind (Builder.orderly_emit _ _ rfl rfl) fun _ => Builder.orderly_pure ()
      | terminate block terminator => exact Builder.orderly_terminate block terminator
  | seed block address => exact (RegisterFile.orderly_seed block address).discard
  | receive file values source => exact Builder.orderly_feeds file.phi values.get source _
  | propagate file source target =>
      exact Builder.orderly_feeds target.phi file.values.get source _
  | load platform block address =>
      exact (Builder.Orderly.bind (Builder.orderly_const _ _) fun _ =>
        platform.orderly_loadComputed block _).discard
  | loadComputed platform block address =>
      exact (platform.orderly_loadComputed block address).discard
  | store platform block address value =>
      exact .bind (Builder.orderly_const _ _) fun _ => platform.orderly_storeComputed block _ value
  | storeComputed platform block address value =>
      exact platform.orderly_storeComputed block address value

theorem received_phi {file : RegisterFile} (hseeded : file.Seeded)
    (values : PerRegister ValueId) (source : BlockId) (register : Register) :
    received file values source (file.phi register) = [(values.get register, source)] := by
  obtain ⟨base, hphi⟩ := hseeded.phi_eq
  have hfilter : (Register.all.filter fun other => file.phi other = file.phi register) =
      [register] := by
    simp only [hphi, ValueId.mk.injEq, Nat.add_left_cancel_iff]
    rcases register with holder | condition
    · cases holder <;> rfl
    · cases condition <;> rfl
  rw [received, hfilter, List.map_singleton]

theorem arranged_forM {actions : List Action} {function later : Function}
    (hrun : actions.forM run function = .ok ((), later)) (harranged : function.Arranged) :
    later.Arranged :=
  Keeps.forM actions (fun action _ function result later hrun =>
    (action.orderly function result later hrun).1) _ _ _ hrun harranged

/-- A function that is built in any order of actions on any of its blocks.
Each block lists its phis first, and every entry of the arena but parameters
and constants stands in one place. An action that succeeds keeps what is there
and only adds incoming values to phis: one to the phi that it names, or one to
each of the phis of a register file. -/
theorem arranged_of_run {name : String} {linkage : Linkage} {params : List (String × Ty)}
    {result : Ty} {actions : List Action} {function : Function}
    (hrun : actions.forM run (Function.declare name linkage params result) =
      .ok ((), function)) :
    function.Arranged ∧
      (∀ (action : Action) (later : Function), action.run function = .ok ((), later) →
        function.Develops action.feed later) ∧
      ∀ file : RegisterFile, file.Seeded → ∀ values source register,
        (receive file values source).feed (file.phi register) =
            [(values.get register, source)] ∧
          ∀ sender : RegisterFile, (propagate sender source file).feed (file.phi register) =
            [(sender.get register, source)] := by
  refine ⟨arranged_forM hrun (Function.arranged_declare name linkage params result), ?_, ?_⟩
  · intro action later hlater
    exact (action.orderly function () later hlater).2
  · intro file hseeded values source register
    exact ⟨received_phi hseeded values source register, fun sender =>
      received_phi hseeded sender.values source register⟩

/-- Phis and other entries of two blocks in turn. -/
def interleaved : List Action :=
  [.single (.addBlock "start"), .single (.addBlock "l_8000"), .load .nes ⟨1⟩ 0x0802,
    .single (.addPhi ⟨1⟩ .i8 "first"), .single (.operate ⟨0⟩ (.binary .add ⟨0⟩ ⟨1⟩)),
    .single (.addPhi ⟨1⟩ .i8 "second"), .single (.addIncoming ⟨6⟩ ⟨5⟩ ⟨0⟩),
    .single (.terminate ⟨0⟩ (.br ⟨1⟩))]

def interleavedFunction : Function where
  name := "f_8000"
  linkage := .external
  params := [⟨0⟩, ⟨1⟩]
  result := .regs
  values := #[⟨.param 0, .i8, some "A"⟩, ⟨.param 1, .i8, some "X"⟩, ⟨.const 2, .i16, none⟩,
    ⟨.call "nes_read" [⟨2⟩], .i8, none⟩, ⟨.phi [], .i8, some "first"⟩,
    ⟨.binary .add ⟨0⟩ ⟨1⟩, .i8, none⟩, ⟨.phi [(⟨5⟩, ⟨0⟩)], .i8, some "second"⟩]
  blocks := #[{ label := "start", insts := #[⟨5⟩], terminator := some (.br ⟨1⟩) },
    { label := "l_8000", insts := #[⟨4⟩, ⟨6⟩, ⟨3⟩] }]

theorem arranged_interleaved :
    interleaved.forM run (Function.declare "f_8000" .external [("A", .i8), ("X", .i8)] .regs) =
        .ok ((), interleavedFunction) ∧
      interleavedFunction.Arranged ∧
      ∃ later, (single (.addIncoming ⟨4⟩ ⟨0⟩ ⟨1⟩)).run interleavedFunction = .ok ((), later) ∧
        interleavedFunction.Develops (fun id => if ⟨4⟩ = id then [(⟨0⟩, ⟨1⟩)] else []) later := by
  have hrun : interleaved.forM run (Function.declare "f_8000" .external
      [("A", .i8), ("X", .i8)] .regs) = .ok ((), interleavedFunction) := by
    decide +kernel
  obtain ⟨harranged, hdevelops, _⟩ := arranged_of_run hrun
  exact ⟨hrun, harranged, _, rfl, hdevelops (single (.addIncoming ⟨4⟩ ⟨0⟩ ⟨1⟩)) _ rfl⟩

end Action

end Lift6502
