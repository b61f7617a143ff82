import Lift6502.Proofs.Decoding
import Mathlib.Data.List.Perm.Subperm

/-! The body of a routine is the set of addresses that control reaches from
the entry, and its leaders lie within it. -/

namespace Lift6502

open Session

namespace AddressSet

theorem mem_insert_iff {addresses : AddressSet} {added address : Address} :
    address ∈ addresses.insert added ↔ address = added ∨ address ∈ addresses := by
  rw [Std.TreeSet.mem_insert, Std.LawfulEqCmp.compare_eq_iff_eq, eq_comm]

theorem mem_foldl_insert_iff {added : List Address} {addresses : AddressSet}
    {address : Address} :
    address ∈ added.foldl (fun found leader => found.insert leader) addresses ↔
      address ∈ addresses ∨ address ∈ added := by
  induction added generalizing addresses with
  | nil => simp
  | cons head tail ih =>
      rw [List.foldl_cons, ih, mem_insert_iff, List.mem_cons]
      constructor
      · rintro ((rfl | hold) | htail)
        · exact .inr (.inl rfl)
        · exact .inl hold
        · exact .inr (.inr htail)
      · rintro (hold | rfl | htail)
        · exact .inl (.inr hold)
        · exact .inl (.inl rfl)
        · exact .inr htail

theorem nodup_toList (addresses : AddressSet) : addresses.toList.Nodup := by
  refine addresses.distinct_toList.imp ?_
  intro first second hdistinct heq
  exact hdistinct (Std.LawfulEqCmp.compare_eq_iff_eq.mpr heq)

theorem pairwise_lt_toList (addresses : AddressSet) :
    addresses.toList.Pairwise fun first second => first < second := by
  refine addresses.ordered_toList.imp ?_
  intro first second hordered
  exact Std.compare_eq_lt.mp hordered

/-- The last member in order is the highest. -/
theorem exists_getLast? {addresses : AddressSet} {member : Address}
    (hmember : member ∈ addresses) :
    ∃ highest, addresses.toList.getLast? = some highest ∧ highest ∈ addresses ∧
      ∀ address ∈ addresses, address ≤ highest := by
  obtain ⟨before, highest, hlist⟩ := (List.eq_nil_or_concat' addresses.toList).resolve_left
    (List.ne_nil_of_mem (Std.TreeSet.mem_toList.mpr hmember))
  have hascending := addresses.pairwise_lt_toList
  rw [hlist] at hascending
  refine ⟨highest, by rw [hlist, List.getLast?_concat], ?_, fun address haddress => ?_⟩
  · rw [← Std.TreeSet.mem_toList, hlist]
    exact List.mem_concat_self
  · rw [← Std.TreeSet.mem_toList, hlist, List.mem_append, List.mem_singleton] at haddress
    rcases haddress with hbefore | rfl
    · exact UInt16.le_of_lt
        ((List.pairwise_append.mp hascending).2.2 address hbefore highest List.mem_cons_self)
    · exact UInt16.le_refl _

theorem subperm_range_of_nodup {addresses : List Address} (hnodup : addresses.Nodup) :
    (addresses.map UInt16.toNat).Subperm (List.range addressCount) := by
  have hnumbers : (addresses.map UInt16.toNat).Nodup :=
    List.pairwise_map.mpr (hnodup.imp fun hne heq => hne (UInt16.toNat_inj.mp heq))
  refine List.subperm_of_subset hnumbers fun number hnumber => ?_
  obtain ⟨member, _, rfl⟩ := List.mem_map.mp hnumber
  exact List.mem_range.mpr member.toNat_lt

theorem length_le_of_nodup {addresses : List Address} (hnodup : addresses.Nodup) :
    addresses.length ≤ addressCount := by
  have hlength := (subperm_range_of_nodup hnodup).length_le
  rwa [List.length_map, List.length_range] at hlength

theorem mem_of_addressCount_le_size {addresses : AddressSet}
    (hsize : addressCount ≤ addresses.size) (address : Address) : address ∈ addresses := by
  have hperm : (addresses.toList.map UInt16.toNat).Perm (List.range addressCount) := by
    refine (subperm_range_of_nodup (nodup_toList addresses)).perm_of_length_le ?_
    rw [List.length_range, List.length_map, Std.TreeSet.length_toList]
    exact hsize
  have hmem : address.toNat ∈ addresses.toList.map UInt16.toNat :=
    hperm.mem_iff.mpr (List.mem_range.mpr address.toNat_lt)
  obtain ⟨member, hmember, heq⟩ := List.mem_map.mp hmem
  rw [← UInt16.toNat_inj.mp heq]
  exact Std.TreeSet.mem_toList.mp hmember

end AddressSet

namespace Instruction

/-- Control does not simply go on to the following instruction. -/
def transfers (instruction : Instruction) : Bool :=
  instruction.isBranch || instruction.isTerminal

theorem transferTarget?_of_not_transfers {instruction : Instruction}
    (hstraight : instruction.transfers = false) : instruction.transferTarget? = none := by
  unfold transfers isBranch isTerminal at hstraight
  unfold transferTarget? branchTarget? jumpTarget? isBranch isJump
  cases hoperation : instruction.operation <;> rw [hoperation] at hstraight <;> simp_all

theorem successors_of_not_transfers {instruction : Instruction}
    (hstraight : instruction.transfers = false) :
    instruction.successors = [instruction.following] := by
  have hterminal : instruction.isTerminal = false := (Bool.or_eq_false_iff.mp hstraight).2
  unfold successors
  rw [transferTarget?_of_not_transfers hstraight, hterminal]
  rfl

theorem successors_of_branch {instruction : Instruction} {flag : Flag} {inverse : Bool}
    {target : Address} (hoperation : instruction.operation = .branch flag inverse)
    (htarget : instruction.target? = some target) :
    instruction.successors = [target, instruction.following] := by
  simp [successors, transferTarget?, branchTarget?, isBranch, isTerminal, hoperation, htarget]

theorem successors_of_jump {instruction : Instruction} {target : Address}
    (hoperation : instruction.operation = .jump) (htarget : instruction.target? = some target) :
    instruction.successors = [target] := by
  simp [successors, transferTarget?, branchTarget?, jumpTarget?, isBranch, isJump, isTerminal,
    hoperation, htarget]

theorem successors_of_ret {instruction : Instruction} (hoperation : instruction.operation = .ret) :
    instruction.successors = [] := by
  simp [successors, transferTarget?, branchTarget?, jumpTarget?, isBranch, isJump, isTerminal,
    hoperation]

theorem leaders_subset_successors {instruction : Instruction} {leader : Address}
    (hleader : leader ∈ instruction.leaders) : leader ∈ instruction.successors := by
  unfold leaders at hleader
  unfold successors
  rcases List.mem_append.mp hleader with htarget | hfollowing
  · exact List.mem_append_left _ htarget
  · refine List.mem_append_right _ ?_
    unfold isBranch at hfollowing
    unfold isTerminal
    cases hoperation : instruction.operation <;> rw [hoperation] at hfollowing <;> simp_all

theorem successors_subset_leaders_of_transfers {instruction : Instruction} {target : Address}
    (htransfers : instruction.transfers = true) (htarget : target ∈ instruction.successors) :
    target ∈ instruction.leaders := by
  unfold successors at htarget
  unfold leaders
  rcases List.mem_append.mp htarget with htarget | hfollowing
  · exact List.mem_append_left _ htarget
  · refine List.mem_append_right _ ?_
    unfold transfers isBranch isTerminal at htransfers
    unfold isTerminal at hfollowing
    unfold isBranch
    cases hoperation : instruction.operation <;> rw [hoperation] at hfollowing htransfers <;>
      simp_all

end Instruction

namespace Decoder

/-- Control reaches an address from the entry without entering a callee. -/
inductive Reaches (decoder : Decoder) (entry : Address) : Address → Prop
  | entry : Reaches decoder entry entry
  | step {address target : Address} {instruction : Instruction}
      (hreaches : Reaches decoder entry address)
      (hdecoded : decoder.instruction? address = some instruction)
      (htarget : target ∈ instruction.successors) :
      Reaches decoder entry target

/-- Control passes the instructions one after another from an address to
another, and none of them transfers it. -/
inductive Passes (decoder : Decoder) : Address → List Instruction → Address → Prop
  | nil (address : Address) : Passes decoder address [] address
  | cons {address final : Address} {instruction : Instruction} {rest : List Instruction}
      (hdecoded : decoder.instruction? address = some instruction)
      (hstraight : instruction.transfers = false)
      (hrest : Passes decoder instruction.following rest final) :
      Passes decoder address (instruction :: rest) final

/-- A set of addresses as the search for the body of a routine leaves it. -/
structure IsBody (decoder : Decoder) (entry : Address) (body : AddressSet) : Prop where
  entry_mem : entry ∈ body
  decodes : ∀ address ∈ body, ∃ instruction, decoder.instruction? address = some instruction
  closed : ∀ address ∈ body, ∀ instruction, decoder.instruction? address = some instruction →
    ∀ target ∈ instruction.successors, target ∈ body
  reached : ∀ address ∈ body, decoder.Reaches entry address

/-- What holds of the search for a body at every step. -/
structure Searched (decoder : Decoder) (entry : Address) (pending : List Address)
    (visited : AddressSet) : Prop where
  entry_mem : entry ∈ visited ∨ entry ∈ pending
  decodes : ∀ address ∈ visited, ∃ instruction, decoder.instruction? address = some instruction
  closed : ∀ address ∈ visited, ∀ instruction,
    decoder.instruction? address = some instruction →
      ∀ target ∈ instruction.successors, target ∈ visited ∨ target ∈ pending
  visited_reached : ∀ address ∈ visited, decoder.Reaches entry address
  pending_reached : ∀ address ∈ pending, decoder.Reaches entry address

theorem Searched.isBody {decoder : Decoder} {entry : Address} {pending : List Address}
    {visited : AddressSet} (hsearched : decoder.Searched entry pending visited)
    (hnone : ∀ address ∈ pending, address ∈ visited) : decoder.IsBody entry visited where
  entry_mem := hsearched.entry_mem.elim id (hnone entry)
  decodes := hsearched.decodes
  closed address haddress instruction hdecoded target htarget :=
    (hsearched.closed address haddress instruction hdecoded target htarget).elim id
      (hnone target)
  reached := hsearched.visited_reached

theorem mem_dropWhile_or_visited {visited : AddressSet} {pending : List Address}
    {address : Address} (hpending : address ∈ pending) :
    address ∈ visited ∨ address ∈ pending.dropWhile visited.contains := by
  induction pending with
  | nil => cases hpending
  | cons head tail ih =>
      by_cases hhead : visited.contains head
      · rw [List.dropWhile_cons_of_pos hhead]
        rcases List.mem_cons.mp hpending with rfl | htail
        · exact .inl (Std.TreeSet.contains_iff_mem.mp hhead)
        · exact ih htail
      · rw [List.dropWhile_cons_of_neg hhead]
        exact .inr hpending

section Next

variable {visited : AddressSet} {pending rest : List Address} {address target : Address}

theorem mem_of_dropWhile_eq_nil (hnext : pending.dropWhile visited.contains = [])
    (hpending : target ∈ pending) : target ∈ visited := by
  refine (mem_dropWhile_or_visited hpending).resolve_right ?_
  rw [hnext]
  exact List.not_mem_nil

theorem mem_insert_or_rest (hnext : pending.dropWhile visited.contains = address :: rest)
    (htarget : target ∈ visited ∨ target ∈ pending) :
    target ∈ visited.insert address ∨ target ∈ rest := by
  rw [AddressSet.mem_insert_iff]
  rcases htarget with hvisited | hpending
  · exact .inl (.inr hvisited)
  · rcases mem_dropWhile_or_visited hpending with hvisited | hdropped
    · exact .inl (.inr hvisited)
    · rw [hnext] at hdropped
      rcases List.mem_cons.mp hdropped with rfl | hrest
      · exact .inl (.inl rfl)
      · exact .inr hrest

theorem contains_next (hnext : pending.dropWhile visited.contains = address :: rest) :
    visited.contains address = false := by
  have hhead := List.head?_dropWhile_not visited.contains pending
  rw [hnext] at hhead
  exact hhead

theorem size_insert_next (hnext : pending.dropWhile visited.contains = address :: rest) :
    (visited.insert address).size = visited.size + 1 := by
  rw [Std.TreeSet.size_insert, contains_next hnext]
  rfl

end Next

/-- One step of the search: an address that is not yet visited is decoded. -/
theorem Searched.visit {decoder : Decoder} {entry address : Address}
    {pending rest : List Address} {visited : AddressSet} {instruction : Instruction}
    (hsearched : decoder.Searched entry pending visited)
    (hnext : pending.dropWhile visited.contains = address :: rest)
    (hdecoded : decoder.instruction? address = some instruction) :
    decoder.Searched entry (instruction.successors.reverse ++ rest) (visited.insert address) := by
  have hsublist : address :: rest ⊆ pending := by
    rw [← hnext]
    exact (List.dropWhile_sublist _).subset
  have haddress : decoder.Reaches entry address :=
    hsearched.pending_reached address (hsublist List.mem_cons_self)
  have hmoved : ∀ target, target ∈ visited ∨ target ∈ pending →
      target ∈ visited.insert address ∨ target ∈ instruction.successors.reverse ++ rest :=
    fun target htarget => (mem_insert_or_rest hnext htarget).imp id (List.mem_append_right _)
  constructor
  · exact hmoved entry hsearched.entry_mem
  · intro member hmember
    rcases AddressSet.mem_insert_iff.mp hmember with rfl | hmember
    · exact ⟨instruction, hdecoded⟩
    · exact hsearched.decodes member hmember
  · intro member hmember found hfound target htarget
    rcases AddressSet.mem_insert_iff.mp hmember with rfl | hmember
    · have heq : found = instruction := Option.some.inj (hfound.symm.trans hdecoded)
      subst found
      exact .inr (List.mem_append_left _ (List.mem_reverse.mpr htarget))
    · exact hmoved target (hsearched.closed member hmember found hfound target htarget)
  · intro member hmember
    rcases AddressSet.mem_insert_iff.mp hmember with rfl | hmember
    · exact haddress
    · exact hsearched.visited_reached member hmember
  · intro member hmember
    rcases List.mem_append.mp hmember with hsuccessor | hrest
    · exact haddress.step hdecoded (List.mem_reverse.mp hsuccessor)
    · exact hsearched.pending_reached member (hsublist (List.mem_cons_of_mem _ hrest))

theorem isBody_of_explore {decoder : Decoder} {entry : Address} {unvisited : Nat}
    {pending : List Address} {visited body : AddressSet} {journal journal' : Journal}
    (hsearched : decoder.Searched entry pending visited)
    (hsize : visited.size + unvisited = addressCount)
    (hrun : decoder.explore unvisited pending visited journal = .ok body journal') :
    decoder.IsBody entry body := by
  -- The steps of the search are as many as the addresses that are left, so the search never ends
  -- before nothing is pending.
  induction unvisited generalizing pending visited journal with
  | zero =>
      cases hrun
      exact hsearched.isBody fun address _ =>
        AddressSet.mem_of_addressCount_le_size (by omega) address
  | succ unvisited ih =>
      unfold explore at hrun
      cases hnext : pending.dropWhile visited.contains with
      | nil =>
          rw [hnext] at hrun
          cases hrun
          exact hsearched.isBody fun address => mem_of_dropWhile_eq_nil hnext
      | cons address rest =>
          rw [hnext] at hrun
          obtain ⟨instruction, _, hdecode, hrun⟩ := exists_of_bind_ok hrun
          refine ih (hsearched.visit hnext (instruction?_of_decode hdecode)) ?_ hrun
          rw [size_insert_next hnext]
          omega

theorem isBody_of_body {decoder : Decoder} {entry : Address} {body : AddressSet}
    {journal journal' : Journal} (hrun : decoder.body entry journal = .ok body journal') :
    decoder.IsBody entry body := by
  refine isBody_of_explore ?_ ?_ hrun
  · constructor
    · exact .inr List.mem_cons_self
    · intro address haddress
      exact absurd haddress Std.TreeSet.not_mem_emptyc
    · intro address haddress
      exact absurd haddress Std.TreeSet.not_mem_emptyc
    · intro address haddress
      exact absurd haddress Std.TreeSet.not_mem_emptyc
    · intro address haddress
      rw [List.mem_singleton.mp haddress]
      exact .entry
  · rw [Std.TreeSet.size_emptyc]
    exact Nat.zero_add _

theorem explore_steady (decoder : Decoder) (unvisited : Nat) (pending : List Address)
    (visited : AddressSet) : (decoder.explore unvisited pending visited).Steady := by
  induction unvisited generalizing pending visited with
  | zero => exact ⟨_, gives_pure _⟩
  | succ unvisited ih =>
      unfold explore
      split
      · exact ⟨_, gives_pure _⟩
      · exact (decode_steady decoder _).bind fun _ => ih _ _

theorem body_steady (decoder : Decoder) (entry : Address) : (decoder.body entry).Steady :=
  explore_steady decoder _ _ _

/-! Leaders -/

/-- The leaders of a body: its entry, and what its instructions lead to. -/
def IsLeader (decoder : Decoder) (entry : Address) (body : AddressSet) (leader : Address) :
    Prop :=
  leader = entry ∨ ∃ address ∈ body, ∃ instruction,
    decoder.instruction? address = some instruction ∧ leader ∈ instruction.leaders

theorem leaders_foldlM_gives {decoder : Decoder} {addresses : List Address}
    (hdecodes : ∀ address ∈ addresses, ∃ instruction,
      decoder.instruction? address = some instruction) (found : AddressSet) :
    ∃ leaders, Gives (addresses.foldlM (fun found address => do
        let instruction ← decoder.decode address
        return instruction.leaders.foldl (fun found leader => found.insert leader) found)
        found) (.ok leaders) ∧
      ∀ leader, leader ∈ leaders ↔ leader ∈ found ∨ ∃ address ∈ addresses, ∃ instruction,
        decoder.instruction? address = some instruction ∧ leader ∈ instruction.leaders := by
  induction addresses generalizing found with
  | nil => exact ⟨found, gives_pure found, by simp⟩
  | cons address rest ih =>
      obtain ⟨instruction, hdecoded⟩ := hdecodes address List.mem_cons_self
      have hrest : ∀ member ∈ rest, ∃ instruction,
          decoder.instruction? member = some instruction :=
        fun member hmember => hdecodes member (List.mem_cons_of_mem _ hmember)
      obtain ⟨leaders, hgives, hmem⟩ := ih hrest
        (instruction.leaders.foldl (fun found leader => found.insert leader) found)
      refine ⟨leaders, ?_, ?_⟩
      · rw [List.foldlM_cons]
        refine Gives.bind_ok ?_ hgives
        exact (decode_gives_of_instruction? hdecoded).bind_ok (gives_pure _)
      · intro leader
        rw [hmem, AddressSet.mem_foldl_insert_iff, or_assoc]
        refine or_congr_right ?_
        constructor
        · rintro (hleader | ⟨member, hmember, found, hfound, hleader⟩)
          · exact ⟨address, List.mem_cons_self, instruction, hdecoded, hleader⟩
          · exact ⟨member, List.mem_cons_of_mem _ hmember, found, hfound, hleader⟩
        · rintro ⟨member, hmember, found, hfound, hleader⟩
          rcases List.mem_cons.mp hmember with rfl | hmember
          · have heq : found = instruction := Option.some.inj (hfound.symm.trans hdecoded)
            exact .inl (heq ▸ hleader)
          · exact .inr ⟨member, hmember, found, hfound, hleader⟩

theorem IsBody.leaders_gives {decoder : Decoder} {entry : Address} {body : AddressSet}
    (hbody : decoder.IsBody entry body) :
    ∃ leaders, (decoder.leaders entry body).Gives (.ok leaders) ∧
      ∀ leader, leader ∈ leaders ↔ decoder.IsLeader entry body leader := by
  obtain ⟨leaders, hgives, hmem⟩ := leaders_foldlM_gives
    (fun address haddress => hbody.decodes address (Std.TreeSet.mem_toList.mp haddress)) {entry}
  refine ⟨leaders, hgives, fun leader => ?_⟩
  rw [hmem]
  unfold IsLeader
  refine or_congr ?_ ?_
  · show leader ∈ (∅ : AddressSet).insert entry ↔ _
    rw [AddressSet.mem_insert_iff]
    simp
  · simp only [Std.TreeSet.mem_toList]

theorem IsBody.mem_of_isLeader {decoder : Decoder} {entry : Address} {body : AddressSet}
    (hbody : decoder.IsBody entry body) {leader : Address}
    (hleader : decoder.IsLeader entry body leader) : leader ∈ body := by
  rcases hleader with rfl | ⟨address, haddress, instruction, hdecoded, hleader⟩
  · exact hbody.entry_mem
  · exact hbody.closed address haddress instruction hdecoded leader
      (Instruction.leaders_subset_successors hleader)

end Decoder

end Lift6502
