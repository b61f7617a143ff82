import Lift6502.Proofs.Reads
import Lift6502.Proofs.Routine.Sweeps

/-! The search for the body of a routine as a loop without a bound. The loop
ends, decodes no address twice, and finds exactly what control reaches, or
else an address of it that cannot be decoded. -/

namespace Lift6502

open Session

/-! Where control goes -/

namespace Instruction

/-- Control can go from an instruction to an address of the same routine.
Addresses are counted modulo 65536. -/
inductive LeadsTo (instruction : Instruction) (target : Address) : Prop
  | falls (hjump : instruction.operation ≠ .jump) (hret : instruction.operation ≠ .ret)
      (htarget : target.toNat = (instruction.location.toNat + instruction.length) % 65536)
  | branches {flag : Flag} {inverse : Bool} {offset : Int8}
      (hoperation : instruction.operation = .branch flag inverse)
      (hoperand : instruction.operand = some (.relative offset))
      (htarget : (target.toNat : Int) =
        (instruction.location.toNat + instruction.length + offset.toInt) % 65536)
  | jumps (hoperation : instruction.operation = .jump)
      (hoperand : instruction.operand = some (.absolute target))

section Successors

variable {instruction : Instruction} {location target : Address}

theorem leadsTo_iff_of_straight (hstraight : instruction.transfers = false) :
    instruction.LeadsTo target ↔ target = instruction.following := by
  rw [eq_following_iff]
  constructor
  · rintro (⟨_, _, htarget⟩ | ⟨hoperation, _, _⟩ | ⟨hoperation, _⟩)
    · exact htarget
    · simp [transfers, isBranch, hoperation] at hstraight
    · simp [transfers, isBranch, isTerminal, hoperation] at hstraight
  · intro htarget
    refine .falls ?_ ?_ htarget
    · intro hoperation
      simp [transfers, isBranch, isTerminal, hoperation] at hstraight
    · intro hoperation
      simp [transfers, isBranch, isTerminal, hoperation] at hstraight

theorem leadsTo_iff_of_branch {flag : Flag} {inverse : Bool} {offset : Int8}
    (hoperation : instruction.operation = .branch flag inverse)
    (hoperand : instruction.operand = some (.relative offset)) :
    instruction.LeadsTo target ↔ target = instruction.following + offset.toInt16.toUInt16 ∨
      target = instruction.following := by
  rw [eq_relative_iff, eq_following_iff]
  constructor
  · rintro (⟨_, _, htarget⟩ | ⟨_, hoffset, htarget⟩ | ⟨hjump, _⟩)
    · exact .inr htarget
    · cases hoperand.symm.trans hoffset
      exact .inl htarget
    · cases hoperation.symm.trans hjump
  · rintro (htarget | htarget)
    · exact .branches hoperation hoperand htarget
    · refine .falls ?_ ?_ htarget <;> simp [hoperation]

theorem leadsTo_iff_of_jump {destination : Address} (hoperation : instruction.operation = .jump)
    (hoperand : instruction.operand = some (.absolute destination)) :
    instruction.LeadsTo target ↔ target = destination := by
  constructor
  · rintro (⟨hjump, _, _⟩ | ⟨hbranch, _, _⟩ | ⟨_, htarget⟩)
    · exact absurd hoperation hjump
    · cases hoperation.symm.trans hbranch
    · cases hoperand.symm.trans htarget
      rfl
  · rintro rfl
    exact .jumps hoperation hoperand

theorem not_leadsTo_of_ret (hoperation : instruction.operation = .ret) :
    ¬instruction.LeadsTo target := by
  rintro (⟨_, hret, _⟩ | ⟨hbranch, _, _⟩ | ⟨hjump, _⟩)
  · exact hret hoperation
  · cases hoperation.symm.trans hbranch
  · cases hoperation.symm.trans hjump

theorem mem_successors_iff (hplaced : instruction.PlacedAt location) :
    target ∈ instruction.successors ↔ instruction.LeadsTo target := by
  cases htransfers : instruction.transfers with
  | false =>
      rw [successors_of_not_transfers htransfers, List.mem_singleton,
        leadsTo_iff_of_straight htransfers]
  | true =>
      have htakes := hplaced.takes_mode
      cases hoperation : instruction.operation with
      | branch flag inverse =>
          rw [hoperation] at htakes
          obtain ⟨offset, hoperand⟩ := operand_of_relative (beq_iff_eq.mp htakes)
          have htarget : instruction.target? =
              some (instruction.following + offset.toInt16.toUInt16) := by
            rw [target?, hoperand]
            rfl
          rw [successors_of_branch hoperation htarget, leadsTo_iff_of_branch hoperation hoperand,
            List.mem_cons, List.mem_singleton]
      | jump =>
          rw [hoperation] at htakes
          obtain ⟨destination, hoperand⟩ := operand_of_absolute (beq_iff_eq.mp htakes)
          have htarget : instruction.target? = some destination := by
            rw [target?, hoperand]
            rfl
          rw [successors_of_jump hoperation htarget, leadsTo_iff_of_jump hoperation hoperand,
            List.mem_singleton]
      | ret =>
          rw [successors_of_ret hoperation]
          exact ⟨fun hmem => absurd hmem List.not_mem_nil, fun hleads =>
            absurd hleads (not_leadsTo_of_ret hoperation)⟩
      | _ => simp [transfers, isBranch, isTerminal, hoperation] at htransfers

end Successors

end Instruction

/-! The loop -/

namespace Decoder

variable {decoder : Decoder}

/-- The search without a bound. The next pending address is passed over if it
was visited before, and otherwise decoded; what follows it becomes pending. The
addresses that are decoded are listed in their order. -/
inductive Walks (decoder : Decoder) :
    List Address → AddressSet → List Address → Except DecodeError AddressSet → Prop
  | done (visited : AddressSet) : Walks decoder [] visited [] (.ok visited)
  | skip {address : Address} {rest decoded : List Address} {visited : AddressSet}
      {result : Except DecodeError AddressSet} (hvisited : address ∈ visited)
      (hrest : Walks decoder rest visited decoded result) :
      Walks decoder (address :: rest) visited decoded result
  | fail {address : Address} {rest : List Address} {visited : AddressSet} {error : DecodeError}
      (hfresh : address ∉ visited) (hdecoded : decoder.decoded address = .error error) :
      Walks decoder (address :: rest) visited [address] (.error error)
  | visit {address : Address} {rest decoded : List Address} {visited : AddressSet}
      {result : Except DecodeError AddressSet} {instruction : Instruction}
      (hfresh : address ∉ visited) (hdecoded : decoder.decoded address = .ok instruction)
      (hrest : Walks decoder (instruction.successors.reverse ++ rest) (visited.insert address)
        decoded result) :
      Walks decoder (address :: rest) visited (address :: decoded) result

section Walks

variable {pending decoded : List Address} {visited : AddressSet}
  {result : Except DecodeError AddressSet}

theorem Walks.unique {other : List Address} {result' : Except DecodeError AddressSet}
    (hwalks : decoder.Walks pending visited decoded result)
    (hother : decoder.Walks pending visited other result') :
    other = decoded ∧ result' = result := by
  induction hwalks generalizing other result' with
  | done visited =>
      cases hother
      exact ⟨rfl, rfl⟩
  | skip hvisited hrest ih =>
      cases hother with
      | skip _ hother => exact ih hother
      | fail hfresh => exact absurd hvisited hfresh
      | visit hfresh => exact absurd hvisited hfresh
  | fail hfresh hdecoded =>
      cases hother with
      | skip hvisited => exact absurd hvisited hfresh
      | fail _ hfound =>
          cases hdecoded.symm.trans hfound
          exact ⟨rfl, rfl⟩
      | visit _ hfound => cases hdecoded.symm.trans hfound
  | visit hfresh hdecoded hrest ih =>
      cases hother with
      | skip hvisited => exact absurd hvisited hfresh
      | fail _ hfound => cases hdecoded.symm.trans hfound
      | visit _ hfound hother =>
          cases hdecoded.symm.trans hfound
          obtain ⟨rfl, rfl⟩ := ih hother
          exact ⟨rfl, rfl⟩

theorem Walks.nodup (hwalks : decoder.Walks pending visited decoded result) :
    decoded.Nodup ∧ ∀ address ∈ decoded, address ∉ visited := by
  induction hwalks with
  | done visited => exact ⟨List.nodup_nil, fun address haddress => nomatch haddress⟩
  | skip hvisited hrest ih => exact ih
  | fail hfresh hdecoded =>
      refine ⟨List.pairwise_singleton _ _, fun address haddress => ?_⟩
      rw [List.mem_singleton.mp haddress]
      exact hfresh
  | visit hfresh hdecoded hrest ih =>
      constructor
      · apply List.nodup_cons.mpr
        refine ⟨fun hagain => ?_, ih.1⟩
        exact ih.2 _ hagain (AddressSet.mem_insert_iff.mpr (.inl rfl))
      · intro other hother
        rcases List.mem_cons.mp hother with rfl | hother
        · exact hfresh
        · intro hvisited
          exact ih.2 other hother (AddressSet.mem_insert_iff.mpr (.inr hvisited))

/-- A loop that fails has reached an address that cannot be decoded. -/
theorem Walks.reaches_error {entry : Address} {error : DecodeError}
    (hwalks : decoder.Walks pending visited decoded (.error error))
    (hpending : ∀ address ∈ pending, decoder.Reaches entry address) :
    ∃ address, decoder.Reaches entry address ∧ decoder.decoded address = .error error := by
  generalize hresult : Except.error error = result at hwalks
  induction hwalks with
  | done visited => cases hresult
  | skip hvisited hrest ih =>
      apply ih _ hresult
      exact fun address haddress => hpending address (List.mem_cons_of_mem _ haddress)
  | fail hfresh hdecoded =>
      cases hresult
      exact ⟨_, hpending _ List.mem_cons_self, hdecoded⟩
  | visit hfresh hdecoded hrest ih =>
      apply ih _ hresult
      intro target htarget
      rcases List.mem_append.mp htarget with hsuccessor | htarget
      · exact (hpending _ List.mem_cons_self).step (instruction?_eq_some_iff.mpr hdecoded)
          (List.mem_reverse.mp hsuccessor)
      · exact hpending target (List.mem_cons_of_mem _ htarget)

/-- The addresses that were visited before are passed over one by one. -/
theorem Walks.of_dropWhile
    (hwalks : decoder.Walks (pending.dropWhile visited.contains) visited decoded result) :
    decoder.Walks pending visited decoded result := by
  induction pending with
  | nil => exact hwalks
  | cons address rest ih =>
      by_cases hvisited : visited.contains address
      · rw [List.dropWhile_cons_of_pos hvisited] at hwalks
        exact .skip (Std.TreeSet.contains_iff_mem.mp hvisited) (ih hwalks)
      · rwa [List.dropWhile_cons_of_neg hvisited] at hwalks

theorem Walks.of_visited (hall : ∀ address ∈ pending, address ∈ visited) :
    decoder.Walks pending visited [] (.ok visited) := by
  induction pending with
  | nil => exact .done visited
  | cons address rest ih =>
      apply Walks.skip (hall address List.mem_cons_self)
      exact ih fun other hother => hall other (List.mem_cons_of_mem _ hother)

end Walks

section Next

variable {visited : AddressSet} {pending rest : List Address} {address : Address}

theorem not_mem_of_next (hnext : pending.dropWhile visited.contains = address :: rest) :
    address ∉ visited := by
  rw [← Std.TreeSet.contains_iff_mem, contains_next hnext]
  exact Bool.false_ne_true

theorem explore_of_none (decoder : Decoder) (unvisited : Nat)
    (hnext : pending.dropWhile visited.contains = []) :
    decoder.explore (unvisited + 1) pending visited = pure visited := by
  rw [explore, hnext]

theorem explore_of_next (decoder : Decoder) (unvisited : Nat)
    (hnext : pending.dropWhile visited.contains = address :: rest) :
    decoder.explore (unvisited + 1) pending visited = (do
      let instruction ← decoder.decode address
      decoder.explore unvisited (instruction.successors.reverse ++ rest)
        (visited.insert address)) := by
  rw [explore, hnext]

end Next

/-- The search with a bound does what the loop does, if the bound is the
number of addresses that were not visited: then it is never used up. -/
theorem explore_walks (decoder : Decoder) {unvisited : Nat} {visited : AddressSet}
    (hsize : visited.size + unvisited = addressCount) (pending : List Address) :
    ∃ decoded result, decoder.Walks pending visited decoded result ∧
      (decoder.explore unvisited pending visited).Gives result ∧
      ∀ journal, (decoder.explore unvisited pending visited).after journal =
        decoder.decodeAll decoded journal := by
  induction unvisited generalizing pending visited with
  | zero =>
      refine ⟨[], .ok visited, .of_visited fun address _ => ?_, gives_pure visited, fun _ => rfl⟩
      exact AddressSet.mem_of_addressCount_le_size (by omega) address
  | succ unvisited ih =>
      cases hnext : pending.dropWhile visited.contains with
      | nil =>
          rw [explore_of_none decoder unvisited hnext]
          refine ⟨[], .ok visited, .of_dropWhile ?_, gives_pure visited, fun _ => rfl⟩
          rw [hnext]
          exact .done visited
      | cons address rest =>
          rw [explore_of_next decoder unvisited hnext]
          have hfresh := not_mem_of_next hnext
          have hgives := decode_gives decoder address
          cases hdecoded : decoder.decoded address with
          | error error =>
              rw [hdecoded] at hgives
              refine ⟨[address], .error error, .of_dropWhile ?_, hgives.bind_error, ?_⟩
              · rw [hnext]
                exact .fail hfresh hdecoded
              · intro journal
                obtain ⟨journal', hrun⟩ := outcome_eq_error_iff.mp (hgives journal)
                exact (after_of_error (bind_run_error hrun)).trans (after_of_error hrun).symm
          | ok instruction =>
              rw [hdecoded] at hgives
              have hrest : (visited.insert address).size + unvisited = addressCount := by
                rw [size_insert_next hnext]
                omega
              obtain ⟨decoded, result, hwalks, hresult, hafter⟩ :=
                ih hrest (instruction.successors.reverse ++ rest)
              refine ⟨address :: decoded, result, .of_dropWhile ?_, hgives.bind_ok hresult, ?_⟩
              · rw [hnext]
                exact .visit hfresh hdecoded hwalks
              · intro journal
                obtain ⟨journal', hrun⟩ := outcome_eq_ok_iff.mp (hgives journal)
                rw [after_bind_ok hrun, hafter, ← after_of_ok hrun]
                rfl

/-! The body -/

theorem body_walks (decoder : Decoder) (entry : Address) (journal : Journal) :
    ∃ decoded, decoder.Walks [entry] ∅ decoded ((decoder.body entry).outcome journal) ∧
      (decoder.body entry).after journal = decoder.decodeAll decoded journal := by
  have hsize : (∅ : AddressSet).size + addressCount = addressCount := by
    rw [Std.TreeSet.size_emptyc, Nat.zero_add]
  obtain ⟨decoded, result, hwalks, hresult, hafter⟩ := explore_walks decoder hsize [entry]
  refine ⟨decoded, ?_, hafter journal⟩
  rw [body, hresult journal]
  exact hwalks

section Outcome

variable {entry : Address} {journal : Journal}

theorem reaches_of_body_error {error : DecodeError}
    (houtcome : (decoder.body entry).outcome journal = .error error) :
    ∃ address, decoder.Reaches entry address ∧ decoder.decoded address = .error error := by
  obtain ⟨decoded, hwalks, _⟩ := body_walks decoder entry journal
  rw [houtcome] at hwalks
  apply hwalks.reaches_error
  intro address haddress
  rw [List.mem_singleton.mp haddress]
  exact .entry

theorem isBody_of_outcome {body : AddressSet}
    (houtcome : (decoder.body entry).outcome journal = .ok body) : decoder.IsBody entry body := by
  obtain ⟨journal', hrun⟩ := outcome_eq_ok_iff.mp houtcome
  exact isBody_of_body hrun

theorem IsBody.mem_iff_reaches {body : AddressSet} (hbody : decoder.IsBody entry body)
    (address : Address) : address ∈ body ↔ decoder.Reaches entry address :=
  ⟨hbody.reached address, hbody.mem_of_reaches⟩

theorem IsBody.following_mem_or_terminal {body : AddressSet} (hbody : decoder.IsBody entry body)
    {address : Address} (haddress : address ∈ body) :
    ∃ instruction, decoder.decoded address = .ok instruction ∧
      (instruction.isTerminal = true ∨ instruction.following ∈ body) := by
  obtain ⟨instruction, hdecoded⟩ := hbody.decodes address haddress
  refine ⟨instruction, instruction?_eq_some_iff.mp hdecoded, ?_⟩
  cases hterminal : instruction.isTerminal with
  | true => exact .inl rfl
  | false =>
      apply Or.inr
      apply hbody.closed address haddress instruction hdecoded
      rw [Instruction.successors, hterminal]
      exact List.mem_append_right _ (List.mem_singleton_self _)

end Outcome

/-- The search ends after decoding each address at most once. If everything
that control reaches from the entry can be decoded, it gives just that;
otherwise it gives the error at an address that control reaches. The blocks
of a body that was found start within it. -/
theorem body_exact (decoder : Decoder) (entry : Address) (journal : Journal) :
    (∃ decoded : List Address, decoded.Nodup ∧
      (∀ found result, decoder.Walks [entry] ∅ found result ↔
        found = decoded ∧ result = (decoder.body entry).outcome journal) ∧
      (decoder.body entry).after journal = decoder.decodeAll decoded journal) ∧
    (∀ address instruction, decoder.decoded address = .ok instruction →
      ∀ target, target ∈ instruction.successors ↔ instruction.LeadsTo target) ∧
    ((∀ address, decoder.Reaches entry address →
        ∃ instruction, decoder.decoded address = .ok instruction) →
      ∃ body, (decoder.body entry).outcome journal = .ok body ∧
        ∀ address, address ∈ body ↔ decoder.Reaches entry address) ∧
    ((∃ address error, decoder.Reaches entry address ∧
        decoder.decoded address = .error error) →
      ∃ address error, decoder.Reaches entry address ∧
        decoder.decoded address = .error error ∧
        (decoder.body entry).outcome journal = .error error) ∧
    ∀ body, (decoder.body entry).outcome journal = .ok body →
      (∀ address ∈ body, ∃ instruction, decoder.decoded address = .ok instruction ∧
        (instruction.isTerminal = true ∨ instruction.following ∈ body)) ∧
      ∃ leaders, (decoder.leaders entry body).Gives (.ok leaders) ∧ entry ∈ leaders ∧
        ∀ leader ∈ leaders, leader ∈ body := by
  refine ⟨?_, ?_, ?_, ?_, ?_⟩
  · obtain ⟨decoded, hwalks, hafter⟩ := body_walks decoder entry journal
    refine ⟨decoded, hwalks.nodup.1, fun found result => ⟨hwalks.unique, ?_⟩, hafter⟩
    rintro ⟨rfl, rfl⟩
    exact hwalks
  · intro address instruction hdecoded target
    apply Instruction.mem_successors_iff
    exact placedAt_of_instruction? (instruction?_eq_some_iff.mpr hdecoded)
  · intro hdecodes
    cases houtcome : (decoder.body entry).outcome journal with
    | ok body => exact ⟨body, rfl, (isBody_of_outcome houtcome).mem_iff_reaches⟩
    | error error =>
        obtain ⟨address, hreaches, hfails⟩ := reaches_of_body_error houtcome
        obtain ⟨instruction, hdecoded⟩ := hdecodes address hreaches
        cases hdecoded.symm.trans hfails
  · rintro ⟨address, error, hreaches, hfails⟩
    cases houtcome : (decoder.body entry).outcome journal with
    | ok body =>
        have hbody := isBody_of_outcome houtcome
        obtain ⟨instruction, hdecoded⟩ := hbody.decodes address (hbody.mem_of_reaches hreaches)
        cases (instruction?_eq_some_iff.mp hdecoded).symm.trans hfails
    | error cause =>
        obtain ⟨failing, hfailing, hcause⟩ := reaches_of_body_error houtcome
        exact ⟨failing, cause, hfailing, hcause, rfl⟩
  · intro body houtcome
    have hbody := isBody_of_outcome houtcome
    refine ⟨fun address haddress => hbody.following_mem_or_terminal haddress, ?_⟩
    obtain ⟨leaders, hleaders, hmem⟩ := hbody.leaders_gives
    refine ⟨leaders, hleaders, (hmem entry).mpr (.inl rfl), fun leader hleader => ?_⟩
    exact hbody.mem_of_isLeader ((hmem leader).mp hleader)

end Decoder

end Lift6502
