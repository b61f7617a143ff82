import Lift6502.Proofs.Disassembly
import Lift6502.Proofs.Routine.Blocks
import Lift6502.Proofs.Routine.Sweeps

/-! The routines of a program: its entry, and whatever they call. Different
routines have different names. -/

namespace Lift6502

/-! Names -/

theorem routineName_inj {first second : Address}
    (hnames : routineName first = routineName second) : first = second := by
  have hdigits := congrArg String.toList hnames
  rw [toList_routineName, toList_routineName, List.cons_inj_right, List.cons_inj_right] at hdigits
  exact UInt16.toNat_inj.mp (Hex.digits_inj first.toNat_lt second.toNat_lt hdigits)

namespace Decoder

open Session

/-! Calls -/

variable {decoder : Decoder} {entry routine : Address} {pending rest : List Address}
  {found body routines : AddressSet} {journal journal' : Journal}

/-- Control reaches a call of the routine at `target` from `routine`. -/
def Calls (decoder : Decoder) (routine target : Address) : Prop :=
  ∃ address instruction, decoder.Reaches routine address ∧
    decoder.instruction? address = some instruction ∧ instruction.callTarget? = some target

theorem Passes.calls {address final callee : Address} {instructions : List Instruction}
    (hpasses : decoder.Passes address instructions final)
    (hreaches : decoder.Reaches routine address) {instruction : Instruction}
    (hmem : instruction ∈ instructions) (hcallee : instruction.callTarget? = some callee) :
    decoder.Calls routine callee := by
  induction hpasses with
  | nil => cases hmem
  | cons hdecoded hstraight hrest ih =>
      rcases List.mem_cons.mp hmem with rfl | hmem
      · exact ⟨_, _, hreaches, hdecoded, hcallee⟩
      · refine ih (hreaches.step hdecoded ?_) hmem
        rw [Instruction.successors_of_not_transfers hstraight]
        exact List.mem_cons_self

/-- The body of a routine has a call of the routine at `target`. -/
def BodyCalls (decoder : Decoder) (routine target : Address) : Prop :=
  ∃ body, (decoder.body routine).Gives (.ok body) ∧ ∃ address ∈ body, ∃ instruction,
    decoder.instruction? address = some instruction ∧ instruction.callTarget? = some target

theorem BodyCalls.calls {target : Address} (hcalls : decoder.BodyCalls routine target) :
    decoder.Calls routine target := by
  obtain ⟨body, hbody, address, haddress, instruction, hdecoded, htarget⟩ := hcalls
  obtain ⟨_, hrun⟩ := outcome_eq_ok_iff.mp (hbody {})
  exact ⟨address, instruction, (isBody_of_body hrun).reached address haddress, hdecoded, htarget⟩

/-- The entry is a routine, and so is what a routine calls. -/
structure CallClosed (decoder : Decoder) (entry : Address) (routines : AddressSet) : Prop where
  entry_mem : entry ∈ routines
  closed : ∀ routine ∈ routines, ∀ target, decoder.Calls routine target → target ∈ routines

/-- What holds of the search over calls at every step. -/
structure CallSearched (decoder : Decoder) (entry : Address) (pending : List Address)
    (found : AddressSet) : Prop where
  entry_mem : entry ∈ found ∨ entry ∈ pending
  closed : ∀ routine ∈ found, ∀ target, decoder.Calls routine target →
    target ∈ found ∨ target ∈ pending

theorem CallSearched.callClosed (hsearched : decoder.CallSearched entry pending found)
    (hnone : ∀ routine ∈ pending, routine ∈ found) : decoder.CallClosed entry found where
  entry_mem := hsearched.entry_mem.elim id (hnone entry)
  closed routine hroutine target hcalls :=
    (hsearched.closed routine hroutine target hcalls).elim id (hnone target)

/-- What was pending stays so, and the calls of a body are found or pending. -/
theorem pushCalls_ok {pending' : List Address}
    (hrun : decoder.pushCalls found body pending journal = .ok pending' journal') :
    (∀ target ∈ pending, target ∈ pending') ∧
      ∀ address ∈ body, ∀ instruction target, decoder.instruction? address = some instruction →
        instruction.callTarget? = some target → target ∈ found ∨ target ∈ pending' := by
  have hmem : ∀ address ∈ body, address ∈ body.toList := fun _ => Std.TreeSet.mem_toList.mpr
  unfold pushCalls at hrun
  generalize body.toList = addresses at hrun hmem
  suffices hall : (∀ target ∈ pending, target ∈ pending') ∧
      ∀ address ∈ addresses, ∀ instruction target,
        decoder.instruction? address = some instruction →
        instruction.callTarget? = some target → target ∈ found ∨ target ∈ pending' from
    ⟨hall.1, fun address haddress => hall.2 address (hmem address haddress)⟩
  clear hmem
  induction addresses generalizing pending journal with
  | nil =>
      cases hrun
      exact ⟨fun _ htarget => htarget, fun _ haddress => nomatch haddress⟩
  | cons address rest ih =>
      rw [List.foldlM_cons] at hrun
      obtain ⟨pushed, _, hfirst, hrest⟩ := exists_of_bind_ok hrun
      obtain ⟨instruction, _, hdecode, hpush⟩ := exists_of_bind_ok hfirst
      obtain ⟨hkept, hothers⟩ := ih hrest
      have hpushed : (∀ target ∈ pending, target ∈ pushed) ∧
          ∀ target, instruction.callTarget? = some target → target ∈ found ∨ target ∈ pushed := by
        cases hcall : instruction.callTarget? with
        | none =>
            rw [hcall] at hpush
            cases hpush
            exact ⟨fun _ htarget => htarget, fun _ htarget => nomatch htarget⟩
        | some callee =>
            simp only [hcall] at hpush
            by_cases hfound : found.contains callee
            · rw [if_pos hfound] at hpush
              cases hpush
              refine ⟨fun _ htarget => htarget, fun target htarget => .inl ?_⟩
              cases htarget
              exact Std.TreeSet.contains_iff_mem.mp hfound
            · rw [if_neg hfound] at hpush
              cases hpush
              refine ⟨fun _ => List.mem_cons_of_mem _, fun target htarget => .inr ?_⟩
              cases htarget
              exact List.mem_cons_self
      refine ⟨fun target htarget => hkept target (hpushed.1 target htarget), ?_⟩
      intro member hmember instruction' target hdecoded htarget
      rcases List.mem_cons.mp hmember with rfl | hmember
      · cases (instruction?_of_decode hdecode).symm.trans hdecoded
        exact (hpushed.2 target htarget).imp id (hkept target)
      · exact hothers member hmember instruction' target hdecoded htarget

theorem mem_of_pushCalls {pending' : List Address}
    (hrun : decoder.pushCalls found body pending journal = .ok pending' journal')
    {target : Address} (htarget : target ∈ pending') :
    target ∈ pending ∨ ∃ address ∈ body, ∃ instruction,
      decoder.instruction? address = some instruction ∧ instruction.callTarget? = some target := by
  have hmem : ∀ address ∈ body.toList, address ∈ body := fun _ => Std.TreeSet.mem_toList.mp
  unfold pushCalls at hrun
  generalize body.toList = addresses at hrun hmem
  induction addresses generalizing pending journal with
  | nil =>
      cases hrun
      exact .inl htarget
  | cons address rest ih =>
      rw [List.foldlM_cons] at hrun
      obtain ⟨pushed, _, hfirst, hrest⟩ := exists_of_bind_ok hrun
      obtain ⟨instruction, _, hdecode, hpush⟩ := exists_of_bind_ok hfirst
      rcases ih hrest fun member hmember => hmem member (List.mem_cons_of_mem _ hmember) with
        hpushed | hcalled
      · cases hcall : instruction.callTarget? with
        | none =>
            rw [hcall] at hpush
            cases hpush
            exact .inl hpushed
        | some callee =>
            simp only [hcall] at hpush
            split at hpush <;> cases hpush
            · exact .inl hpushed
            · rcases List.mem_cons.mp hpushed with rfl | hpushed
              · exact .inr ⟨address, hmem address List.mem_cons_self, instruction,
                  instruction?_of_decode hdecode, hcall⟩
              · exact .inl hpushed
      · exact .inr hcalled

/-- One step of the search: the calls of a new routine become pending. -/
theorem CallSearched.visit {pending' : List Address}
    (hsearched : decoder.CallSearched entry pending found)
    (hnext : pending.dropWhile found.contains = routine :: rest)
    (hbody : decoder.IsBody routine body)
    (hpush : decoder.pushCalls (found.insert routine) body rest journal = .ok pending' journal') :
    decoder.CallSearched entry pending' (found.insert routine) := by
  obtain ⟨hkept, hcalls⟩ := pushCalls_ok hpush
  have hmoved : ∀ target, target ∈ found ∨ target ∈ pending →
      target ∈ found.insert routine ∨ target ∈ pending' :=
    fun target htarget => (mem_insert_or_rest hnext htarget).imp id (hkept target)
  constructor
  · exact hmoved entry hsearched.entry_mem
  · intro member hmember target hcalled
    rcases AddressSet.mem_insert_iff.mp hmember with rfl | hmember
    · obtain ⟨address, instruction, hreaches, hdecoded, htarget⟩ := hcalled
      exact hcalls address (hbody.mem_of_reaches hreaches) instruction target
        hdecoded htarget
    · exact hmoved target (hsearched.closed member hmember target hcalled)

theorem callClosed_of_exploreCalls {unvisited : Nat}
    (hsearched : decoder.CallSearched entry pending found)
    (hsize : found.size + unvisited = addressCount)
    (hrun : decoder.exploreCalls unvisited pending found journal = .ok routines journal') :
    decoder.CallClosed entry routines := by
  induction unvisited generalizing pending found journal with
  | zero =>
      cases hrun
      exact hsearched.callClosed fun address _ =>
        AddressSet.mem_of_addressCount_le_size (by omega) address
  | succ unvisited ih =>
      unfold exploreCalls at hrun
      cases hnext : pending.dropWhile found.contains with
      | nil =>
          rw [hnext] at hrun
          cases hrun
          exact hsearched.callClosed fun address => mem_of_dropWhile_eq_nil hnext
      | cons routine rest =>
          rw [hnext] at hrun
          obtain ⟨body, _, hbody, hrun⟩ := exists_of_bind_ok hrun
          obtain ⟨_, _, _, hrun⟩ := exists_of_bind_ok hrun
          obtain ⟨pending', _, hpush, hrun⟩ := exists_of_bind_ok hrun
          refine ih (hsearched.visit hnext (isBody_of_body hbody) hpush) ?_ hrun
          rw [size_insert_next hnext]
          omega

theorem callClosed_of_routines
    (hrun : decoder.routines entry journal = .ok routines journal') :
    decoder.CallClosed entry routines := by
  refine callClosed_of_exploreCalls ⟨.inr List.mem_cons_self, ?_⟩ ?_ hrun
  · intro routine hroutine
    exact absurd hroutine Std.TreeSet.not_mem_emptyc
  · rw [Std.TreeSet.size_emptyc]
    exact Nat.zero_add _

theorem pushCalls_steady (decoder : Decoder) (found body : AddressSet) (pending : List Address) :
    (decoder.pushCalls found body pending).Steady := by
  unfold pushCalls
  generalize body.toList = addresses
  induction addresses generalizing pending with
  | nil => exact ⟨_, gives_pure _⟩
  | cons address rest ih =>
      rw [List.foldlM_cons]
      refine .bind (.bind (decode_steady decoder address) fun instruction => ?_) ih
      split <;> exact ⟨_, gives_pure _⟩

theorem exploreCalls_steady (decoder : Decoder) (unvisited : Nat) (pending : List Address)
    (found : AddressSet) : (decoder.exploreCalls unvisited pending found).Steady := by
  induction unvisited generalizing pending found with
  | zero => exact ⟨_, gives_pure _⟩
  | succ unvisited ih =>
      unfold exploreCalls
      split
      · exact ⟨_, gives_pure _⟩
      · refine .bind (body_steady decoder _) fun body => .bind ⟨_, gives_note _⟩ fun _ => ?_
        exact .bind (pushCalls_steady decoder _ body _) fun pending => ih pending _

theorem routines_steady (decoder : Decoder) (entry : Address) :
    (decoder.routines entry).Steady :=
  exploreCalls_steady decoder _ _ _

/-- Whatever contains what is found and pending, and is closed under the calls
of bodies, contains all routines; and all routines have bodies. -/
theorem mem_of_exploreCalls {unvisited : Nat} {limits : Address → Prop}
    (hlimits : ∀ routine, limits routine → ∀ target, decoder.BodyCalls routine target →
      limits target)
    (hfound : ∀ routine ∈ found, limits routine ∧ ∃ body, (decoder.body routine).Gives (.ok body))
    (hpending : ∀ routine ∈ pending, limits routine)
    (hrun : decoder.exploreCalls unvisited pending found journal = .ok routines journal') :
    ∀ routine ∈ routines, limits routine ∧ ∃ body, (decoder.body routine).Gives (.ok body) := by
  induction unvisited generalizing pending found journal with
  | zero =>
      cases hrun
      exact hfound
  | succ unvisited ih =>
      unfold exploreCalls at hrun
      cases hnext : pending.dropWhile found.contains with
      | nil =>
          rw [hnext] at hrun
          cases hrun
          exact hfound
      | cons routine rest =>
          rw [hnext] at hrun
          obtain ⟨body, _, hbody, hrun⟩ := exists_of_bind_ok hrun
          obtain ⟨_, _, _, hrun⟩ := exists_of_bind_ok hrun
          obtain ⟨pending', _, hpush, hrun⟩ := exists_of_bind_ok hrun
          have hgives := (body_steady decoder routine).gives_of_ok hbody
          have hsublist : routine :: rest ⊆ pending := by
            rw [← hnext]
            exact (List.dropWhile_sublist _).subset
          have hroutine := hpending routine (hsublist List.mem_cons_self)
          refine ih ?_ ?_ hrun
          · intro member hmember
            rcases AddressSet.mem_insert_iff.mp hmember with rfl | hmember
            · exact ⟨hroutine, body, hgives⟩
            · exact hfound member hmember
          · intro target htarget
            rcases mem_of_pushCalls hpush htarget with hrest | hcalled
            · exact hpending target (hsublist (List.mem_cons_of_mem _ hrest))
            · exact hlimits routine hroutine target ⟨body, hgives, hcalled⟩

theorem mem_of_routines {limits : Address → Prop} (hentry : limits entry)
    (hlimits : ∀ routine, limits routine → ∀ target, decoder.BodyCalls routine target →
      limits target)
    (hrun : decoder.routines entry journal = .ok routines journal') :
    ∀ routine ∈ routines, limits routine ∧ ∃ body, (decoder.body routine).Gives (.ok body) := by
  refine mem_of_exploreCalls hlimits ?_ ?_ hrun
  · intro routine hroutine
    exact absurd hroutine Std.TreeSet.not_mem_emptyc
  · intro routine hroutine
    rwa [List.mem_singleton.mp hroutine]

end Decoder

end Lift6502
