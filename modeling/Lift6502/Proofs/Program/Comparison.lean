import Lift6502.Program
import Lift6502.Proofs.Program.Routines
import Lift6502.Proofs.Routine.Outcome

/-! Two decoders side by side. A relation between sessions that composing them
keeps holds between the sessions that lift a program, as soon as it holds
between those that decode the instructions of the program. -/

namespace Lift6502

open Ssa Session

namespace Session

/-- The session can come to a value. -/
def Returns {ε α : Type} (session : Session ε α) (value : α) : Prop :=
  ∃ journal journal', session journal = .ok value journal'

/-- A relation between sessions that composing them keeps. What follows has to
be related only for the values that the first of the two can come to. Errors
of the kind `refusal` are those of decoding. -/
structure Congruence where
  Holds : ∀ {ε α : Type}, (ε → Prop) → Session ε α → Session ε α → Prop
  holds_ofExcept : ∀ {ε α : Type} (refusal : ε → Prop) (result : Except ε α),
    Holds refusal (ofExcept result) (ofExcept result)
  holds_note : ∀ {ε : Type} (refusal : ε → Prop) (event : Event), event.level ≠ .warn →
    Holds refusal (note event) (note event)
  holds_bind : ∀ {ε α β : Type} {refusal : ε → Prop} {first second : Session ε α}
    {next next' : α → Session ε β}, Holds refusal first second →
    (∀ value, first.Returns value → Holds refusal (next value) (next' value)) →
    Holds refusal (first >>= next) (second >>= next')
  holds_adaptExcept : ∀ {ε ε' α : Type} {refusal : ε → Prop} {refusal' : ε' → Prop}
    {change : ε → ε'} {first second : Session ε α},
    (∀ error, refusal error → refusal' (change error)) → Holds refusal first second →
    Holds refusal' (EStateM.adaptExcept change first) (EStateM.adaptExcept change second)

namespace Congruence

variable (congruence : Congruence) {ε α σ : Type} (refusal : ε → Prop)

theorem holds_pure (value : α) :
    congruence.Holds refusal (pure value : Session ε α) (pure value) :=
  congruence.holds_ofExcept refusal (.ok value)

theorem holds_foldlM {step step' : σ → α → Session ε σ} {items : List α}
    (hstep : ∀ state, ∀ item ∈ items,
      congruence.Holds refusal (step state item) (step' state item)) (state : σ) :
    congruence.Holds refusal (items.foldlM step state) (items.foldlM step' state) := by
  induction items generalizing state with
  | nil => exact congruence.holds_pure refusal state
  | cons item rest ih =>
      rw [List.foldlM_cons, List.foldlM_cons]
      apply congruence.holds_bind (hstep state item List.mem_cons_self)
      intro reached _
      exact ih (fun state' other hother => hstep state' other (List.mem_cons_of_mem _ hother))
        reached

end Congruence

end Session

/-- The routine could not be decoded. -/
def LiftError.IsRefusal (error : LiftError) : Prop :=
  ∃ cause, error = .decode cause

namespace Decoder

/-- Two decoders that decode alike at some addresses, which neither control nor
calls leave. -/
structure Alike (congruence : Session.Congruence) (first second : Decoder)
    (known : Address → Prop) : Prop where
  decode : ∀ address, known address →
    congruence.Holds (fun _ => True) (first.decode address) (second.decode address)
  successors : ∀ address, known address → ∀ instruction,
    first.instruction? address = some instruction → ∀ target ∈ instruction.successors, known target
  calls : ∀ address, known address → ∀ instruction,
    first.instruction? address = some instruction → ∀ target,
      instruction.callTarget? = some target → known target

theorem instruction?_of_returns {decoder : Decoder} {address : Address}
    {instruction : Instruction} (hreturns : (decoder.decode address).Returns instruction) :
    decoder.instruction? address = some instruction := by
  obtain ⟨_, _, hrun⟩ := hreturns
  exact instruction?_of_decode hrun

theorem instruction?_of_returns_toLift {decoder : Decoder} {address : Address}
    {instruction : Instruction} (hreturns : (decoder.decodeToLift address).Returns instruction) :
    decoder.instruction? address = some instruction := by
  obtain ⟨_, _, hrun⟩ := hreturns
  exact instruction?_of_decode (ok_of_adaptExcept hrun)

namespace Alike

variable {congruence : Session.Congruence} {first second : Decoder} {known : Address → Prop}
  (halike : Alike congruence first second known)

include halike

/-! Searches -/

theorem explore (unvisited : Nat) {pending : List Address}
    (hpending : ∀ address ∈ pending, known address) (visited : AddressSet) :
    congruence.Holds (fun _ => True) (first.explore unvisited pending visited)
      (second.explore unvisited pending visited) := by
  induction unvisited generalizing pending visited with
  | zero => exact congruence.holds_pure _ visited
  | succ unvisited ih =>
      unfold Decoder.explore
      cases hnext : pending.dropWhile visited.contains with
      | nil => exact congruence.holds_pure _ visited
      | cons address rest =>
          have hkept : ∀ other ∈ address :: rest, known other := by
            intro other hother
            apply hpending
            exact (List.dropWhile_sublist visited.contains).subset (hnext ▸ hother)
          have hknown := hkept address List.mem_cons_self
          apply congruence.holds_bind (halike.decode address hknown)
          intro instruction hreturns
          apply ih
          intro target htarget
          rcases List.mem_append.mp htarget with hsuccessor | hrest
          · exact halike.successors address hknown instruction
              (instruction?_of_returns hreturns) target (List.mem_reverse.mp hsuccessor)
          · exact hkept target (List.mem_cons_of_mem _ hrest)

theorem body {entry : Address} (hentry : known entry) :
    congruence.Holds (fun _ => True) (first.body entry) (second.body entry) := by
  apply halike.explore
  intro address haddress
  rwa [List.mem_singleton.mp haddress]

theorem known_of_reaches {entry address : Address} (hentry : known entry)
    (hreaches : first.Reaches entry address) : known address := by
  induction hreaches with
  | entry => exact hentry
  | step hreaches hdecoded htarget ih => exact halike.successors _ ih _ hdecoded _ htarget

theorem known_of_mem_body {entry : Address} (hentry : known entry) {found : AddressSet}
    (hreturns : (first.body entry).Returns found) : ∀ address ∈ found, known address := by
  obtain ⟨_, _, hrun⟩ := hreturns
  intro address haddress
  exact halike.known_of_reaches hentry ((isBody_of_body hrun).reached address haddress)

theorem leaders (entry : Address) {found : AddressSet}
    (hfound : ∀ address ∈ found, known address) :
    congruence.Holds (fun _ => True) (first.leaders entry found)
      (second.leaders entry found) := by
  apply congruence.holds_foldlM
  intro leaders address haddress
  apply congruence.holds_bind
    (halike.decode address (hfound address (Std.TreeSet.mem_toList.mp haddress)))
  intro instruction _
  exact congruence.holds_pure _ _

theorem pushCalls (routines : AddressSet) {found : AddressSet}
    (hfound : ∀ address ∈ found, known address) (pending : List Address) :
    congruence.Holds (fun _ => True) (first.pushCalls routines found pending)
      (second.pushCalls routines found pending) := by
  apply congruence.holds_foldlM
  intro pushed address haddress
  apply congruence.holds_bind
    (halike.decode address (hfound address (Std.TreeSet.mem_toList.mp haddress)))
  intro instruction _
  cases instruction.callTarget? <;> exact congruence.holds_pure _ _

theorem exploreCalls (unvisited : Nat) {pending : List Address}
    (hpending : ∀ address ∈ pending, known address) (found : AddressSet) :
    congruence.Holds (fun _ => True) (first.exploreCalls unvisited pending found)
      (second.exploreCalls unvisited pending found) := by
  induction unvisited generalizing pending found with
  | zero => exact congruence.holds_pure _ found
  | succ unvisited ih =>
      unfold Decoder.exploreCalls
      cases hnext : pending.dropWhile found.contains with
      | nil => exact congruence.holds_pure _ found
      | cons routine rest =>
          have hkept : ∀ other ∈ routine :: rest, known other := by
            intro other hother
            apply hpending
            exact (List.dropWhile_sublist found.contains).subset (hnext ▸ hother)
          have hroutine := hkept routine List.mem_cons_self
          apply congruence.holds_bind (halike.body hroutine)
          intro body hbody
          have hknown := halike.known_of_mem_body hroutine hbody
          apply congruence.holds_bind (congruence.holds_note _ _ (by simp [Event.level]))
          intro _ _
          apply congruence.holds_bind (halike.pushCalls _ hknown rest)
          rintro pushed ⟨_, _, hpush⟩
          apply ih
          intro target htarget
          rcases mem_of_pushCalls hpush htarget with hrest |
            ⟨address, haddress, instruction, hdecoded, hcall⟩
          · exact hkept target (List.mem_cons_of_mem _ hrest)
          · exact halike.calls address (hknown address haddress) instruction hdecoded target hcall

theorem routines {entry : Address} (hentry : known entry) :
    congruence.Holds (fun _ => True) (first.routines entry) (second.routines entry) := by
  apply halike.exploreCalls
  intro address haddress
  rwa [List.mem_singleton.mp haddress]

theorem known_of_mem_routines {entry : Address} (hentry : known entry) {found : AddressSet}
    (hreturns : (first.routines entry).Returns found) : ∀ routine ∈ found, known routine := by
  obtain ⟨_, _, hrun⟩ := hreturns
  intro routine hroutine
  refine (mem_of_routines hentry ?_ hrun routine hroutine).1
  intro caller hcaller target hcalls
  obtain ⟨address, instruction, hreaches, hdecoded, htarget⟩ := hcalls.calls
  exact halike.calls address (halike.known_of_reaches hcaller hreaches) instruction hdecoded
    target htarget

/-! Lowering -/

variable (platform : Platform)

theorem decodeToLift {address : Address} (haddress : known address) :
    congruence.Holds LiftError.IsRefusal (first.decodeToLift address)
      (second.decodeToLift address) :=
  congruence.holds_adaptExcept (fun cause _ => ⟨cause, rfl⟩) (halike.decode address haddress)

theorem sweep (sites : Sites) (entry : Address) (stop steps : Nat) {counter : Nat}
    (hcounter : counter < stop → known (UInt16.ofNat counter)) (last : Address) (frame : Frame) :
    congruence.Holds LiftError.IsRefusal
      (first.sweep platform sites entry stop steps counter last frame)
      (second.sweep platform sites entry stop steps counter last frame) := by
  have hends (counter : Nat) (last : Address) (frame : Frame) :
      congruence.Holds LiftError.IsRefusal
        (do return (← Session.ofExcept (fallThrough sites entry stop counter last frame)).2)
        (do return (← Session.ofExcept (fallThrough sites entry stop counter last frame)).2) :=
    congruence.holds_bind (congruence.holds_ofExcept _ _) fun _ _ => congruence.holds_pure _ _
  induction steps generalizing counter last frame with
  | zero => exact hends counter last frame
  | succ steps ih =>
      unfold Decoder.sweep
      by_cases hbefore : counter < stop
      · rw [if_pos hbefore, if_pos hbefore]
        have hknown := hcounter hbefore
        apply congruence.holds_bind (halike.decodeToLift hknown)
        intro instruction hreturns
        have hdecoded := instruction?_of_returns_toLift hreturns
        apply congruence.holds_bind (congruence.holds_note _ _ (by simp [Event.level]))
        intro _ _
        apply congruence.holds_bind (congruence.holds_ofExcept _ _)
        rintro ⟨_, frame'⟩ _
        show congruence.Holds _ (if instruction.transfers = true then _ else _)
          (if instruction.transfers = true then _ else _)
        cases htransfers : instruction.transfers with
        | true => exact congruence.holds_pure _ frame'
        | false =>
            rw [if_neg Bool.false_ne_true, if_neg Bool.false_ne_true]
            apply ih
            intro _
            rw [instruction.ofNat_counter]
            refine halike.successors _ hknown instruction hdecoded _ ?_
            rw [Instruction.successors_of_not_transfers htransfers]
            exact List.mem_singleton_self _
      · rw [if_neg hbefore, if_neg hbefore]
        exact hends counter last frame

theorem lowerBlocks (sites : Sites) (entry : Address) (routineEnd : Nat)
    {blocks : List (Address × Site)} (hblocks : ∀ block ∈ blocks, known block.1)
    (function : Function) :
    congruence.Holds LiftError.IsRefusal
      (first.lowerBlocks platform sites entry routineEnd blocks function)
      (second.lowerBlocks platform sites entry routineEnd blocks function) := by
  induction blocks generalizing function with
  | nil => exact congruence.holds_pure _ function
  | cons block rest ih =>
      obtain ⟨address, site⟩ := block
      unfold Decoder.lowerBlocks
      apply congruence.holds_bind
      · apply halike.sweep
        intro _
        rw [UInt16.ofNat_toNat]
        exact hblocks _ List.mem_cons_self
      · intro frame _
        exact ih (fun other hother => hblocks other (List.mem_cons_of_mem _ hother)) _

theorem bodyEnd (entry : Address) {found : AddressSet}
    (hfound : ∀ address ∈ found, known address) :
    congruence.Holds LiftError.IsRefusal (first.bodyEnd entry found)
      (second.bodyEnd entry found) := by
  unfold Decoder.bodyEnd
  cases hlast : found.toList.getLast? with
  | none => exact congruence.holds_pure _ _
  | some highest =>
      have hmem := Std.TreeSet.mem_toList.mp (List.mem_of_getLast? hlast)
      apply congruence.holds_bind (halike.decodeToLift (hfound highest hmem))
      intro instruction _
      exact congruence.holds_pure _ _

theorem known_of_mem_leaders {entry : Address} (hentry : known entry)
    {found leaders : AddressSet} (hbody : (first.body entry).Returns found)
    (hreturns : (first.leaders entry found).Returns leaders) :
    ∀ leader ∈ leaders, known leader := by
  obtain ⟨_, _, hrun⟩ := hbody
  obtain ⟨_, _, hleaders⟩ := hreturns
  have hisBody := isBody_of_body hrun
  obtain ⟨leaders', hgives, hmem⟩ := hisBody.leaders_gives
  cases hgives.of_ok hleaders
  intro leader hleader
  exact halike.known_of_reaches hentry
    (hisBody.reached leader (hisBody.mem_of_isLeader ((hmem leader).mp hleader)))

theorem liftRoutine {entry : Address} (hentry : known entry) (linkage : Linkage) :
    congruence.Holds LiftError.IsRefusal (first.liftRoutine platform entry linkage)
      (second.liftRoutine platform entry linkage) := by
  unfold Decoder.liftRoutine
  apply congruence.holds_bind
    (congruence.holds_adaptExcept (fun cause _ => ⟨cause, rfl⟩) (halike.body hentry))
  rintro found ⟨_, _, hbody⟩
  have hreturns : (first.body entry).Returns found := ⟨_, _, ok_of_adaptExcept hbody⟩
  have hfound := halike.known_of_mem_body hentry hreturns
  apply congruence.holds_bind
    (congruence.holds_adaptExcept (fun cause _ => ⟨cause, rfl⟩) (halike.leaders entry hfound))
  rintro leaders ⟨_, _, hleaders⟩
  have hknown := halike.known_of_mem_leaders hentry hreturns ⟨_, _, ok_of_adaptExcept hleaders⟩
  unfold Session.ofBuilder
  simp only [Draft.layOut_eq]
  apply congruence.holds_bind (congruence.holds_ofExcept _ _)
  rintro ⟨⟨start, sites⟩, laid⟩ ⟨_, _, hlaid⟩
  cases hlaid
  apply congruence.holds_bind (congruence.holds_ofExcept _ _)
  rintro ⟨_, frame⟩ _
  apply congruence.holds_bind (halike.bodyEnd entry hfound)
  intro routineEnd _
  apply congruence.holds_bind
  · apply halike.lowerBlocks
    rintro ⟨leader, site⟩ hsite
    rw [Draft.toList_sites (AddressSet.pairwise_lt_toList leaders)] at hsite
    obtain ⟨position, hposition, _⟩ := Draft.mem_sitesFrom_iff.mp hsite
    exact hknown leader (Std.TreeSet.mem_toList.mp (List.mem_of_getElem? hposition))
  intro function _
  apply congruence.holds_bind (congruence.holds_note _ _ (by simp [Event.level]))
  intro _ _
  apply congruence.holds_bind (congruence.holds_ofExcept _ _)
  intro _ _
  exact congruence.holds_pure _ function

theorem liftRoutines (entry : Address) {addresses : List Address}
    (haddresses : ∀ address ∈ addresses, known address) (module : Ssa.Module) :
    congruence.Holds LiftError.IsRefusal
      (first.liftRoutines platform entry addresses module)
      (second.liftRoutines platform entry addresses module) := by
  induction addresses generalizing module with
  | nil => exact congruence.holds_pure _ module
  | cons address rest ih =>
      apply congruence.holds_bind
        (halike.liftRoutine platform (haddresses address List.mem_cons_self) _)
      intro function _
      exact ih (fun other hother => haddresses other (List.mem_cons_of_mem _ hother)) _

/-- Decoders that decode the instructions of a program alike lift it alike. -/
theorem liftProgram {entry : Address} (hentry : known entry) (name : String) :
    congruence.Holds LiftError.IsRefusal (first.liftProgram platform entry name)
      (second.liftProgram platform entry name) := by
  unfold Decoder.liftProgram
  apply congruence.holds_bind
    (congruence.holds_adaptExcept (fun cause _ => ⟨cause, rfl⟩) (halike.routines hentry))
  rintro routines ⟨_, _, hroutines⟩
  have hknown := halike.known_of_mem_routines hentry ⟨_, _, ok_of_adaptExcept hroutines⟩
  apply congruence.holds_bind (congruence.holds_note _ _ (by simp [Event.level]))
  intro _ _
  apply congruence.holds_bind
  · apply halike.liftRoutines
    intro address haddress
    exact hknown address (Std.TreeSet.mem_toList.mp haddress)
  intro module _
  apply congruence.holds_bind (congruence.holds_ofExcept _ _)
  intro _ _
  exact congruence.holds_pure _ module

end Alike

end Decoder

end Lift6502
