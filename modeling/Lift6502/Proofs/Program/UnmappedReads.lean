import Lift6502.Proofs.Reads
import Lift6502.Proofs.Program.CodeBytes

/-! The unmapped bytes on record are those that the decoded instructions
need, and for a lifted program those that its instructions lie in. -/

namespace Lift6502

open Ssa Session

namespace Decoder

variable {decoder : Decoder}

/-! The bytes of an instruction -/

theorem needs_eq_cons_range {location : Address} {instruction : Instruction}
    {journal journal' : Journal}
    (hrun : decoder.understand location journal = .ok instruction journal') :
    decoder.needs location = location ::
      (List.range instruction.mode.length).map fun offset =>
        location + 1 + UInt16.ofNat offset := by
  unfold needs
  unfold understand at hrun
  cases hencoding : Encoding.ofOpcode? (decoder.space.read location) with
  | some encoding =>
      rw [hencoding] at hrun
      cases hrun
      unfold operandBytes Instruction.mode
      rw [mode_operandAt]
  | none =>
      rw [hencoding] at hrun
      simp only [unsupported] at hrun
      cases hpolicy : decoder.policy.unsupported with
      | fail =>
          rw [hpolicy] at hrun
          cases hrun
      | substituteReturn =>
          rw [hpolicy] at hrun
          cases hrun
          rfl

theorem mem_needs_iff {location byte : Address} {instruction : Instruction}
    (hdecoded : decoder.instruction? location = some instruction) :
    byte ∈ decoder.needs location ↔ instruction.Occupies byte := by
  have hlocation := (placedAt_of_instruction? hdecoded).location_eq
  obtain ⟨_, hrun⟩ := outcome_eq_ok_iff.mp (instruction?_eq_some_iff.mp hdecoded)
  rw [decode_eq_visits] at hrun
  obtain ⟨_, _, _, hunderstand⟩ := exists_of_bind_ok hrun
  rw [needs_eq_cons_range hunderstand, List.mem_cons, List.mem_map]
  unfold Instruction.Occupies
  rw [hlocation, Instruction.length_eq]
  constructor
  · rintro (rfl | ⟨offset, hoffset, rfl⟩)
    · exact ⟨0, by omega, by simp⟩
    · rw [List.mem_range] at hoffset
      refine ⟨1 + offset, by omega, ?_⟩
      rw [UInt16.ofNat_add, ← UInt16.add_assoc]
      rfl
  · rintro ⟨offset, hoffset, rfl⟩
    cases offset with
    | zero => exact .inl (by simp)
    | succ offset =>
        refine .inr ⟨offset, List.mem_range.mpr (by omega), ?_⟩
        rw [Nat.add_comm offset 1, UInt16.ofNat_add, ← UInt16.add_assoc]
        rfl

end Decoder

/-! Programs -/

namespace Session

/-- A session that comes to a result keeps what is on record and adds only
bytes that are allowed. -/
def Records {ε α : Type} (allowed : Address → Prop) (session : Session ε α) : Prop :=
  ∀ journal value journal', session journal = .ok value journal' →
    (∀ byte ∈ journal.unmapped, byte ∈ journal'.unmapped) ∧
      ∀ byte ∈ journal'.unmapped, byte ∈ journal.unmapped ∨ allowed byte

variable {ε ε' α β : Type} {allowed : Address → Prop}

theorem records_of_kept {session : Session ε α}
    (hkept : ∀ journal value journal', session journal = .ok value journal' →
      journal'.unmapped = journal.unmapped) : session.Records allowed := by
  intro journal value journal' hrun
  rw [hkept journal value journal' hrun]
  exact ⟨fun _ => id, fun _ => .inl⟩

theorem Records.bind {session : Session ε α} {next : α → Session ε β}
    (hsession : session.Records allowed)
    (hnext : ∀ value, session.Returns value → (next value).Records allowed) :
    Records allowed (session >>= next) := by
  intro journal result journal' hrun
  obtain ⟨value, middle, hfirst, hrest⟩ := exists_of_bind_ok hrun
  obtain ⟨hkept, hadded⟩ := hsession _ _ _ hfirst
  obtain ⟨hkept', hadded'⟩ := hnext value ⟨_, _, hfirst⟩ _ _ _ hrest
  refine ⟨fun byte hbyte => hkept' byte (hkept byte hbyte), fun byte hbyte => ?_⟩
  rcases hadded' byte hbyte with hmiddle | hallowed
  · exact hadded byte hmiddle
  · exact .inr hallowed

/-- Recording as a relation between a session and any other. -/
def recording (allowed : Address → Prop) : Congruence where
  Holds _ session _ := session.Records allowed
  holds_ofExcept _ result := by
    apply records_of_kept
    intro journal value journal' hrun
    cases result <;> cases hrun
    rfl
  holds_note _ event _ := by
    apply records_of_kept
    intro journal value journal' hrun
    cases hrun
    rfl
  holds_bind := Records.bind
  holds_adaptExcept _ hsession journal value journal' hrun :=
    hsession journal value journal' (ok_of_adaptExcept hrun)

/-- Each step of a fold is taken, and what it leaves on record stays there. -/
theorem exists_of_foldlM_ok {σ : Type} {step : σ → α → Session ε σ} {items : List α} {item : α}
    (hstep : ∀ state item, (step state item).Records fun _ => True) (hitem : item ∈ items)
    {state result : σ} {journal journal' : Journal}
    (hrun : items.foldlM step state journal = .ok result journal') :
    ∃ reached reached' before after, step reached item before = .ok reached' after ∧
      ∀ byte ∈ after.unmapped, byte ∈ journal'.unmapped := by
  have hfold (items : List α) (state : σ) :
      (recording fun _ => True).Holds (fun _ : ε => True) (items.foldlM step state)
        (items.foldlM step state) :=
    (recording fun _ => True).holds_foldlM _ (fun state item _ => hstep state item) state
  induction items generalizing state journal with
  | nil => cases hitem
  | cons head rest ih =>
      rw [List.foldlM_cons] at hrun
      obtain ⟨next, middle, hhead, hrest⟩ := exists_of_bind_ok hrun
      rcases List.mem_cons.mp hitem with rfl | hitem
      · exact ⟨_, _, _, _, hhead, (hfold rest next _ _ _ hrest).1⟩
      · exact ih hitem hrest

end Session

namespace Decoder

variable {decoder : Decoder}

theorem records_decode (hguess : decoder.policy.unmapped ≠ .fail) {address : Address}
    {allowed : Address → Prop}
    (hallowed : ∀ instruction, decoder.instruction? address = some instruction →
      ∀ byte, instruction.Occupies byte → decoder.space.backed byte = false → allowed byte) :
    (decoder.decode address).Records allowed := by
  intro journal instruction journal' hrun
  have hdecoded := instruction?_of_decode hrun
  have hvisited := visited_decode hguess address journal
  rw [after_of_ok hrun] at hvisited
  refine ⟨fun byte hbyte => (hvisited.mem_iff byte).mpr (.inl hbyte), fun byte hbyte => ?_⟩
  rcases (hvisited.mem_iff byte).mp hbyte with hold | ⟨hneeded, hbacked⟩
  · exact .inl hold
  · exact .inr (hallowed instruction hdecoded byte ((mem_needs_iff hdecoded).mp hneeded) hbacked)

/-- A byte of the program that nothing backs. -/
def Missing (decoder : Decoder) (entry byte : Address) : Prop :=
  decoder.space.backed byte = false ∧ decoder.Occupied entry byte

theorem alike_of_missing (hguess : decoder.policy.unmapped ≠ .fail) (entry : Address) :
    Alike (recording (decoder.Missing entry)) decoder decoder (decoder.ProgramReaches entry) where
  decode address hreaches := by
    apply records_decode hguess
    intro instruction hdecoded byte hoccupies hbacked
    exact ⟨hbacked, address, instruction, hreaches, hdecoded, hoccupies⟩
  successors _ hreaches _ hdecoded _ htarget := hreaches.successor hdecoded htarget
  calls _ hreaches _ hdecoded _ htarget := hreaches.call hdecoded htarget

theorem alike_of_guessed (hguess : decoder.policy.unmapped ≠ .fail) :
    Alike (recording fun _ => True) decoder decoder (fun _ => True) where
  decode _ _ := records_decode hguess fun _ _ _ _ _ => trivial
  successors _ _ _ _ _ _ := trivial
  calls _ _ _ _ _ _ := trivial

/-- The unbacked bytes of a routine are on record. -/
def Recorded (decoder : Decoder) (journal : Journal) (routine : Address) : Prop :=
  ∀ address instruction byte, decoder.Reaches routine address →
    decoder.instruction? address = some instruction → instruction.Occupies byte →
      decoder.space.backed byte = false → byte ∈ journal.unmapped

theorem Recorded.mono {journal journal' : Journal} {routine : Address}
    (hrecorded : decoder.Recorded journal routine)
    (hkept : ∀ byte ∈ journal.unmapped, byte ∈ journal'.unmapped) :
    decoder.Recorded journal' routine :=
  fun address instruction byte hreaches hdecoded hoccupies hbacked =>
    hkept byte (hrecorded address instruction byte hreaches hdecoded hoccupies hbacked)

theorem recorded_of_pushCalls (hguess : decoder.policy.unmapped ≠ .fail) {routine : Address}
    {found body : AddressSet} (hbody : decoder.IsBody routine body)
    {pending pushed : List Address} {journal journal' : Journal}
    (hrun : decoder.pushCalls found body pending journal = .ok pushed journal') :
    decoder.Recorded journal' routine := by
  intro address instruction byte hreaches hdecoded hoccupies hbacked
  have hmem : address ∈ body.toList := Std.TreeSet.mem_toList.mpr (hbody.mem_of_reaches hreaches)
  obtain ⟨reached, reached', before, after, hstep, hkept⟩ :=
    exists_of_foldlM_ok (fun pending address => by
      apply Records.bind (records_decode hguess fun _ _ _ _ _ => trivial)
      intro instruction _
      cases instruction.callTarget? <;>
        exact (recording fun _ => True).holds_pure (fun _ => True) _) hmem hrun
  apply hkept
  obtain ⟨again, middle, hdecode, hrest⟩ := exists_of_bind_ok hstep
  have hsame : after = middle := by
    cases htarget : again.callTarget? <;> rw [htarget] at hrest <;> cases hrest <;> rfl
  have hvisited := visited_decode hguess address before
  rw [after_of_ok hdecode] at hvisited
  rw [hsame, hvisited.mem_iff]
  exact .inr ⟨(mem_needs_iff hdecoded).mpr hoccupies, hbacked⟩

theorem recorded_of_exploreCalls (hguess : decoder.policy.unmapped ≠ .fail) {unvisited : Nat}
    {pending : List Address} {found routines : AddressSet} {journal journal' : Journal}
    (hfound : ∀ routine ∈ found, decoder.Recorded journal routine)
    (hrun : decoder.exploreCalls unvisited pending found journal = .ok routines journal') :
    ∀ routine ∈ routines, decoder.Recorded journal' routine := by
  have hgrows := alike_of_guessed hguess
  induction unvisited generalizing pending found journal with
  | zero =>
      cases hrun
      exact hfound
  | succ unvisited ih =>
      unfold exploreCalls at hrun
      cases hnext : pending.dropWhile found.contains with
      | nil =>
          rw [hnext] at hrun
          cases hrun
          exact hfound
      | cons entry rest =>
          rw [hnext] at hrun
          obtain ⟨body, bodied, hbody, hrun⟩ := exists_of_bind_ok hrun
          obtain ⟨_, noted, hnote, hrun⟩ := exists_of_bind_ok hrun
          cases hnote
          obtain ⟨pushed, called, hpush, hrun⟩ := exists_of_bind_ok hrun
          refine ih (fun routine hroutine => ?_) hrun
          rcases AddressSet.mem_insert_iff.mp hroutine with rfl | hroutine
          · exact recorded_of_pushCalls hguess (isBody_of_body hbody) hpush
          · apply (hfound routine hroutine).mono
            intro byte hbyte
            have hbodied := (hgrows.body trivial _ _ _ hbody).1 byte hbyte
            exact (hgrows.pushCalls _ (fun _ _ => trivial) _ _ _ _ hpush).1 byte hbodied

theorem recorded_of_routines (hguess : decoder.policy.unmapped ≠ .fail) {entry : Address}
    {routines : AddressSet} {journal journal' : Journal}
    (hrun : decoder.routines entry journal = .ok routines journal') :
    ∀ routine ∈ routines, decoder.Recorded journal' routine :=
  recorded_of_exploreCalls hguess
    (fun _ hroutine => absurd hroutine Std.TreeSet.not_mem_emptyc) hrun

theorem mem_unmapped_of_liftProgram (hguess : decoder.policy.unmapped ≠ .fail)
    {platform : Platform} {entry : Address} {name : String} {module : Ssa.Module}
    {journal : Journal} (hrun : decoder.liftProgram platform entry name {} = .ok module journal)
    (byte : Address) : byte ∈ journal.unmapped ↔ decoder.Missing entry byte := by
  have hentry : decoder.ProgramReaches entry entry := ⟨entry, .refl, .entry⟩
  constructor
  · intro hbyte
    have hrecords := (alike_of_missing hguess entry).liftProgram platform hentry name
    refine ((hrecords _ _ _ hrun).2 byte hbyte).resolve_left ?_
    exact Std.TreeSet.not_mem_emptyc
  · rintro ⟨hbacked, address, instruction, ⟨routine, hcalled, hreaches⟩, hdecoded, hoccupies⟩
    obtain ⟨routines, searched, hroutines, hrun⟩ := exists_of_bind_ok hrun
    have hroutines := ok_of_adaptExcept hroutines
    obtain ⟨_, noted, hnote, hrun⟩ := exists_of_bind_ok hrun
    cases hnote
    obtain ⟨lifted, final, hlift, hrun⟩ := exists_of_bind_ok hrun
    have hroutine := (callClosed_of_routines hroutines).mem_of_calls hcalled
    have hsearched := recorded_of_routines hguess hroutines routine hroutine address instruction
      byte hreaches hdecoded hoccupies hbacked
    have hfinal := ((alike_of_guessed hguess).liftRoutines platform entry
      (fun _ _ => trivial) _ _ _ _ hlift).1 byte hsearched
    obtain ⟨_, verified, hverify, hreturn⟩ := exists_of_bind_ok hrun
    cases hreturn
    exact (((recording fun _ => True).holds_ofExcept (fun _ => True) _) _ _ _ hverify).1 byte hfinal

/-- The account of unmapped bytes after any series of calls. -/
theorem unmappedReads_accounted (decoder : Decoder) (locations : List Address) :
    (∀ location, (decoder.decode location).outcome (decoder.decodeAll locations {}) =
      (decoder.decode location).outcome {}) ∧
    (decoder.policy.unmapped = .fail →
      (decoder.decodeAll locations {}).unmappedReads = [] ∧
      ∀ location other byte, (decoder.decode location).outcome {} =
          .error (.outOfRange other byte) ↔
        other = location ∧
          ((decoder.needs location).find? fun byte => !decoder.space.backed byte) = some byte) ∧
    (decoder.policy.unmapped ≠ .fail →
      (∀ byte, byte ∈ (decoder.decodeAll locations {}).unmappedReads ↔
        decoder.space.backed byte = false ∧ ∃ location ∈ locations,
          byte ∈ decoder.needs location) ∧
      (∀ location other byte, (decoder.decode location).outcome {} ≠
        .error (.outOfRange other byte)) ∧
      ∀ platform entry name module journal,
        decoder.liftProgram platform entry name {} = .ok module journal →
          ∀ byte, byte ∈ journal.unmappedReads ↔
            decoder.space.backed byte = false ∧ decoder.Occupied entry byte) ∧
    (decoder.decodeAll locations {}).unmappedReads.Pairwise (fun first second => first < second) ∧
    (decoder.decodeAll locations {}).Accounts decoder.policy.unmapped := by
  refine ⟨fun location => ?_, fun hfail => ⟨?_, fun location other byte => ?_⟩,
    fun hguess => ⟨fun byte => ?_, fun location other byte => ?_, ?_⟩, ?_, ?_⟩
  · rw [decode_gives decoder location, decode_gives decoder location]
  · unfold Journal.unmappedReads
    rw [(decodeAll_of_refused hfail locations {}).1]
    rfl
  · exact outcome_outOfRange_iff hfail
  · unfold Journal.unmappedReads
    rw [Std.TreeSet.mem_toList, (visited_decodeAll hguess locations {}).mem_iff, List.mem_flatMap,
      and_comm]
    exact or_iff_right Std.TreeSet.not_mem_emptyc
  · exact outcome_of_guessed hguess other byte
  · intro platform entry name module journal hrun byte
    exact Std.TreeSet.mem_toList.trans (mem_unmapped_of_liftProgram hguess hrun byte)
  · exact AddressSet.pairwise_lt_toList _
  · exact accounts_decodeAll decoder locations

/-- A load whose operand is cut off. What follows reads as an opcode that is
not supported. -/
def cutShort : Decoder where
  space := Image.space { base := 0x10, bytes := #[0xAD] }
  policy := { unmapped := .warn }

theorem unmappedReads_accounted_cutShort : ∃ module journal,
    cutShort.liftProgram .flat 0x10 "cut" {} = .ok module journal ∧
      journal.unmappedReads = [0x11, 0x12, 0x13] ∧
      (cutShort.decodeAll [0x10, 0x11, 0x10] {}).warned = [0x11, 0x12] ∧
      cutShort.Occupied 0x10 0x12 := by
  obtain ⟨module, journal, hrun⟩ : ∃ module journal,
      cutShort.liftProgram .flat 0x10 "cut" {} = .ok module journal :=
    exists_of_isOk (by decide +kernel)
  have hreads : journal.unmappedReads = [0x11, 0x12, 0x13] := by
    rw [← after_of_ok hrun]
    decide +kernel
  have haccounted := (unmappedReads_accounted cutShort []).2.2.1 (by decide)
  have hmissing := (haccounted.2.2 _ _ _ _ _ hrun 0x12).mp (by rw [hreads]; decide)
  exact ⟨module, journal, hrun, hreads, by decide +kernel, hmissing.2⟩

end Decoder

end Lift6502
