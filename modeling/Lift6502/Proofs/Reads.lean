import Lift6502.Proofs.ControlFlow

/-! The bytes that decoding reads, and what it records about those that
nothing backs. -/

namespace Lift6502

open Session

namespace Decoder

/-! Decoding as a visit to some bytes -/

/-- The bytes after the opcode at an address, for an operand of some mode. -/
def operandBytes (location : Address) (mode : Mode) : List Address :=
  (List.range mode.length).map fun offset => location + 1 + UInt16.ofNat offset

/-- The bytes that the instruction at an address needs, in the order they are
read: the opcode, and the operand if the opcode is supported. -/
def needs (decoder : Decoder) (location : Address) : List Address :=
  location ::
    match Encoding.ofOpcode? (decoder.space.read location) with
    | none => []
    | some encoding => operandBytes location encoding.mode

/-- A byte of the instruction at `location` is come to. -/
def visit (decoder : Decoder) (location address : Address) : Session DecodeError Unit :=
  if decoder.space.backed address then pure ()
  else if decoder.policy.unmapped = .fail then throw (.outOfRange location address)
  else decoder.noteUnmapped location address

/-- The operand that lies behind the opcode at an address. -/
def operandAt (decoder : Decoder) (location : Address) : Mode → Option Operand
  | .implied => none
  | .absolute => some (.absolute (word (location + 1)))
  | .absoluteX => some (.absoluteX (word (location + 1)))
  | .absoluteY => some (.absoluteY (word (location + 1)))
  | .immediate => some (.immediate (decoder.space.read (location + 1)))
  | .indirectY => some (.indirectY (decoder.space.read (location + 1)))
  | .relative => some (.relative (decoder.space.read (location + 1)).toInt8)
  | .zeroPage => some (.zeroPage (decoder.space.read (location + 1)))
where
  word (address : Address) : Address :=
    (decoder.space.read address).toUInt16 |||
      ((decoder.space.read (address + 1)).toUInt16 <<< 8)

theorem mode_operandAt (decoder : Decoder) (location : Address) (mode : Mode) :
    ((decoder.operandAt location mode).map Operand.mode).getD .implied = mode := by
  cases mode <;> rfl

/-- What is decoded once all bytes have been read. -/
def understand (decoder : Decoder) (location : Address) : Session DecodeError Instruction :=
  match Encoding.ofOpcode? (decoder.space.read location) with
  | none => decoder.unsupported location (decoder.space.read location)
  | some encoding => return {
      location
      mnemonic := encoding.mnemonic
      operand := decoder.operandAt location encoding.mode
      substituted := none }

section

variable (decoder : Decoder) (location : Address)

theorem byte_eq_visit (address : Address) :
    decoder.byte location address =
      (do decoder.visit location address; return decoder.space.read address) := by
  unfold visit
  cases hbacked : decoder.space.backed address with
  | true => simp [byte_eq_of_backed hbacked]
  | false =>
      by_cases hfail : decoder.policy.unmapped = .fail
      · simp only [byte_eq_of_refused hbacked hfail, hfail, Bool.false_eq_true, if_true, if_false]
        rfl
      · simp [byte_eq_of_guessed hbacked hfail, hfail]

theorem operand_eq_visits (mode : Mode) :
    decoder.operand location mode =
      (do (operandBytes location mode).forM (decoder.visit location)
          return decoder.operandAt location mode) := by
  cases mode <;>
    simp [operand, word, operandBytes, operandAt, operandAt.word, Mode.length, byte_eq_visit,
      List.range_succ]

theorem decode_eq_visits :
    decoder.decode location =
      (do (decoder.needs location).forM (decoder.visit location)
          decoder.understand location) := by
  unfold decode needs understand
  cases hencoding : Encoding.ofOpcode? (decoder.space.read location) with
  | none => simp [byte_eq_visit, hencoding]
  | some encoding => simp [byte_eq_visit, operand_eq_visits, hencoding]

end

end Decoder

/-! Records of unmapped bytes -/

namespace Journal

/-- The bytes that were warned about, in order. -/
def warned (journal : Journal) : List Address :=
  journal.events.toList.filterMap fun event =>
    match event with
    | .unmappedByte _ byte => some byte
    | _ => none

/-- The warnings of a journal tell its unmapped bytes, each once, if warnings
are asked for; otherwise there are none. -/
structure Accounts (journal : Journal) (policy : UnmappedPolicy) : Prop where
  nodup : journal.warned.Nodup
  mem_warned_iff : ∀ byte, byte ∈ journal.warned ↔ policy = .warn ∧ byte ∈ journal.unmapped

theorem accounts_empty (policy : UnmappedPolicy) : Accounts {} policy :=
  ⟨List.nodup_nil, by simp [warned]⟩

theorem warned_note_unmappedByte (journal : Journal) (location byte : Address) :
    (journal.note (.unmappedByte location byte)).warned = journal.warned ++ [byte] := by
  simp [warned, note]

theorem warned_note_unknownOpcode (journal : Journal) (opcode : Byte) (location : Address) :
    (journal.note (.unknownOpcode opcode location)).warned = journal.warned := by
  simp [warned, note]

theorem warned_recordUnmapped (journal : Journal) (byte : Address) :
    (journal.recordUnmapped byte).warned = journal.warned := rfl

end Journal

namespace Decoder

variable {decoder : Decoder} {location : Address} {journal : Journal}

theorem after_noteUnmapped (byte : Address) :
    (decoder.noteUnmapped location byte).after journal =
      if decoder.policy.unmapped = .warn ∧ byte ∉ journal.unmapped then
        (journal.recordUnmapped byte).note (.unmappedByte location byte)
      else journal.recordUnmapped byte := by
  show (if _ then _ else _) = _
  simp only [Bool.and_eq_true, decide_eq_true_eq, Bool.not_eq_true', ← Bool.not_eq_true,
    Std.TreeSet.contains_iff_mem]

theorem mem_noteUnmapped_iff {byte other : Address} :
    other ∈ ((decoder.noteUnmapped location byte).after journal).unmapped ↔
      other ∈ journal.unmapped ∨ other = byte := by
  have hunmapped : ((decoder.noteUnmapped location byte).after journal).unmapped =
      journal.unmapped.insert byte := by
    rw [after_noteUnmapped]
    split <;> rfl
  rw [hunmapped, AddressSet.mem_insert_iff, or_comm]

theorem accounts_noteUnmapped (byte : Address)
    (haccounts : journal.Accounts decoder.policy.unmapped) :
    ((decoder.noteUnmapped location byte).after journal).Accounts decoder.policy.unmapped := by
  by_cases hnew : decoder.policy.unmapped = .warn ∧ byte ∉ journal.unmapped
  · have hwarned : ((decoder.noteUnmapped location byte).after journal).warned =
        journal.warned ++ [byte] := by
      rw [after_noteUnmapped, if_pos hnew, Journal.warned_note_unmappedByte,
        Journal.warned_recordUnmapped]
    have hfresh : byte ∉ journal.warned := by
      rw [haccounts.mem_warned_iff]
      exact fun hseen => hnew.2 hseen.2
    refine ⟨?_, fun other => ?_⟩
    · rw [hwarned, List.nodup_append]
      refine ⟨haccounts.nodup, by simp, fun other hother last hlast heq => ?_⟩
      rw [heq, List.mem_singleton.mp hlast] at hother
      exact hfresh hother
    · rw [hwarned, mem_noteUnmapped_iff, List.mem_append, haccounts.mem_warned_iff,
        List.mem_singleton]
      simp [hnew.1]
  · have hwarned : ((decoder.noteUnmapped location byte).after journal).warned =
        journal.warned := by
      rw [after_noteUnmapped, if_neg hnew, Journal.warned_recordUnmapped]
    refine ⟨by rw [hwarned]; exact haccounts.nodup, fun other => ?_⟩
    rw [hwarned, mem_noteUnmapped_iff, haccounts.mem_warned_iff]
    constructor
    · exact fun hknown => ⟨hknown.1, .inl hknown.2⟩
    · rintro ⟨hwarn, hseen | rfl⟩
      · exact ⟨hwarn, hseen⟩
      · exact ⟨hwarn, by_contra fun hunseen => hnew ⟨hwarn, hunseen⟩⟩

/-! Visits -/

/-- Where unmapped bytes are refused, the first of them ends the visit. -/
theorem visits_of_refused (hfail : decoder.policy.unmapped = .fail) (location : Address)
    (addresses : List Address) (journal : Journal) :
    addresses.forM (decoder.visit location) journal =
      match addresses.find? fun byte => !decoder.space.backed byte with
      | some byte => .error (.outOfRange location byte) journal
      | none => .ok () journal := by
  induction addresses with
  | nil => rfl
  | cons address rest ih =>
      rw [List.find?_cons]
      show (do decoder.visit location address; rest.forM (decoder.visit location)) journal = _
      cases hbacked : decoder.space.backed address with
      | true =>
          have hvisit : decoder.visit location address journal = .ok () journal := by
            simp only [visit, hbacked, if_true]
            rfl
          rw [bind_run_ok hvisit, ih]
          rfl
      | false =>
          have hvisit : decoder.visit location address journal =
              .error (.outOfRange location address) journal := by
            simp only [visit, hbacked, hfail, Bool.false_eq_true, if_true, if_false]
            rfl
          rw [bind_run_error hvisit]
          rfl

/-- What a visit to some bytes leaves, where unmapped bytes are not refused. -/
structure Visited (decoder : Decoder) (addresses : List Address) (journal journal' : Journal) :
    Prop where
  mem_iff : ∀ byte, byte ∈ journal'.unmapped ↔
    byte ∈ journal.unmapped ∨ byte ∈ addresses ∧ decoder.space.backed byte = false
  accounts : journal.Accounts decoder.policy.unmapped → journal'.Accounts decoder.policy.unmapped

theorem visits_of_guessed (hguess : decoder.policy.unmapped ≠ .fail) (location : Address)
    (addresses : List Address) (journal : Journal) :
    ∃ journal', addresses.forM (decoder.visit location) journal = .ok () journal' ∧
      decoder.Visited addresses journal journal' := by
  induction addresses generalizing journal with
  | nil => exact ⟨journal, rfl, by simp, id⟩
  | cons address rest ih =>
      show ∃ journal', (do decoder.visit location address; rest.forM (decoder.visit location))
        journal = .ok () journal' ∧ _
      cases hbacked : decoder.space.backed address with
      | true =>
          have hvisit : decoder.visit location address journal = .ok () journal := by
            simp only [visit, hbacked, if_true]
            rfl
          obtain ⟨journal', hrest, hvisited⟩ := ih journal
          refine ⟨journal', (bind_run_ok hvisit).trans hrest, fun byte => ?_, hvisited.accounts⟩
          rw [hvisited.mem_iff, List.mem_cons]
          constructor
          · rintro (hold | ⟨hmem, hunbacked⟩)
            · exact .inl hold
            · exact .inr ⟨.inr hmem, hunbacked⟩
          · rintro (hold | ⟨rfl | hmem, hunbacked⟩)
            · exact .inl hold
            · rw [hbacked] at hunbacked
              cases hunbacked
            · exact .inr ⟨hmem, hunbacked⟩
      | false =>
          have hvisit : decoder.visit location address journal =
              .ok () ((decoder.noteUnmapped location address).after journal) := by
            simp only [visit, hbacked, hguess, Bool.false_eq_true, if_false]
            rfl
          obtain ⟨journal', hrest, hvisited⟩ :=
            ih ((decoder.noteUnmapped location address).after journal)
          refine ⟨journal', (bind_run_ok hvisit).trans hrest, fun byte => ?_,
            fun haccounts => hvisited.accounts (accounts_noteUnmapped address haccounts)⟩
          rw [hvisited.mem_iff, mem_noteUnmapped_iff, List.mem_cons]
          constructor
          · rintro ((hold | rfl) | ⟨hmem, hunbacked⟩)
            · exact .inl hold
            · exact .inr ⟨.inl rfl, hbacked⟩
            · exact .inr ⟨.inr hmem, hunbacked⟩
          · rintro (hold | ⟨rfl | hmem, hunbacked⟩)
            · exact .inl (.inl hold)
            · exact .inl (.inr rfl)
            · exact .inr ⟨hmem, hunbacked⟩

theorem understand_after (decoder : Decoder) (location : Address) (journal : Journal) :
    ((decoder.understand location).after journal).unmapped = journal.unmapped ∧
      ((decoder.understand location).after journal).warned = journal.warned := by
  unfold understand
  cases Encoding.ofOpcode? (decoder.space.read location) with
  | some encoding => exact ⟨rfl, rfl⟩
  | none =>
      unfold unsupported
      cases decoder.policy.unsupported with
      | fail => exact ⟨rfl, rfl⟩
      | substituteReturn => exact ⟨rfl, journal.warned_note_unknownOpcode _ _⟩

theorem understand_ne_outOfRange (decoder : Decoder) (location : Address) (journal : Journal)
    (other byte : Address) :
    (decoder.understand location).outcome journal ≠ .error (.outOfRange other byte) := by
  unfold understand
  cases Encoding.ofOpcode? (decoder.space.read location) with
  | some encoding => exact fun heq => by cases heq
  | none =>
      unfold unsupported
      cases decoder.policy.unsupported <;> exact fun heq => by cases heq

/-! Decoding -/

theorem decode_of_refused (hfail : decoder.policy.unmapped = .fail) :
    decoder.decode location journal =
      match (decoder.needs location).find? fun byte => !decoder.space.backed byte with
      | some byte => .error (.outOfRange location byte) journal
      | none => decoder.understand location journal := by
  have hvisits := visits_of_refused hfail location (decoder.needs location) journal
  rw [decode_eq_visits]
  cases hfind : (decoder.needs location).find? fun byte => !decoder.space.backed byte with
  | none =>
      rw [hfind] at hvisits
      exact bind_run_ok hvisits
  | some byte =>
      rw [hfind] at hvisits
      exact bind_run_error hvisits

theorem outcome_outOfRange_iff (hfail : decoder.policy.unmapped = .fail) {other byte : Address} :
    (decoder.decode location).outcome journal = .error (.outOfRange other byte) ↔
      other = location ∧
        ((decoder.needs location).find? fun byte => !decoder.space.backed byte) = some byte := by
  unfold outcome
  rw [decode_of_refused hfail]
  cases hfind : (decoder.needs location).find? fun byte => !decoder.space.backed byte with
  | none =>
      have hnot := decoder.understand_ne_outOfRange location journal other byte
      simpa [outcome] using hnot
  | some first => simp [eq_comm]

theorem unmapped_of_refused (hfail : decoder.policy.unmapped = .fail) (location : Address)
    (journal : Journal) :
    ((decoder.decode location).after journal).unmapped = journal.unmapped ∧
      ((decoder.decode location).after journal).warned = journal.warned := by
  have hunderstand := decoder.understand_after location journal
  unfold after at hunderstand ⊢
  rw [decode_of_refused hfail]
  cases (decoder.needs location).find? fun byte => !decoder.space.backed byte with
  | none => exact hunderstand
  | some byte => exact ⟨rfl, rfl⟩

theorem outcome_of_guessed (hguess : decoder.policy.unmapped ≠ .fail) (other byte : Address) :
    (decoder.decode location).outcome journal ≠ .error (.outOfRange other byte) := by
  obtain ⟨middle, hvisits, _⟩ := visits_of_guessed hguess location
    (decoder.needs location) journal
  have hnot := decoder.understand_ne_outOfRange location middle other byte
  unfold outcome at hnot ⊢
  rwa [decode_eq_visits, bind_run_ok hvisits]

theorem visited_decode (hguess : decoder.policy.unmapped ≠ .fail) (location : Address)
    (journal : Journal) :
    decoder.Visited (decoder.needs location) journal ((decoder.decode location).after journal) := by
  obtain ⟨middle, hvisits, hvisited⟩ := visits_of_guessed hguess location
    (decoder.needs location) journal
  have hafter : (decoder.decode location).after journal =
      (decoder.understand location).after middle := by
    unfold after
    rw [decode_eq_visits, bind_run_ok hvisits]
  obtain ⟨hunmapped, hwarned⟩ := decoder.understand_after location middle
  rw [hafter]
  refine ⟨fun byte => ?_, fun haccounts => ?_⟩
  · rw [hunmapped, hvisited.mem_iff]
  · obtain ⟨hnodup, hmem⟩ := hvisited.accounts haccounts
    refine ⟨?_, fun byte => ?_⟩
    · rwa [hwarned]
    · rw [hwarned, hunmapped, hmem]

/-! Series of calls -/

/-- The journal after a decoder was asked for some addresses in turn, whether
or not it could decode them. -/
def decodeAll (decoder : Decoder) (locations : List Address) (journal : Journal) : Journal :=
  locations.foldl (fun journal location => (decoder.decode location).after journal) journal

theorem decodeAll_of_refused (hfail : decoder.policy.unmapped = .fail) (locations : List Address)
    (journal : Journal) :
    (decoder.decodeAll locations journal).unmapped = journal.unmapped ∧
      (decoder.decodeAll locations journal).warned = journal.warned := by
  induction locations generalizing journal with
  | nil => exact ⟨rfl, rfl⟩
  | cons location rest ih =>
      obtain ⟨hunmapped, hwarned⟩ := unmapped_of_refused hfail location journal
      obtain ⟨hunmapped', hwarned'⟩ := ih ((decoder.decode location).after journal)
      exact ⟨hunmapped'.trans hunmapped, hwarned'.trans hwarned⟩

theorem visited_decodeAll (hguess : decoder.policy.unmapped ≠ .fail) (locations : List Address)
    (journal : Journal) :
    decoder.Visited (locations.flatMap decoder.needs) journal
      (decoder.decodeAll locations journal) := by
  induction locations generalizing journal with
  | nil => exact ⟨by simp [decodeAll], id⟩
  | cons location rest ih =>
      have hfirst := visited_decode hguess location journal
      have hrest := ih ((decoder.decode location).after journal)
      refine ⟨fun byte => ?_, fun haccounts => hrest.accounts (hfirst.accounts haccounts)⟩
      have hmem := hrest.mem_iff byte
      rw [hfirst.mem_iff] at hmem
      rw [List.flatMap_cons, List.mem_append, or_and_right, ← or_assoc]
      exact hmem

/-- Under every policy the warnings are those that it asks for. -/
theorem accounts_decodeAll (decoder : Decoder) (locations : List Address) :
    (decoder.decodeAll locations {}).Accounts decoder.policy.unmapped := by
  by_cases hfail : decoder.policy.unmapped = .fail
  · obtain ⟨hunmapped, hwarned⟩ := decodeAll_of_refused hfail locations {}
    obtain ⟨hnodup, hmem⟩ := Journal.accounts_empty decoder.policy.unmapped
    refine ⟨by rwa [hwarned], fun byte => ?_⟩
    rw [hwarned, hunmapped, hmem]
  · exact (visited_decodeAll hfail locations {}).accounts (Journal.accounts_empty _)

end Decoder

end Lift6502
