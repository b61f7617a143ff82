import Lift6502.Machine
import Lift6502.Proofs.Session

/-! Decoded instructions. What is decoded at an address does not depend on the
journal, lies at that address, and has an operand that its operation can
use. -/

namespace Lift6502

open Session

namespace Decoder

/-! The journal does not decide what is decoded -/

theorem noteUnmapped_gives (decoder : Decoder) (location byte : Address) :
    (decoder.noteUnmapped location byte).Gives (.ok ()) :=
  fun _ => rfl

section Bytes

variable {decoder : Decoder} {location address : Address}

theorem byte_eq_of_backed (hbacked : decoder.space.backed address = true) :
    decoder.byte location address = pure (decoder.space.read address) := by
  simp [byte, hbacked]

theorem byte_eq_of_refused (hbacked : decoder.space.backed address = false)
    (hfail : decoder.policy.unmapped = .fail) :
    decoder.byte location address = throw (.outOfRange location address) := by
  unfold byte
  rw [hbacked, hfail]
  rfl

theorem byte_eq_of_guessed (hbacked : decoder.space.backed address = false)
    (hfail : decoder.policy.unmapped ≠ .fail) :
    decoder.byte location address =
      (do decoder.noteUnmapped location address; return decoder.space.read address) := by
  simp [byte, hbacked, hfail]

theorem byte_steady (decoder : Decoder) (location address : Address) :
    (decoder.byte location address).Steady := by
  cases hbacked : decoder.space.backed address with
  | true =>
      rw [byte_eq_of_backed hbacked]
      exact ⟨_, gives_pure _⟩
  | false =>
      by_cases hfail : decoder.policy.unmapped = .fail
      · rw [byte_eq_of_refused hbacked hfail]
        exact ⟨_, gives_throw _⟩
      · rw [byte_eq_of_guessed hbacked hfail]
        exact ⟨_, (noteUnmapped_gives decoder location address).bind_ok (gives_pure _)⟩

theorem read_of_byte {value : Byte} {journal journal' : Journal}
    (hrun : decoder.byte location address journal = .ok value journal') :
    value = decoder.space.read address := by
  cases hbacked : decoder.space.backed address with
  | true =>
      rw [byte_eq_of_backed hbacked] at hrun
      cases hrun
      rfl
  | false =>
      by_cases hfail : decoder.policy.unmapped = .fail
      · rw [byte_eq_of_refused hbacked hfail] at hrun
        cases hrun
      · rw [byte_eq_of_guessed hbacked hfail] at hrun
        cases hrun
        rfl

end Bytes

theorem word_steady (decoder : Decoder) (location address : Address) :
    (decoder.word location address).Steady :=
  (byte_steady decoder location address).bind fun _ =>
    (byte_steady decoder location (address + 1)).bind fun _ => ⟨_, gives_pure _⟩

theorem operand_steady (decoder : Decoder) (location : Address) (mode : Mode) :
    (decoder.operand location mode).Steady := by
  cases mode with
  | implied => exact ⟨_, gives_pure _⟩
  | absolute | absoluteX | absoluteY =>
      exact (word_steady decoder location _).bind fun _ => ⟨_, gives_pure _⟩
  | immediate | indirectY | relative | zeroPage =>
      exact (byte_steady decoder location _).bind fun _ => ⟨_, gives_pure _⟩

theorem unsupported_steady (decoder : Decoder) (location : Address) (opcode : Byte) :
    (decoder.unsupported location opcode).Steady := by
  unfold unsupported
  cases decoder.policy.unsupported with
  | fail => exact ⟨_, gives_throw _⟩
  | substituteReturn => exact ⟨_, (gives_note _).bind_ok (gives_pure _)⟩

theorem decode_steady (decoder : Decoder) (location : Address) :
    (decoder.decode location).Steady := by
  refine (byte_steady decoder location location).bind fun opcode => ?_
  cases Encoding.ofOpcode? opcode with
  | none => exact unsupported_steady decoder location opcode
  | some encoding =>
      exact (operand_steady decoder location encoding.mode).bind fun _ => ⟨_, gives_pure _⟩

def decoded (decoder : Decoder) (location : Address) : Except DecodeError Instruction :=
  (decoder.decode location).outcome {}

theorem decode_gives (decoder : Decoder) (location : Address) :
    (decoder.decode location).Gives (decoder.decoded location) :=
  (decode_steady decoder location).of_outcome

theorem instruction?_eq_some_iff {decoder : Decoder} {location : Address}
    {instruction : Instruction} :
    decoder.instruction? location = some instruction ↔
      decoder.decoded location = .ok instruction := by
  unfold instruction? decoded outcome
  cases decoder.decode location {} with
  | ok found journal => simp
  | error failure journal => simp

theorem decode_gives_of_instruction? {decoder : Decoder} {location : Address}
    {instruction : Instruction} (hdecoded : decoder.instruction? location = some instruction) :
    (decoder.decode location).Gives (.ok instruction) := by
  rw [← instruction?_eq_some_iff.mp hdecoded]
  exact decode_gives decoder location

theorem instruction?_of_decode {decoder : Decoder} {location : Address}
    {instruction : Instruction} {journal journal' : Journal}
    (hrun : decoder.decode location journal = .ok instruction journal') :
    decoder.instruction? location = some instruction :=
  instruction?_eq_some_iff.mpr ((decode_gives decoder location).of_ok hrun)

end Decoder

/-! Operands suit their operations -/

/-- The modes that an operation can be encoded with. -/
def Operation.takes : Operation → Mode → Bool
  | .load _, mode | .compare _, mode | .logic _, mode | .bitTest, mode | .addWithCarry, mode
  | .subtractWithCarry, mode => mode != .implied && mode != .relative
  | .store _, mode | .incrementMemory, mode | .decrementMemory, mode =>
      mode != .implied && mode != .relative && mode != .immediate
  | .branch _ _, mode => mode == .relative
  | .jump, mode | .call, mode => mode == .absolute
  | .increment _, mode | .decrement _, mode | .transfer _ _, mode | .setFlag _ _, mode
  | .ret, mode | .idle, mode => mode == .implied

theorem Mode.of_takes_value {mode : Mode}
    (htakes : (mode != .implied && mode != .relative) = true) :
    mode ≠ .implied ∧ mode ≠ .relative := by
  simpa using htakes

theorem Mode.of_takes_memory {mode : Mode}
    (htakes : (mode != .implied && mode != .relative && mode != .immediate) = true) :
    mode ≠ .implied ∧ mode ≠ .relative ∧ mode ≠ .immediate := by
  simpa [and_assoc] using htakes

namespace Instruction

def mode (instruction : Instruction) : Mode :=
  (instruction.operand.map Operand.mode).getD .implied

theorem length_eq (instruction : Instruction) :
    instruction.length = 1 + instruction.mode.length := by
  unfold length mode
  cases instruction.operand <;> rfl

theorem length_pos (instruction : Instruction) : 1 ≤ instruction.length := by
  rw [length_eq]
  omega

theorem length_le (instruction : Instruction) : instruction.length ≤ 3 := by
  rw [length_eq]
  cases instruction.mode <;> decide

section Operands

variable {instruction : Instruction}

theorem exists_operand (hmode : instruction.mode ≠ .implied) :
    ∃ operand, instruction.operand = some operand ∧ operand.mode = instruction.mode := by
  unfold mode at hmode ⊢
  cases hoperand : instruction.operand with
  | none =>
      rw [hoperand] at hmode
      exact absurd rfl hmode
  | some operand => exact ⟨operand, rfl, rfl⟩

theorem operand_of_relative (hmode : instruction.mode = .relative) :
    ∃ offset, instruction.operand = some (.relative offset) := by
  obtain ⟨operand, hoperand, hsame⟩ := exists_operand (by rw [hmode]; decide)
  rw [hmode] at hsame
  cases operand with
  | relative offset => exact ⟨offset, hoperand⟩
  | _ => cases hsame

theorem operand_of_absolute (hmode : instruction.mode = .absolute) :
    ∃ target, instruction.operand = some (.absolute target) := by
  obtain ⟨operand, hoperand, hsame⟩ := exists_operand (by rw [hmode]; decide)
  rw [hmode] at hsame
  cases operand with
  | absolute target => exact ⟨target, hoperand⟩
  | _ => cases hsame

theorem exists_target
    (hmode : instruction.mode = .absolute ∨ instruction.mode = .relative) :
    ∃ target, instruction.target? = some target := by
  unfold target?
  rcases hmode with hmode | hmode
  · obtain ⟨target, hoperand⟩ := operand_of_absolute hmode
    rw [hoperand]
    exact ⟨_, rfl⟩
  · obtain ⟨offset, hoperand⟩ := operand_of_relative hmode
    rw [hoperand]
    exact ⟨_, rfl⟩

end Operands

/-! Addresses modulo 65536 -/

theorem toNat_following (instruction : Instruction) :
    instruction.following.toNat =
      (instruction.location.toNat + instruction.length) % 65536 := by
  rw [following, UInt16.toNat_add, UInt16.toNat_ofNat', Nat.add_mod_mod]

theorem toNat_relative (following : Address) (offset : Int8) :
    ((following + offset.toInt16.toUInt16).toNat : Int) =
      (following.toNat + offset.toInt) % 65536 := by
  have hoffset : (offset.toInt16.toUInt16.toNat : Int) % 65536 = offset.toInt % 65536 := by
    have hbits : offset.toInt16.toInt = (offset.toInt16.toUInt16.toNat : Int).bmod 65536 :=
      BitVec.toInt_eq_toNat_bmod _
    have hmod := Int.bmod_emod (x := (offset.toInt16.toUInt16.toNat : Int)) (m := 65536)
    rw [← hbits, Int8.toInt_toInt16] at hmod
    exact hmod.symm
  rw [UInt16.toNat_add, Int.natCast_emod, Int.natCast_add]
  exact Int.emod_add_cancel_left.mpr hoffset

theorem eq_following_iff {instruction : Instruction} {target : Address} :
    target = instruction.following ↔
      target.toNat = (instruction.location.toNat + instruction.length) % 65536 := by
  rw [← toNat_following, UInt16.toNat_inj]

theorem eq_relative_iff {instruction : Instruction} {target : Address} {offset : Int8} :
    target = instruction.following + offset.toInt16.toUInt16 ↔
      (target.toNat : Int) =
        (instruction.location.toNat + instruction.length + offset.toInt) % 65536 := by
  have hcount : ((instruction.following + offset.toInt16.toUInt16).toNat : Int) =
      (instruction.location.toNat + instruction.length + offset.toInt) % 65536 := by
    rw [toNat_relative, toNat_following, Int.natCast_emod, Int.natCast_add]
    exact Int.emod_add_emod _ _ _
  rw [← hcount, Int.natCast_inj, UInt16.toNat_inj]

end Instruction

theorem Encoding.takes_of_mem : ∀ encoding ∈ Encoding.all,
    encoding.mnemonic.operation.takes encoding.mode = true := by
  decide

/-- An instruction as it lies at an address: its operand has a mode that its
operation takes. -/
structure Instruction.PlacedAt (instruction : Instruction) (location : Address) : Prop where
  location_eq : instruction.location = location
  takes_mode : instruction.operation.takes instruction.mode = true

namespace Decoder

theorem operand_mode {decoder : Decoder} {location : Address} {mode : Mode}
    {operand : Option Operand} {journal journal' : Journal}
    (hrun : decoder.operand location mode journal = .ok operand journal') :
    (operand.map Operand.mode).getD .implied = mode := by
  cases mode with
  | implied =>
      cases hrun
      rfl
  | absolute | absoluteX | absoluteY =>
      simp only [Decoder.operand, bind, EStateM.bind] at hrun
      split at hrun
      · cases hrun
        rfl
      · cases hrun
  | immediate | indirectY | relative | zeroPage =>
      simp only [Decoder.operand, bind, EStateM.bind] at hrun
      split at hrun
      · cases hrun
        rfl
      · cases hrun

theorem placedAt_of_decode {decoder : Decoder} {location : Address}
    {instruction : Instruction} {journal journal' : Journal}
    (hrun : decoder.decode location journal = .ok instruction journal') :
    instruction.PlacedAt location := by
  simp only [Decoder.decode, bind, EStateM.bind] at hrun
  split at hrun
  case h_2 => cases hrun
  case h_1 opcode afterOpcode hopcode =>
    cases hencoding : Encoding.ofOpcode? opcode with
    | none =>
        rw [hencoding] at hrun
        simp only [unsupported] at hrun
        cases hpolicy : decoder.policy.unsupported with
        | fail =>
            rw [hpolicy] at hrun
            cases hrun
        | substituteReturn =>
            rw [hpolicy] at hrun
            cases hrun
            exact ⟨rfl, rfl⟩
    | some encoding =>
        rw [hencoding] at hrun
        simp only [EStateM.bind] at hrun
        split at hrun
        case h_2 => cases hrun
        case h_1 operand afterOperand hoperand =>
          cases hrun
          refine ⟨rfl, ?_⟩
          have htakes := Encoding.takes_of_mem encoding (List.mem_of_find?_eq_some hencoding)
          unfold Instruction.mode Instruction.operation
          rw [operand_mode hoperand]
          exact htakes

theorem placedAt_of_instruction? {decoder : Decoder} {location : Address}
    {instruction : Instruction} (hdecoded : decoder.instruction? location = some instruction) :
    instruction.PlacedAt location := by
  obtain ⟨journal', hrun⟩ := outcome_eq_ok_iff.mp (instruction?_eq_some_iff.mp hdecoded)
  exact placedAt_of_decode hrun

end Decoder

end Lift6502
