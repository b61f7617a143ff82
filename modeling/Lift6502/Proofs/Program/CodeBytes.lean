import Lift6502.Proofs.Program.Comparison

/-! What a program is lifted to depends on the bytes of its instructions only. -/

namespace Lift6502

open Ssa Session

namespace Session

/-- Sessions that follow equal ones have to be equal only for the values that
these can come to. -/
theorem bind_congr_of_returns {ε α β : Type} {first second : Session ε α}
    {next next' : α → Session ε β} (hfirst : first = second)
    (hnext : ∀ value, first.Returns value → next value = next' value) :
    first >>= next = second >>= next' := by
  subst hfirst
  funext journal
  show EStateM.bind first next journal = EStateM.bind first next' journal
  unfold EStateM.bind
  cases hrun : first journal with
  | ok value middle => exact congrFun (hnext value ⟨journal, middle, hrun⟩) middle
  | error error middle => rfl

def equality : Congruence where
  Holds _ first second := first = second
  holds_ofExcept _ _ := rfl
  holds_note _ _ _ := rfl
  holds_bind := bind_congr_of_returns
  holds_adaptExcept _ := congrArg _

end Session

namespace AddressSpace

/-- Two spaces read alike at an address, and both back it or neither does. -/
def AgreeAt (first second : AddressSpace) (address : Address) : Prop :=
  second.read address = first.read address ∧ second.backed address = first.backed address

end AddressSpace

namespace Instruction

def Occupies (instruction : Instruction) (byte : Address) : Prop :=
  ∃ offset < instruction.length, byte = instruction.location + UInt16.ofNat offset

end Instruction

namespace Decoder

/-! Decoding -/

section Agreement

variable {first second : Decoder} (hpolicy : second.policy = first.policy)

include hpolicy

theorem byte_congr (location : Address) {address : Address}
    (hagree : first.space.AgreeAt second.space address) :
    first.byte location address = second.byte location address := by
  unfold byte noteUnmapped
  rw [hpolicy, hagree.1, hagree.2]

theorem word_congr (location : Address) {address : Address}
    (hlow : first.space.AgreeAt second.space address)
    (hhigh : first.space.AgreeAt second.space (address + 1)) :
    first.word location address = second.word location address := by
  unfold word
  rw [byte_congr hpolicy location hlow, byte_congr hpolicy location hhigh]

theorem operand_congr (location : Address) {mode : Mode}
    (hagree : ∀ offset < mode.length,
      first.space.AgreeAt second.space (location + 1 + UInt16.ofNat offset)) :
    first.operand location mode = second.operand location mode := by
  have hnext (hlength : 0 < mode.length) : first.space.AgreeAt second.space (location + 1) := by
    simpa using hagree 0 hlength
  have hbyte (hlength : 0 < mode.length) := byte_congr hpolicy location (hnext hlength)
  have hword (hlength : 1 < mode.length) :=
    word_congr hpolicy location (hnext (by omega)) (hagree 1 hlength)
  cases mode with
  | implied => rfl
  | absolute | absoluteX | absoluteY =>
      simp only [operand, hword (by decide)]
  | immediate | indirectY | relative | zeroPage =>
      simp only [operand, hbyte (by decide)]

theorem decode_congr {location : Address} {instruction : Instruction}
    (hdecoded : first.instruction? location = some instruction)
    (hagree : ∀ byte, instruction.Occupies byte → first.space.AgreeAt second.space byte) :
    first.decode location = second.decode location := by
  have hlocation := (placedAt_of_instruction? hdecoded).location_eq
  have hoffset (offset : Nat) (hlength : offset < instruction.length) :
      first.space.AgreeAt second.space (location + UInt16.ofNat offset) :=
    hagree _ ⟨offset, hlength, by rw [hlocation]⟩
  obtain ⟨journal', hrun⟩ := outcome_eq_ok_iff.mp (instruction?_eq_some_iff.mp hdecoded)
  obtain ⟨opcode, middle, hopcode, hrest⟩ := exists_of_bind_ok hrun
  apply bind_congr_of_returns
  · apply byte_congr hpolicy
    simpa using hoffset 0 instruction.length_pos
  rintro opcode' ⟨_, _, hopcode'⟩
  rw [read_of_byte hopcode', ← read_of_byte hopcode]
  cases hencoding : Encoding.ofOpcode? opcode with
  | none => simp only [unsupported, hpolicy]
  | some encoding =>
      simp only [hencoding] at hrest
      obtain ⟨operand, _, hoperand, hrest⟩ := exists_of_bind_ok hrest
      cases hrest
      apply bind_congr_of_returns _ fun _ _ => rfl
      apply operand_congr hpolicy
      intro offset hlength
      have hmode := operand_mode hoperand
      have hagree' := hoffset (offset + 1) (by
        rw [Instruction.length_eq]
        unfold Instruction.mode
        rw [hmode]
        omega)
      rwa [Nat.add_comm, UInt16.ofNat_add, ← UInt16.add_assoc] at hagree'

end Agreement

/-! Programs -/

section Programs

variable {decoder : Decoder} {entry : Address}

/-- Control leads to the address within a routine that calls lead to. -/
def ProgramReaches (decoder : Decoder) (entry address : Address) : Prop :=
  ∃ routine, Relation.ReflTransGen decoder.Calls entry routine ∧ decoder.Reaches routine address

/-- An instruction of the program lies in the byte. -/
def Occupied (decoder : Decoder) (entry byte : Address) : Prop :=
  ∃ address instruction, decoder.ProgramReaches entry address ∧
    decoder.instruction? address = some instruction ∧ instruction.Occupies byte

theorem ProgramReaches.successor {address target : Address} {instruction : Instruction}
    (hreaches : decoder.ProgramReaches entry address)
    (hdecoded : decoder.instruction? address = some instruction)
    (htarget : target ∈ instruction.successors) : decoder.ProgramReaches entry target := by
  obtain ⟨routine, hcalled, hwithin⟩ := hreaches
  exact ⟨routine, hcalled, hwithin.step hdecoded htarget⟩

theorem ProgramReaches.call {address target : Address} {instruction : Instruction}
    (hreaches : decoder.ProgramReaches entry address)
    (hdecoded : decoder.instruction? address = some instruction)
    (htarget : instruction.callTarget? = some target) : decoder.ProgramReaches entry target := by
  obtain ⟨routine, hcalled, hwithin⟩ := hreaches
  exact ⟨target, hcalled.tail ⟨address, instruction, hwithin, hdecoded, htarget⟩, .entry⟩

theorem CallClosed.mem_of_calls {routines : AddressSet} {routine : Address}
    (hclosed : decoder.CallClosed entry routines)
    (hcalled : Relation.ReflTransGen decoder.Calls entry routine) : routine ∈ routines := by
  induction hcalled with
  | refl => exact hclosed.entry_mem
  | tail _ hcalls ih => exact hclosed.closed _ ih _ hcalls

theorem ProgramReaches.of_closed {inside : Address → Prop} (hentry : inside entry)
    (hclosed : ∀ address, inside address → ∀ instruction,
      decoder.instruction? address = some instruction →
        (∀ target ∈ instruction.successors, inside target) ∧
          ∀ target, instruction.callTarget? = some target → inside target)
    {address : Address} (hreaches : decoder.ProgramReaches entry address) : inside address := by
  have hwithin {routine address : Address} (hroutine : inside routine)
      (hreaches : decoder.Reaches routine address) : inside address := by
    induction hreaches with
    | entry => exact hroutine
    | step _ hdecoded htarget ih => exact (hclosed _ ih _ hdecoded).1 _ htarget
  obtain ⟨routine, hcalled, hreaches⟩ := hreaches
  refine hwithin ?_ hreaches
  clear hreaches
  induction hcalled with
  | refl => exact hentry
  | tail _ hcalls ih =>
      obtain ⟨_, _, hreaches, hdecoded, htarget⟩ := hcalls
      exact (hclosed _ (hwithin ih hreaches) _ hdecoded).2 _ htarget

/-- If the routines of a program were found, then all of it was decoded. -/
theorem ProgramReaches.decoded {routines : AddressSet} {journal journal' : Journal}
    (hroutines : decoder.routines entry journal = .ok routines journal') {address : Address}
    (hreaches : decoder.ProgramReaches entry address) :
    ∃ instruction, decoder.instruction? address = some instruction := by
  obtain ⟨routine, hcalled, hwithin⟩ := hreaches
  have hroutine := (callClosed_of_routines hroutines).mem_of_calls hcalled
  have hbodies : ∀ routine ∈ routines, True ∧ ∃ body, (decoder.body routine).Gives (.ok body) :=
    mem_of_routines trivial (fun _ _ _ _ => trivial) hroutines
  obtain ⟨_, body, hbody⟩ := hbodies routine hroutine
  obtain ⟨_, hrun⟩ := outcome_eq_ok_iff.mp (hbody {})
  have hisBody := isBody_of_body hrun
  exact hisBody.decodes address (hisBody.mem_of_reaches hwithin)

end Programs

theorem alike_of_agree {first second : Decoder} (hpolicy : second.policy = first.policy)
    {entry : Address} {routines : AddressSet} {journal journal' : Journal}
    (hroutines : first.routines entry journal = .ok routines journal')
    (hagree : ∀ byte, first.Occupied entry byte → first.space.AgreeAt second.space byte) :
    Alike equality first second (first.ProgramReaches entry) where
  decode address hreaches := by
    obtain ⟨instruction, hdecoded⟩ := hreaches.decoded hroutines
    apply decode_congr hpolicy hdecoded
    intro byte hbyte
    exact hagree byte ⟨address, instruction, hreaches, hdecoded, hbyte⟩
  successors address hreaches instruction hdecoded target htarget :=
    hreaches.successor hdecoded htarget
  calls address hreaches instruction hdecoded target htarget := hreaches.call hdecoded htarget

/-- A lifted program is lifted to the same module, with the same journal, from
every space that agrees at the bytes of its instructions. -/
theorem liftProgram_of_agree {first second : Decoder} (hpolicy : second.policy = first.policy)
    {platform : Platform} {entry : Address} {name : String} {module : Ssa.Module}
    {journal journal' : Journal}
    (hrun : first.liftProgram platform entry name journal = .ok module journal')
    (hagree : ∀ byte, first.Occupied entry byte → first.space.AgreeAt second.space byte) :
    second.liftProgram platform entry name journal = .ok module journal' := by
  obtain ⟨routines, _, hroutines, _⟩ := exists_of_bind_ok hrun
  have halike := alike_of_agree hpolicy (ok_of_adaptExcept hroutines) hagree
  have hequal : first.liftProgram platform entry name = second.liftProgram platform entry name :=
    halike.liftProgram platform ⟨entry, .refl, .entry⟩ name
  rwa [hequal] at hrun

/-- A program that calls a routine, in an image with the two and nothing
else. -/
def bareCall : Decoder where
  space := Image.space { base := 0x10, bytes := #[0x20, 0x14, 0x00, 0x60, 0x60] }

/-- The same program between bytes that are no instructions. -/
def paddedCall : Decoder where
  space := Image.space { base := 0x0F, bytes := #[0x02, 0x20, 0x14, 0x00, 0x60, 0x60, 0x02] }

theorem bareCall_agrees : ∀ byte ∈ [0x10, 0x11, 0x12, 0x13, 0x14],
    bareCall.space.AgreeAt paddedCall.space byte := by
  simp [AddressSpace.AgreeAt, bareCall, paddedCall, Image.space, Image.byte?]

theorem bareCall_code {address : Address} (haddress : address ∈ [0x10, 0x13, 0x14])
    {instruction : Instruction} (hdecoded : bareCall.instruction? address = some instruction) :
    (∀ target ∈ instruction.successors, target ∈ [0x10, 0x13, 0x14]) ∧
      (∀ target, instruction.callTarget? = some target → target ∈ [0x10, 0x13, 0x14]) ∧
      ∀ offset < instruction.length,
        instruction.location + UInt16.ofNat offset ∈ [0x10, 0x11, 0x12, 0x13, 0x14] := by
  have hcall : bareCall.instruction? 0x10 =
      some ⟨0x10, .jsr, some (.absolute 0x14), none⟩ := rfl
  have hreturn : bareCall.instruction? 0x13 = some ⟨0x13, .rts, none, none⟩ := rfl
  have hcallee : bareCall.instruction? 0x14 = some ⟨0x14, .rts, none, none⟩ := rfl
  have hends (location : Address) : (Instruction.mk location .rts none none).successors = [] ∧
      (Instruction.mk location .rts none none).callTarget? = none ∧
      (Instruction.mk location .rts none none).length = 1 := ⟨rfl, rfl, rfl⟩
  simp only [List.mem_cons, List.not_mem_nil, or_false] at haddress
  rcases haddress with rfl | rfl | rfl
  · cases hcall.symm.trans hdecoded
    have hsuccessors :
        (Instruction.mk 0x10 .jsr (some (.absolute 0x14)) none).successors = [0x13] := rfl
    have htarget :
        (Instruction.mk 0x10 .jsr (some (.absolute 0x14)) none).callTarget? = some 0x14 := rfl
    have hlength : (Instruction.mk 0x10 .jsr (some (.absolute 0x14)) none).length = 3 := rfl
    rw [hsuccessors, htarget, hlength]
    exact ⟨by simp, by simp, by decide⟩
  · cases hreturn.symm.trans hdecoded
    obtain ⟨hsuccessors, htarget, hlength⟩ := hends 0x13
    rw [hsuccessors, htarget, hlength]
    simp
  · cases hcallee.symm.trans hdecoded
    obtain ⟨hsuccessors, htarget, hlength⟩ := hends 0x14
    rw [hsuccessors, htarget, hlength]
    simp

theorem liftProgram_of_agree_bareCall : ∃ module journal',
    bareCall.liftProgram .nes 0x10 "call" {} = .ok module journal' ∧
      paddedCall.liftProgram .nes 0x10 "call" {} = .ok module journal' := by
  obtain ⟨module, journal', hrun⟩ : ∃ module journal',
      bareCall.liftProgram .nes 0x10 "call" {} = .ok module journal' :=
    exists_of_isOk (by decide +kernel)
  have hpolicy : paddedCall.policy = bareCall.policy := rfl
  refine ⟨module, journal', hrun, liftProgram_of_agree hpolicy hrun ?_⟩
  rintro _ ⟨address, instruction, hreaches, hdecoded, offset, hoffset, rfl⟩
  have haddress : address ∈ [0x10, 0x13, 0x14] := by
    refine hreaches.of_closed (by simp) ?_
    intro address haddress instruction hdecoded
    have hcode := bareCall_code haddress hdecoded
    exact ⟨hcode.1, hcode.2.1⟩
  exact bareCall_agrees _ ((bareCall_code haddress hdecoded).2.2 offset hoffset)

end Decoder

end Lift6502
