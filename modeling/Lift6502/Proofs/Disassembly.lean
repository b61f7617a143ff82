import Lift6502.Proofs.Cartridge
import Lift6502.Proofs.Reads
import Mathlib.Data.List.Nodup

/-! Disassembly. A decoded instruction tells the bytes that it was decoded
from, and its text tells the instruction. -/

namespace Lift6502

/-! Hexadecimal text -/

namespace Hex

theorem digit_inj : ∀ first second : Fin 16,
    digit first = digit second → first = second := by
  decide

theorem digits_inj {width first second : Nat} (hfirst : first < 16 ^ width)
    (hsecond : second < 16 ^ width) (hdigits : digits width first = digits width second) :
    first = second := by
  induction width generalizing first second with
  | zero => omega
  | succ width ih =>
      obtain ⟨hhigh, hlow⟩ := List.append_inj' hdigits rfl
      rw [Nat.pow_succ'] at hfirst hsecond
      have hquotient : first / 16 = second / 16 :=
        ih (Nat.div_lt_of_lt_mul hfirst) (Nat.div_lt_of_lt_mul hsecond) hhigh
      have hremainder : first % 16 = second % 16 := Fin.mk.inj
        (digit_inj ⟨first % 16, Nat.mod_lt _ (by decide)⟩
          ⟨second % 16, Nat.mod_lt _ (by decide)⟩ (List.singleton_inj.mp hlow))
      omega

theorem word_inj {first second : UInt16} (hwords : word first = word second) :
    first = second := by
  have hdigits := congrArg String.toList hwords
  rw [word, word, String.toList_ofList, String.toList_ofList] at hdigits
  exact UInt16.toNat_inj.mp (digits_inj first.toNat_lt second.toNat_lt hdigits)

theorem byte_inj {first second : UInt8} (hbytes : byte first = byte second) :
    first = second := by
  have hdigits := congrArg String.toList hbytes
  rw [byte, byte, String.toList_ofList, String.toList_ofList] at hdigits
  exact UInt8.toNat_inj.mp (digits_inj first.toNat_lt second.toNat_lt hdigits)

end Hex

/-! Bytes -/

def AddressSpace.bytes (space : AddressSpace) (location : Address) (count : Nat) : List Byte :=
  (List.range count).map fun offset => space.read (location + UInt16.ofNat offset)

section Memory

variable (space : AddressSpace) (address : Address)

theorem AddressSpace.bytes_succ (count : Nat) :
    space.bytes address (count + 1) = space.read address :: space.bytes (address + 1) count := by
  have hoffset (offset : Nat) :
      address + UInt16.ofNat (offset + 1) = address + 1 + UInt16.ofNat offset := by
    rw [UInt16.ofNat_add, UInt16.add_assoc, UInt16.add_comm (UInt16.ofNat offset)]
    rfl
  simp only [bytes, List.range_succ_eq_map, List.map_cons, List.map_map, Function.comp_def,
    Nat.succ_eq_add_one, hoffset]
  exact congrArg (fun start => space.read start :: _) (UInt16.add_zero address)

theorem AddressSpace.toUInt8_word : (space.word address).toUInt8 = space.read address := by
  have hlow := (space.read address).toNat_lt
  apply UInt8.toNat_inj.mp
  rw [UInt16.toNat_toUInt8, space.toNat_word]
  omega

theorem AddressSpace.toUInt8_word_shiftRight :
    (space.word address >>> 8).toUInt8 = space.read (address + 1) := by
  have hlow := (space.read address).toNat_lt
  have hhigh := (space.read (address + 1)).toNat_lt
  apply UInt8.toNat_inj.mp
  rw [UInt16.toNat_toUInt8, UInt16.toNat_shiftRight, space.toNat_word, Nat.shiftRight_eq_div_pow]
  show _ / 2 ^ 8 % 2 ^ 8 = _
  omega

end Memory

/-- The bytes of an operand, in the order they follow the opcode. -/
def Operand.bytes : Operand → List Byte
  | .absolute address | .absoluteX address | .absoluteY address =>
      [address.toUInt8, (address >>> 8).toUInt8]
  | .immediate value | .indirectY value | .zeroPage value => [value]
  | .relative offset => [offset.toUInt8]

/-- The opcode of a mnemonic with an operand of some mode. -/
def Encoding.opcode? (mnemonic : Mnemonic) (mode : Mode) : Option Byte :=
  (all.find? fun encoding => encoding.mnemonic == mnemonic && encoding.mode == mode).map opcode

theorem Encoding.opcode?_of_mem : ∀ encoding ∈ all,
    opcode? encoding.mnemonic encoding.mode = some encoding.opcode := by
  decide +kernel

def Instruction.bytes (instruction : Instruction) : List Byte :=
  (instruction.substituted <|>
      Encoding.opcode? instruction.mnemonic instruction.mode).toList ++
    (instruction.operand.map Operand.bytes).getD []

namespace Decoder

variable {decoder : Decoder} {location : Address} {instruction : Instruction}
  {journal journal' : Journal}

/-- An instruction is read off the table, or stands for an opcode outside it. -/
theorem cases_of_decode (hrun : decoder.decode location journal = .ok instruction journal') :
    (∃ encoding, Encoding.ofOpcode? (decoder.space.read location) = some encoding ∧
      instruction = ⟨location, encoding.mnemonic, decoder.operandAt location encoding.mode, none⟩) ∨
    instruction = ⟨location, .rts, none, some (decoder.space.read location)⟩ := by
  rw [decode_eq_visits] at hrun
  obtain ⟨_, middle, _, hunderstand⟩ := Session.exists_of_bind_ok hrun
  unfold understand at hunderstand
  cases hencoding : Encoding.ofOpcode? (decoder.space.read location) with
  | some encoding =>
      rw [hencoding] at hunderstand
      cases hunderstand
      exact .inl ⟨encoding, rfl, rfl⟩
  | none =>
      rw [hencoding] at hunderstand
      unfold unsupported at hunderstand
      cases hpolicy : decoder.policy.unsupported with
      | fail =>
          rw [hpolicy] at hunderstand
          cases hunderstand
      | substituteReturn =>
          rw [hpolicy] at hunderstand
          cases hunderstand
          exact .inr rfl

theorem bytes_operandAt (decoder : Decoder) (location : Address) (mode : Mode) :
    ((decoder.operandAt location mode).map Operand.bytes).getD [] =
      (operandBytes location mode).map decoder.space.read := by
  have hword (address : Address) :
      [(decoder.space.word address).toUInt8, (decoder.space.word address >>> 8).toUInt8] =
        [decoder.space.read address, decoder.space.read (address + 1)] := by
    rw [decoder.space.toUInt8_word, decoder.space.toUInt8_word_shiftRight]
  cases mode with
  | implied => rfl
  | absolute | absoluteX | absoluteY =>
      refine (hword (location + 1)).trans ?_
      simp [operandBytes, Mode.length, List.range_succ]
  | immediate | indirectY | zeroPage | relative =>
      simp [operandAt, operandBytes, Operand.bytes, Mode.length]

theorem bytes_of_decode (hrun : decoder.decode location journal = .ok instruction journal') :
    instruction.bytes = decoder.space.bytes instruction.location instruction.length := by
  rw [Instruction.length_eq, Nat.add_comm, AddressSpace.bytes_succ]
  rcases cases_of_decode hrun with ⟨encoding, hencoding, rfl⟩ | rfl
  · have hfound := List.find?_some hencoding
    have hopcode : encoding.opcode = decoder.space.read location := beq_iff_eq.mp hfound
    have hmode := mode_operandAt decoder location encoding.mode
    unfold Instruction.bytes Instruction.mode
    simp only [hmode, hopcode,
      Encoding.opcode?_of_mem encoding (List.mem_of_find?_eq_some hencoding),
      bytes_operandAt, operandBytes, List.map_map]
    rfl
  · simp [Instruction.bytes, AddressSpace.bytes, Instruction.mode, Mode.length]

end Decoder

/-! Texts -/

theorem Mnemonic.nodup_texts : (all.map fun mnemonic => mnemonic.text.toList).Nodup := by
  decide +kernel

theorem Mnemonic.text_inj {first second : Mnemonic}
    (htexts : first.text.toList = second.text.toList) : first = second :=
  List.inj_on_of_nodup_map nodup_texts (mem_all first) (mem_all second) htexts

theorem Mnemonic.length_text (mnemonic : Mnemonic) : mnemonic.text.toList.length = 3 := by
  cases mnemonic <;> rfl

namespace Operand

variable {first second : Operand}

/-- Texts tell modes apart, except that a relative offset is written as an
address of the zero page would be. -/
theorem mode_of_text (hfirst : first.mode ≠ .relative) (hsecond : second.mode ≠ .relative)
    (htexts : first.text = second.text) : first.mode = second.mode := by
  have hchars := congrArg String.toList htexts
  cases first <;> cases second <;>
    simp [text, mode, Hex.word, Hex.byte, Hex.digits, toString] at hchars hfirst hsecond ⊢

theorem text_inj (hfirst : first.mode ≠ .relative) (hsecond : second.mode ≠ .relative)
    (htexts : first.text = second.text) : first = second := by
  have hmodes := mode_of_text hfirst hsecond htexts
  cases first <;> cases second <;> cases hmodes <;> simp [text, toString] at htexts ⊢
  case relative.relative.refl => exact absurd rfl hfirst
  case absolute.absolute.refl | absoluteX.absoluteX.refl | absoluteY.absoluteY.refl =>
    exact Hex.word_inj htexts
  case immediate.immediate.refl | indirectY.indirectY.refl | zeroPage.zeroPage.refl =>
    exact Hex.byte_inj htexts

theorem text_ne_space (operand : Operand) (rest : List Char) :
    operand.text.toList ≠ ' ' :: rest := by
  cases operand <;> simp [text, toString]

end Operand

theorem Operation.not_takes_absolute {operation : Operation}
    (htakes : operation.takes .relative = true) : operation.takes .absolute = false := by
  cases operation <;> first | rfl | cases htakes

namespace Instruction

/-- The operand as it is written: the address that a relative one leads to. -/
def shown (instruction : Instruction) : Option Operand :=
  match instruction.operand with
  | some (.relative _) => some (.absolute (instruction.target?.getD 0))
  | operand => operand

def remark (instruction : Instruction) : String :=
  match instruction.substituted with
  | none => ""
  | some opcode => s!"  ; unsupported opcode ${Hex.byte opcode}"

/-- What decoded instructions have in common: the operation takes the operand,
and an unsupported opcode has none. -/
structure Legible (instruction : Instruction) : Prop where
  takes_mode : instruction.operation.takes instruction.mode = true
  bare : instruction.substituted.isSome → instruction.operand = none

section

variable (instruction : Instruction)

theorem toList_text : instruction.text.toList =
    (Hex.word instruction.location).toList ++ ([':', ' '] ++ (instruction.mnemonic.text.toList ++
      (instruction.operandText.toList ++ instruction.remark.toList))) := by
  simp only [text, remark]
  cases instruction.substituted <;> simp [toString]

theorem toList_operandText : instruction.operandText.toList =
    match instruction.shown with
    | none => []
    | some operand => ' ' :: operand.text.toList := by
  unfold operandText shown
  split <;> simp_all [toString, Operand.text]

theorem shown_ne_relative {operand : Operand} (hshown : instruction.shown = some operand) :
    operand.mode ≠ .relative := by
  unfold shown at hshown
  split at hshown
  · cases hshown
    exact Mode.noConfusion
  · rintro hmode
    cases operand with
    | relative offset => simp_all
    | _ => cases hmode

end

section

variable {first second : Instruction}

theorem shown_of_operandText (htexts : first.operandText.toList = second.operandText.toList) :
    first.shown = second.shown := by
  rw [toList_operandText, toList_operandText] at htexts
  cases hfirst : first.shown with
  | none =>
      cases hsecond : second.shown with
      | none => rfl
      | some operand => simp [hfirst, hsecond] at htexts
  | some operand =>
      cases hsecond : second.shown with
      | none => simp [hfirst, hsecond] at htexts
      | some other =>
          simp only [hfirst, hsecond, List.cons_inj_right, String.toList_inj] at htexts
          rw [Operand.text_inj (first.shown_ne_relative hfirst) (second.shown_ne_relative hsecond)
            htexts]

theorem operandText_ne_spaces (instruction : Instruction) (rest : List Char) :
    instruction.operandText.toList ≠ ' ' :: ' ' :: rest := by
  rw [toList_operandText]
  cases instruction.shown with
  | none => exact List.cons_ne_nil _ _ |>.symm
  | some operand => exact fun heq => operand.text_ne_space rest (List.cons_inj_right _ |>.mp heq)

theorem offset_inj {offset offset' : Int8} {following : Address}
    (htargets : following + offset.toInt16.toUInt16 = following + offset'.toInt16.toUInt16) :
    offset = offset' := by
  have hwide : offset.toInt16 = offset'.toInt16 :=
    congrArg UInt16.toInt16 ((UInt16.add_right_inj following).mp htargets)
  apply Int8.toInt_inj.mp
  rw [← Int8.toInt_toInt16, hwide, Int8.toInt_toInt16]

theorem operand_of_mode_relative {instruction : Instruction}
    (hmode : instruction.mode = .relative) :
    ∃ offset, instruction.operand = some (.relative offset) ∧
      instruction.shown =
        some (.absolute (instruction.location + 2 + offset.toInt16.toUInt16)) := by
  obtain ⟨offset, hoperand⟩ := operand_of_relative hmode
  refine ⟨offset, hoperand, ?_⟩
  simp only [shown, target?, following, length, hoperand]
  rfl

theorem shown_of_mode_ne_relative {instruction : Instruction}
    (hmode : instruction.mode ≠ .relative) : instruction.shown = instruction.operand := by
  unfold shown
  split
  · rename_i hoperand
    simp [mode, hoperand, Operand.mode] at hmode
  · rfl

theorem mode_relative_of_shown (hfirst : first.Legible) (hsecond : second.Legible)
    (hoperations : first.operation = second.operation) (hshown : first.shown = second.shown)
    (hmode : first.mode = .relative) : second.mode = .relative := by
  -- A relative operand looks like an absolute one, but no operation takes both.
  by_contra hother
  obtain ⟨offset, _, hfirstShown⟩ := operand_of_mode_relative hmode
  rw [hshown, shown_of_mode_ne_relative hother] at hfirstShown
  have hrelative := hfirst.takes_mode
  have habsolute := hsecond.takes_mode
  unfold mode at habsolute
  rw [hmode, hoperations] at hrelative
  rw [hfirstShown] at habsolute
  exact absurd (habsolute.symm.trans (Operation.not_takes_absolute hrelative)) (by decide)

theorem operand_of_shown (hfirst : first.Legible) (hsecond : second.Legible)
    (hlocations : first.location = second.location)
    (hoperations : first.operation = second.operation) (hshown : first.shown = second.shown) :
    first.operand = second.operand := by
  by_cases hmode : first.mode = .relative
  · have hmode' := mode_relative_of_shown hfirst hsecond hoperations hshown hmode
    obtain ⟨offset, hoperand, hfirstShown⟩ := operand_of_mode_relative hmode
    obtain ⟨offset', hoperand', hsecondShown⟩ := operand_of_mode_relative hmode'
    rw [hshown, hsecondShown, hlocations, Option.some.injEq, Operand.absolute.injEq] at hfirstShown
    rw [hoperand, hoperand', offset_inj hfirstShown]
  · have hmode' : second.mode ≠ .relative := fun hrelative =>
      hmode (mode_relative_of_shown hsecond hfirst hoperations.symm hshown.symm hrelative)
    rw [← shown_of_mode_ne_relative hmode, ← shown_of_mode_ne_relative hmode', hshown]

theorem toList_rest_of_supported {instruction : Instruction}
    (hsubstituted : instruction.substituted = none) :
    instruction.operandText.toList ++ instruction.remark.toList =
      instruction.operandText.toList := by
  simp [remark, hsubstituted]

theorem toList_rest_of_unsupported {instruction : Instruction} (hlegible : instruction.Legible)
    {opcode : Byte} (hsubstituted : instruction.substituted = some opcode) :
    instruction.shown = none ∧
      instruction.operandText.toList ++ instruction.remark.toList =
        ' ' :: ' ' :: ("; unsupported opcode $".toList ++ (Hex.byte opcode).toList) := by
  have hbare := hlegible.bare (by simp [hsubstituted])
  have hshown : instruction.shown = none := by simp [shown, hbare]
  refine ⟨hshown, ?_⟩
  rw [toList_operandText, hshown]
  simp [remark, hsubstituted, toString]

/-- What is written after the mnemonic tells the operand and the opcode that
was found. -/
theorem rest_inj (hfirst : first.Legible) (hsecond : second.Legible)
    (hrests : first.operandText.toList ++ first.remark.toList =
      second.operandText.toList ++ second.remark.toList) :
    first.shown = second.shown ∧ first.substituted = second.substituted := by
  cases hopcode : first.substituted with
  | none =>
      rw [toList_rest_of_supported hopcode] at hrests
      cases hopcode' : second.substituted with
      | none =>
          rw [toList_rest_of_supported hopcode'] at hrests
          exact ⟨shown_of_operandText hrests, rfl⟩
      | some opcode' =>
          rw [(toList_rest_of_unsupported hsecond hopcode').2] at hrests
          exact absurd hrests (operandText_ne_spaces _ _)
  | some opcode =>
      obtain ⟨hshown, hrest⟩ := toList_rest_of_unsupported hfirst hopcode
      rw [hrest] at hrests
      cases hopcode' : second.substituted with
      | none =>
          rw [toList_rest_of_supported hopcode'] at hrests
          exact absurd hrests.symm (operandText_ne_spaces _ _)
      | some opcode' =>
          obtain ⟨hshown', hrest'⟩ := toList_rest_of_unsupported hsecond hopcode'
          rw [hrest', List.cons_inj_right, List.cons_inj_right, List.append_cancel_left_eq,
            String.toList_inj] at hrests
          exact ⟨hshown.trans hshown'.symm, congrArg some (Hex.byte_inj hrests)⟩

theorem text_inj (hfirst : first.Legible) (hsecond : second.Legible)
    (htexts : first.text = second.text) : first = second := by
  have hchars := congrArg String.toList htexts
  rw [toList_text, toList_text] at hchars
  obtain ⟨hwords, hafterLocation⟩ := List.append_inj hchars (by simp [Hex.word])
  obtain ⟨hnames, hrests⟩ := List.append_inj (List.append_cancel_left hafterLocation)
    (by rw [Mnemonic.length_text, Mnemonic.length_text])
  obtain ⟨hshown, hsubstituted⟩ := rest_inj hfirst hsecond hrests
  have hlocations := Hex.word_inj (String.toList_inj.mp hwords)
  have hmnemonics := Mnemonic.text_inj hnames
  have hoperands := operand_of_shown hfirst hsecond hlocations
    (congrArg Mnemonic.operation hmnemonics) hshown
  cases first
  cases second
  cases hlocations
  cases hmnemonics
  cases hoperands
  cases hsubstituted
  rfl

end

end Instruction

namespace Decoder

theorem legible_of_decode {decoder : Decoder} {location : Address} {instruction : Instruction}
    {journal journal' : Journal}
    (hrun : decoder.decode location journal = .ok instruction journal') : instruction.Legible := by
  refine ⟨(placedAt_of_decode hrun).takes_mode, fun hsubstituted => ?_⟩
  rcases cases_of_decode hrun with ⟨_, _, rfl⟩ | rfl
  · cases hsubstituted
  · rfl

section

variable {first second : Decoder} {location location' : Address}
  {instruction instruction' : Instruction} {journal middle journal' middle' : Journal}

/-- A line of disassembly tells the instruction and the bytes it stands for. -/
theorem disassembly_lossless
    (hrun : first.decode location journal = .ok instruction middle)
    (hrun' : second.decode location' journal' = .ok instruction' middle')
    (htexts : instruction.text = instruction'.text) :
    instruction = instruction' ∧
      ∀ offset < instruction.length,
        first.space.read (instruction.location + UInt16.ofNat offset) =
          second.space.read (instruction.location + UInt16.ofNat offset) := by
  obtain rfl := Instruction.text_inj (legible_of_decode hrun) (legible_of_decode hrun') htexts
  refine ⟨rfl, fun offset hoffset => ?_⟩
  have hbytes := (bytes_of_decode hrun).symm.trans (bytes_of_decode hrun')
  exact List.map_inj_left.mp hbytes offset (List.mem_range.mpr hoffset)

end

/-- A branch back to itself, and nothing else. -/
def bareBranch : Decoder where
  space := Image.space { base := 0x10, bytes := #[0xD0, 0xFE] }

/-- The same branch between other bytes, where nothing unknown is accepted. -/
def paddedBranch : Decoder where
  space := Image.space { base := 0x0F, bytes := #[0xEA, 0xD0, 0xFE, 0x60] }
  policy := .strict

theorem disassembly_lossless_branch :
    (Instruction.mk 0x10 .bne (some (.relative (-2))) none).text = "0010: BNE $0010" ∧
      bareBranch.space.read (0x10 + 1) = paddedBranch.space.read (0x10 + 1) := by
  have hrun : bareBranch.decode 0x10 {} =
      .ok ⟨0x10, .bne, some (.relative (-2)), none⟩ {} := rfl
  have hrun' : paddedBranch.decode 0x10 {} =
      .ok ⟨0x10, .bne, some (.relative (-2)), none⟩ {} := rfl
  exact ⟨rfl, (disassembly_lossless hrun hrun' rfl).2 1 (by decide)⟩

end Decoder

end Lift6502
