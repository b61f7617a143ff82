import Lift6502.Cartridge
import Mathlib.Data.Nat.Bitwise

/-! Cartridge images. An image is refused for the first requirement that it
does not meet, and the program of an accepted one is mapped so that its last
byte is at the last address. -/

namespace Lift6502

theorem AddressSpace.toNat_word (space : AddressSpace) (address : Address) :
    (space.word address).toNat =
      (space.read address).toNat + 256 * (space.read (address + 1)).toNat := by
  have hlow : (space.read address).toNat < 2 ^ 8 := (space.read address).toNat_lt
  have hhigh := (space.read (address + 1)).toNat_lt
  have hshift : ((space.read (address + 1)).toUInt16 <<< 8).toNat =
      (space.read (address + 1)).toNat <<< 8 := by
    rw [UInt16.toNat_shiftLeft, UInt8.toNat_toUInt16]
    apply Nat.mod_eq_of_lt
    rw [Nat.shiftLeft_eq]
    exact Nat.mul_lt_mul_of_pos_right hhigh (by decide)
  calc (space.word address).toNat
    _ = (space.read (address + 1)).toNat <<< 8 ||| (space.read address).toNat := by
        rw [word, UInt16.toNat_or, hshift, UInt8.toNat_toUInt16, Nat.or_comm]
    _ = (space.read (address + 1)).toNat <<< 8 + (space.read address).toNat :=
        (Nat.shiftLeft_add_eq_or_of_lt hlow _).symm
    _ = (space.read address).toNat + 256 * (space.read (address + 1)).toNat := by
        rw [Nat.shiftLeft_eq, Nat.add_comm, Nat.mul_comm]

namespace Image

theorem byte?_of_lt {image : Image} {address : Address}
    (hbelow : address.toNat < image.base.toNat) : image.byte? address = none :=
  if_neg (UInt16.not_le.mpr hbelow)

theorem byte?_of_le {image : Image} {address : Address}
    (hwithin : image.base.toNat ≤ address.toNat) :
    image.byte? address = image.bytes[address.toNat - image.base.toNat]? :=
  if_pos hwithin

theorem backed_space (image : Image) (address : Address) :
    image.space.backed address = (image.byte? address).isSome :=
  rfl

theorem read_space (image : Image) (address : Address) :
    image.space.read address = (image.byte? address).getD 0 :=
  rfl

end Image

namespace Cartridge

/-! The parts of an image -/

def bankCount (bytes : Array Byte) : Nat :=
  (bytes.getD 4 0).toNat

/-- Where the program starts: behind the header, and behind the trainer if
there is one. -/
def programOffset (bytes : Array Byte) : Nat :=
  if (bytes.getD 6 0).toNat.testBit 2 then 16 + 512 else 16

def programLimit (bytes : Array Byte) : Nat :=
  programOffset bytes + 16384 * bankCount bytes

/-- The number of the address of the first byte of the program. -/
def lowestAddress (bytes : Array Byte) : Nat :=
  65536 - 16384 * bankCount bytes

def headerOf (bytes : Array Byte) : Header :=
  Header.ofBytes (bytes.getD 4 0) (bytes.getD 5 0) (bytes.getD 6 0) (bytes.getD 7 0)

def contents (bytes : Array Byte) : Cartridge where
  header := headerOf bytes
  program := {
    base := (headerOf bytes).programBase
    bytes := bytes.extract (headerOf bytes).programStart (headerOf bytes).programEnd }

theorem flagged_four (flags : Byte) : Header.flagged flags 4 = flags.toNat.testBit 2 := by
  have hand : (flags &&& 4).toNat = (flags.toNat.testBit 2).toNat * 2 ^ 2 := by
    rw [UInt8.toNat_and]
    exact Nat.and_two_pow flags.toNat 2
  unfold Header.flagged
  rw [bne, Bool.not_eq_eq_eq_not]
  cases hbit : flags.toNat.testBit 2 with
  | true =>
      rw [hbit] at hand
      apply beq_false_of_ne
      intro hzero
      rw [hzero] at hand
      exact absurd hand (by decide)
  | false =>
      rw [hbit] at hand
      exact beq_of_eq (UInt8.toNat_inj.mp hand)

theorem programSize_headerOf (bytes : Array Byte) :
    (headerOf bytes).programSize = 16384 * bankCount bytes :=
  Nat.mul_comm _ _

theorem programStart_headerOf (bytes : Array Byte) :
    (headerOf bytes).programStart = programOffset bytes := by
  have htrainer : (headerOf bytes).trainer = (bytes.getD 6 0).toNat.testBit 2 :=
    flagged_four _
  unfold Header.programStart programOffset
  rw [htrainer]
  cases (bytes.getD 6 0).toNat.testBit 2 <;> rfl

theorem programEnd_headerOf (bytes : Array Byte) :
    (headerOf bytes).programEnd = programLimit bytes := by
  unfold Header.programEnd programLimit
  rw [programStart_headerOf, programSize_headerOf]

/-! Which images are accepted -/

/-- What an image has to meet, in the order of the checks, and the error if it
does not. -/
def requirements (bytes : Array Byte) : List (Bool × CartridgeError) :=
  [(decide (16 ≤ bytes.size), .truncated 16 bytes.size),
    (List.isPrefixOf [0x4E, 0x45, 0x53, 0x1A] bytes.toList, .badMagic),
    (decide (1 ≤ bankCount bytes), .noProgram),
    (decide (bankCount bytes ≤ 2), .programTooLarge (16384 * bankCount bytes)),
    (decide (programLimit bytes ≤ bytes.size), .truncated (programLimit bytes) bytes.size)]

def refusal? (bytes : Array Byte) : Option CartridgeError :=
  ((requirements bytes).find? fun requirement => !requirement.1).map Prod.snd

structure Accepted (bytes : Array Byte) : Prop where
  header_complete : 16 ≤ bytes.size
  starts_with_magic : [0x4E, 0x45, 0x53, 0x1A] <+: bytes.toList
  banks : bankCount bytes = 1 ∨ bankCount bytes = 2
  program_complete : programLimit bytes ≤ bytes.size

theorem refusal?_eq_none_iff (bytes : Array Byte) :
    refusal? bytes = none ↔ Accepted bytes := by
  unfold refusal?
  rw [Option.map_eq_none_iff, List.find?_eq_none]
  simp only [requirements, List.forall_mem_cons, Bool.not_eq_true', Bool.not_eq_false,
    decide_eq_true_eq, List.isPrefixOf_iff_prefix, List.not_mem_nil, false_implies, implies_true,
    and_true]
  constructor
  · rintro ⟨hheader, hmagic, hsome, hfew, hprogram⟩
    exact ⟨hheader, hmagic, by omega, hprogram⟩
  · rintro ⟨hheader, hmagic, hbanks, hprogram⟩
    exact ⟨hheader, hmagic, by omega, by omega, hprogram⟩

theorem take_ne_magic_iff (bytes : Array Byte) :
    bytes.toList.take 4 ≠ magic ↔
      List.isPrefixOf [0x4E, 0x45, 0x53, 0x1A] bytes.toList = false := by
  rw [← Bool.not_eq_true, List.isPrefixOf_iff_prefix, List.prefix_iff_eq_take, ne_comm]
  rfl

/-- One check after another: the first that fails decides. -/
theorem elim_find?_cons {loaded : Except CartridgeError Cartridge} (holds : Bool)
    (error : CartridgeError) (rest : List (Bool × CartridgeError)) :
    ((((holds, error) :: rest).find? fun requirement => !requirement.1).map Prod.snd).elim loaded
        .error =
      if holds = false then .error error
      else ((rest.find? fun requirement => !requirement.1).map Prod.snd).elim loaded .error := by
  cases holds <;> rfl

theorem read_eq (bytes : Array Byte) :
    read bytes = (refusal? bytes).elim (.ok (contents bytes)) .error := by
  unfold refusal? requirements
  iterate 5 rw [elim_find?_cons]
  simp only [decide_eq_false_iff_not, Nat.not_le]
  refine if_congr Iff.rfl rfl (if_congr (take_ne_magic_iff bytes) rfl ?_)
  have hsize := programSize_headerOf bytes
  refine if_congr ?_ rfl (if_congr ?_ ?_ (if_congr ?_ ?_ rfl))
  · rw [← headerOf, hsize]
    omega
  · rw [← headerOf, hsize]
    unfold programWindow
    omega
  · rw [← headerOf, hsize]
  · rw [← headerOf, programEnd_headerOf]
  · rw [← headerOf, programEnd_headerOf]

theorem exists_read_iff (bytes : Array Byte) :
    (∃ cartridge, read bytes = .ok cartridge) ↔ Accepted bytes := by
  rw [← refusal?_eq_none_iff, read_eq]
  cases refusal? bytes with
  | none => exact ⟨fun _ => rfl, fun _ => ⟨_, rfl⟩⟩
  | some error =>
      constructor
      · rintro ⟨_, hread⟩
        cases hread
      · intro hnone
        cases hnone

theorem read_eq_error_iff (bytes : Array Byte) (error : CartridgeError) :
    read bytes = .error error ↔ refusal? bytes = some error := by
  rw [read_eq]
  cases refusal? bytes with
  | none =>
      constructor
      · intro hread
        cases hread
      · intro hsome
        cases hsome
  | some found => exact Except.error.injEq found error ▸ Option.some_inj.symm

theorem eq_contents_of_read {bytes : Array Byte} {cartridge : Cartridge}
    (hread : read bytes = .ok cartridge) : Accepted bytes ∧ cartridge = contents bytes := by
  have haccepted : Accepted bytes := (exists_read_iff bytes).mp ⟨cartridge, hread⟩
  rw [read_eq, (refusal?_eq_none_iff bytes).mpr haccepted] at hread
  exact ⟨haccepted, (Except.ok.inj hread).symm⟩

/-! Bytes behind the program -/

theorem getD_append {bytes : Array Byte} {index : Nat} (hindex : index < bytes.size)
    (suffix : Array Byte) : (bytes ++ suffix).getD index 0 = bytes.getD index 0 := by
  rw [Array.getD_eq_getD_getElem?, Array.getD_eq_getD_getElem?,
    Array.getElem?_append_left hindex]

section Suffix

variable {bytes : Array Byte} (haccepted : Accepted bytes) (suffix : Array Byte)

include haccepted

theorem bankCount_append : bankCount (bytes ++ suffix) = bankCount bytes := by
  have hheader := haccepted.header_complete
  unfold bankCount
  rw [getD_append (by omega)]

theorem programOffset_append : programOffset (bytes ++ suffix) = programOffset bytes := by
  have hheader := haccepted.header_complete
  unfold programOffset
  rw [getD_append (by omega)]

theorem headerOf_append : headerOf (bytes ++ suffix) = headerOf bytes := by
  have hheader := haccepted.header_complete
  unfold headerOf
  iterate 4 rw [getD_append (by omega)]

theorem programLimit_append : programLimit (bytes ++ suffix) = programLimit bytes := by
  unfold programLimit
  rw [bankCount_append haccepted, programOffset_append haccepted]

theorem Accepted.append : Accepted (bytes ++ suffix) where
  header_complete := by
    rw [Array.size_append]
    exact Nat.le_add_right_of_le haccepted.header_complete
  starts_with_magic := by
    rw [Array.toList_append]
    exact haccepted.starts_with_magic.trans (List.prefix_append _ _)
  banks := by
    rw [bankCount_append haccepted]
    exact haccepted.banks
  program_complete := by
    rw [programLimit_append haccepted, Array.size_append]
    exact Nat.le_add_right_of_le haccepted.program_complete

theorem contents_append : contents (bytes ++ suffix) = contents bytes := by
  have hprogram := haccepted.program_complete
  rw [← programEnd_headerOf] at hprogram
  unfold contents
  rw [headerOf_append haccepted]
  congr 2
  apply Array.ext_getElem?
  intro index
  rw [Array.getElem?_extract, Array.getElem?_extract, Array.size_append,
    Nat.min_eq_left (Nat.le_add_right_of_le hprogram), Nat.min_eq_left hprogram]
  split
  · rw [Array.getElem?_append_left (by omega)]
  · rfl

end Suffix

/-! Where the program is mapped -/

/-- The space holds the program of an image, ending at the last address, and
nothing below it. -/
structure MapsProgram (bytes : Array Byte) (space : AddressSpace) : Prop where
  backed_iff : ∀ address : Address,
    space.backed address = true ↔ lowestAddress bytes ≤ address.toNat
  read_program : ∀ address : Address, lowestAddress bytes ≤ address.toNat →
    bytes[programOffset bytes + address.toNat - lowestAddress bytes]? = some (space.read address)
  read_below : ∀ address : Address, address.toNat < lowestAddress bytes → space.read address = 0
  reset : ∃ low high : Byte, bytes[programLimit bytes - 4]? = some low ∧
    bytes[programLimit bytes - 3]? = some high ∧
    space.resetVector.toNat = low.toNat + 256 * high.toNat

section Mapping

variable {bytes : Array Byte} (haccepted : Accepted bytes)

include haccepted

theorem toNat_base_contents : (contents bytes).program.base.toNat = lowestAddress bytes := by
  have hbanks := haccepted.banks
  show (UInt16.ofNat (65536 - (headerOf bytes).programSize)).toNat = _
  rw [programSize_headerOf]
  apply UInt16.toNat_ofNat_of_lt'
  show 65536 - 16384 * bankCount bytes < 65536
  omega

theorem byte?_contents {address : Address} (hwithin : lowestAddress bytes ≤ address.toNat) :
    ∃ byte, (contents bytes).program.byte? address = some byte ∧
      bytes[programOffset bytes + address.toNat - lowestAddress bytes]? = some byte := by
  have hbanks := haccepted.banks
  have hprogram := haccepted.program_complete
  have hlast := address.toNat_lt
  have hlimit : programOffset bytes + address.toNat - lowestAddress bytes < bytes.size := by
    unfold lowestAddress at hwithin ⊢
    unfold programLimit at hprogram
    omega
  refine ⟨_, ?_, Array.getElem?_eq_getElem hlimit⟩
  rw [Image.byte?_of_le (by rw [toNat_base_contents haccepted]; exact hwithin),
    toNat_base_contents haccepted]
  show (bytes.extract (headerOf bytes).programStart (headerOf bytes).programEnd)[_]? = _
  rw [programStart_headerOf, programEnd_headerOf, Array.getElem?_extract,
    Nat.min_eq_left hprogram, if_pos, ← Array.getElem?_eq_getElem hlimit,
    ← Nat.add_sub_assoc hwithin]
  unfold programLimit
  unfold lowestAddress at hwithin ⊢
  omega

theorem byte?_contents_below {address : Address} (hbelow : address.toNat < lowestAddress bytes) :
    (contents bytes).program.byte? address = none := by
  apply Image.byte?_of_lt
  rw [toNat_base_contents haccepted]
  exact hbelow

theorem read_contents {address : Address} (hwithin : lowestAddress bytes ≤ address.toNat) :
    bytes[programOffset bytes + address.toNat - lowestAddress bytes]? =
      some ((contents bytes).space.read address) := by
  obtain ⟨byte, hfound, hbyte⟩ := byte?_contents haccepted hwithin
  rw [space, Image.read_space, hfound, hbyte]
  rfl

theorem mapsProgram_contents : MapsProgram bytes (contents bytes).space := by
  have hbanks := haccepted.banks
  constructor
  · intro address
    rw [space, Image.backed_space]
    constructor
    · intro hbacked
      by_contra hbelow
      rw [byte?_contents_below haccepted (Nat.lt_of_not_le hbelow)] at hbacked
      cases hbacked
    · intro hwithin
      obtain ⟨byte, hfound, _⟩ := byte?_contents haccepted hwithin
      rw [hfound]
      rfl
  · exact fun address hwithin => read_contents haccepted hwithin
  · intro address hbelow
    rw [space, Image.read_space, byte?_contents_below haccepted hbelow]
    rfl
  · -- The vector is the fourth byte from the end and the one behind it.
    have hlow : lowestAddress bytes ≤ (0xFFFC : Address).toNat ∧
        programOffset bytes + (0xFFFC : Address).toNat - lowestAddress bytes =
          programLimit bytes - 4 := by
      unfold lowestAddress programLimit
      rw [show (0xFFFC : Address).toNat = 65532 from rfl]
      omega
    have hhigh : lowestAddress bytes ≤ (0xFFFC + 1 : Address).toNat ∧
        programOffset bytes + (0xFFFC + 1 : Address).toNat - lowestAddress bytes =
          programLimit bytes - 3 := by
      unfold lowestAddress programLimit
      rw [show (0xFFFC + 1 : Address).toNat = 65533 from rfl]
      omega
    refine ⟨_, _, ?_, ?_, AddressSpace.toNat_word _ 0xFFFC⟩
    · rw [← hlow.2]
      exact read_contents haccepted hlow.1
    · rw [← hhigh.2]
      exact read_contents haccepted hhigh.1

end Mapping

/-- Reading accepts exactly the images that meet every requirement, refuses
any other for the first requirement that it does not meet, and maps the
program of an accepted one. What stands behind the program does not matter. -/
theorem read_exact (bytes : Array Byte) :
    ((∃ cartridge, read bytes = .ok cartridge) ↔ Accepted bytes) ∧
      (∀ error, read bytes = .error error ↔ refusal? bytes = some error) ∧
      ∀ cartridge, read bytes = .ok cartridge → MapsProgram bytes cartridge.space ∧
        ∀ suffix, read (bytes ++ suffix) = .ok cartridge := by
  refine ⟨exists_read_iff bytes, read_eq_error_iff bytes, ?_⟩
  intro cartridge hread
  obtain ⟨haccepted, rfl⟩ := eq_contents_of_read hread
  refine ⟨mapsProgram_contents haccepted, fun suffix => ?_⟩
  rw [read_eq, (refusal?_eq_none_iff _).mpr (haccepted.append suffix),
    contents_append haccepted]
  rfl

/-- A header that announces one bank of program, and the bank. -/
def oneBank : Array Byte :=
  #[0x4E, 0x45, 0x53, 0x1A, 1, 0, 0, 0, 0, 0, 0, 0, 0, 0, 0, 0] ++ Array.replicate 16384 0x60

theorem bankCount_oneBank : bankCount oneBank = 1 := by
  rw [bankCount, oneBank, getD_append (by decide)]
  rfl

theorem programOffset_oneBank : programOffset oneBank = 16 := by
  rw [programOffset, oneBank, getD_append (by decide)]
  rfl

theorem accepted_oneBank : Accepted oneBank := by
  have hsize : oneBank.size = 16400 := by
    rw [oneBank, Array.size_append, Array.size_replicate]
    rfl
  constructor
  · omega
  · rw [oneBank, Array.toList_append]
    exact (List.prefix_append _ _).trans (List.prefix_append _ _)
  · exact .inl bankCount_oneBank
  · rw [programLimit, bankCount_oneBank, programOffset_oneBank, hsize]

theorem read_exact_oneBank : ∃ cartridge, read oneBank = .ok cartridge ∧
    MapsProgram oneBank cartridge.space ∧ read (oneBank ++ #[0xFF]) = .ok cartridge := by
  obtain ⟨cartridge, hread⟩ := (read_exact oneBank).1.mpr accepted_oneBank
  obtain ⟨hmaps, hsuffix⟩ := (read_exact oneBank).2.2 cartridge hread
  exact ⟨cartridge, hread, hmaps, hsuffix #[0xFF]⟩

end Cartridge

end Lift6502
