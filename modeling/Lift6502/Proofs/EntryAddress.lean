import Lift6502.CommandLine.EntryAddress
import Lift6502.Text.Hex
import Mathlib.Data.List.TakeWhile
import Mathlib.Data.Nat.Digits.Defs

/-! Addresses on the command line. They are written as marks, at most one sign
and digits. A text is read as an address exactly if it is written so and its
number fits in 16 bits. How far it is written so tells why it is refused. -/

namespace Lift6502.EntryAddress

/-! Grammar -/

/-- A hexadecimal digit, in one of the cases it may be written in. -/
structure Digit where
  value : Fin 16
  upper : Bool

def Digit.char (digit : Digit) : Char :=
  if digit.upper then Hex.digit digit.value else (Hex.digit digit.value).toLower

/-- The number that digits stand for, the highest first. -/
def numeral (digits : List Digit) : Nat :=
  Nat.ofDigits 16 (digits.map fun digit => digit.value.val).reverse

/-- How often each mark is written. -/
structure Marks where
  lower : Nat
  upper : Nat
  dollar : Nat

def Marks.text (marks : Marks) : List Char :=
  (List.replicate marks.lower ['0', 'x']).flatten ++
    ((List.replicate marks.upper ['0', 'X']).flatten ++ List.replicate marks.dollar '$')

def sign (signed : Bool) : List Char :=
  if signed then ['+'] else []

/-- A number as it may be written, of whatever size. -/
structure Number where
  signed : Bool
  digits : List Digit
  digits_ne_nil : digits ≠ []

def Number.text (number : Number) : List Char :=
  sign number.signed ++ number.digits.map Digit.char

def Number.value (number : Number) : Nat :=
  numeral number.digits

/-- Nothing that follows the number matters: it is at the end of the text, or
already too large. -/
def Number.Decides (number : Number) (rest : List Char) : Prop :=
  rest = [] ∨ 0xFFFF < number.value

/-! Digits -/

theorem digit?_char (digit : Digit) : digit? digit.char = some digit.value.val := by
  have hall : ∀ (value : Fin 16) (upper : Bool),
      digit? (Digit.char ⟨value, upper⟩) = some value.val := by
    decide
  exact hall digit.value digit.upper

theorem Digit.char_ne {char : Char} (hchar : digit? char = none) (digit : Digit) :
    digit.char ≠ char := by
  rintro rfl
  rw [digit?_char] at hchar
  cases hchar

theorem exists_digit_of_digit? {char : Char} {value : Nat} (hvalue : digit? char = some value) :
    ∃ digit : Digit, digit.char = char := by
  have htoLower : ∀ letter : Fin 6,
      (Hex.digit (10 + letter)).toLower = Char.ofNat (0x61 + letter) := by
    decide
  unfold digit? at hvalue
  split_ifs at hvalue with hdecimal hlower hupper <;> cases hvalue
  · have hlow : 0x30 ≤ char.toNat := hdecimal.1
    have hhigh : char.toNat ≤ 0x39 := hdecimal.2
    have hchar : Hex.digit (char.toNat - 0x30) = char := by
      rw [Hex.digit, if_pos (by omega), Nat.add_sub_cancel' hlow, Char.ofNat_toNat]
    exact ⟨⟨⟨char.toNat - 0x30, by omega⟩, true⟩, hchar⟩
  · have hlow : 0x61 ≤ char.toNat := hlower.1
    have hhigh : char.toNat ≤ 0x66 := hlower.2
    have hchar : (Hex.digit (char.toNat - 0x57)).toLower = char := by
      have hletter := htoLower ⟨char.toNat - 0x61, by omega⟩
      rwa [show 10 + (char.toNat - 0x61) = char.toNat - 0x57 by omega,
        Nat.add_sub_cancel' hlow, Char.ofNat_toNat] at hletter
    exact ⟨⟨⟨char.toNat - 0x57, by omega⟩, false⟩, hchar⟩
  · have hlow : 0x41 ≤ char.toNat := hupper.1
    have hhigh : char.toNat ≤ 0x46 := hupper.2
    have hchar : Hex.digit (char.toNat - 0x37) = char := by
      rw [Hex.digit, if_neg (by omega), Nat.add_sub_cancel' (by omega), Char.ofNat_toNat]
    exact ⟨⟨⟨char.toNat - 0x37, by omega⟩, true⟩, hchar⟩

theorem numeral_cons (digit : Digit) (digits : List Digit) :
    numeral (digit :: digits) = digit.value * 16 ^ digits.length + numeral digits := by
  rw [numeral, List.map_cons, Nat.ofDigits_reverse_cons, List.length_map, Nat.mul_comm,
    Nat.add_comm, numeral]

theorem readDigits_char (digit : Digit) (rest : List Char) (value : Nat) :
    readDigits (digit.char :: rest) value =
      if 0xFFFF < value * 16 + digit.value then .error .tooLarge
      else readDigits rest (value * 16 + digit.value) := by
  rw [readDigits, digit?_char]

theorem readDigits_append_of_le (digits : List Digit) (rest : List Char) {value : Nat}
    (hvalue : value ≤ 0xFFFF) :
    readDigits (digits.map Digit.char ++ rest) value =
      if 0xFFFF < value * 16 ^ digits.length + numeral digits then .error .tooLarge
      else readDigits rest (value * 16 ^ digits.length + numeral digits) := by
  induction digits generalizing value with
  | nil => simp [numeral, hvalue]
  | cons digit digits ih =>
      have htotal : value * 16 ^ (digit :: digits).length + numeral (digit :: digits) =
          (value * 16 + digit.value) * 16 ^ digits.length + numeral digits := by
        rw [numeral_cons, List.length_cons]
        ring
      rw [htotal, List.map_cons, List.cons_append, readDigits_char]
      split
      case isTrue hlarge =>
        -- What is too large already stays so whatever digits follow.
        have hgrows := Nat.le_mul_of_pos_right (value * 16 + digit.value)
          (Nat.pow_pos (n := digits.length) (show 0 < 16 by decide))
        rw [if_pos (by omega)]
      case isFalse hfits => exact ih (by omega)

theorem readDigits_append (digits : List Digit) (rest : List Char) :
    readDigits (digits.map Digit.char ++ rest) 0 =
      if 0xFFFF < numeral digits then .error .tooLarge else readDigits rest (numeral digits) := by
  simpa using readDigits_append_of_le digits rest (Nat.zero_le _)

theorem exists_digits (text : List Char) :
    ∃ (digits : List Digit) (rest : List Char), digits.map Digit.char ++ rest = text ∧
      ∀ char ∈ rest.head?, digit? char = none := by
  induction text with
  | nil => exact ⟨[], [], rfl, by simp⟩
  | cons char text ih =>
      cases hchar : digit? char with
      | none => exact ⟨[], char :: text, rfl, by simpa using hchar⟩
      | some value =>
          obtain ⟨digit, rfl⟩ := exists_digit_of_digit? hchar
          obtain ⟨digits, rest, rfl, hrest⟩ := ih
          exact ⟨digit :: digits, rest, rfl, hrest⟩

/-! Numbers -/

theorem readNumber_signed (char : Char) (rest : List Char) :
    readNumber ('+' :: char :: rest) = readDigits (char :: rest) 0 :=
  rfl

theorem readNumber_unsigned {char : Char} (hchar : char ≠ '+') (rest : List Char) :
    readNumber (char :: rest) = readDigits (char :: rest) 0 := by
  unfold readNumber
  split <;> simp_all

theorem readNumber_append (number : Number) (rest : List Char) :
    readNumber (number.text ++ rest) =
      if 0xFFFF < number.value then .error .tooLarge else readDigits rest number.value := by
  obtain ⟨signed, digits, hdigits⟩ := number
  rw [Number.value, ← readDigits_append, Number.text]
  cases digits with
  | nil => contradiction
  | cons digit digits =>
      cases signed with
      | true => exact readNumber_signed _ _
      | false => exact readNumber_unsigned (digit.char_ne rfl) _

/-- Unless a digit is invalid, what is read after a sign is a number that
decides. -/
theorem readDigits_cases (signed : Bool) {text : List Char} (htext : text ≠ []) :
    readDigits text 0 = .error .invalidDigit ∨
      ∃ (number : Number) (rest : List Char),
        number.text ++ rest = sign signed ++ text ∧ number.Decides rest := by
  obtain ⟨digits, rest, rfl, hrest⟩ := exists_digits text
  by_cases hdecides : rest = [] ∨ 0xFFFF < numeral digits
  · have hdigits : digits ≠ [] := by
      rintro rfl
      simp_all [numeral]
    exact .inr ⟨⟨signed, digits, hdigits⟩, rest, List.append_assoc .., hdecides⟩
  · obtain ⟨hmore, hfits⟩ := not_or.mp hdecides
    obtain ⟨char, rest, rfl⟩ := List.exists_cons_of_ne_nil hmore
    rw [readDigits_append, if_neg hfits, readDigits, hrest char rfl]
    exact .inl rfl

theorem readNumber_cases (text : List Char) :
    readNumber text = .error .invalidDigit ∨ text = [] ∨
      ∃ (number : Number) (rest : List Char),
        number.text ++ rest = text ∧ number.Decides rest := by
  cases text with
  | nil => exact .inr (.inl rfl)
  | cons first text =>
      by_cases hfirst : first = '+'
      · subst hfirst
        cases text with
        | nil => exact .inl rfl
        | cons second text =>
            rw [readNumber_signed]
            exact (readDigits_cases true (List.cons_ne_nil second text)).imp_right .inr
      · rw [readNumber_unsigned hfirst]
        exact (readDigits_cases false (List.cons_ne_nil first text)).imp_right .inr

/-! Marks -/

theorem dropZeroMarks_of_not_prefix {mark : Char} {text : List Char}
    (htext : ¬ ['0', mark] <+: text) : dropZeroMarks mark text = text := by
  unfold dropZeroMarks
  split
  case h_1 char rest =>
    rw [if_neg]
    rintro rfl
    exact htext ⟨rest, rfl⟩
  case h_2 => rfl

theorem dropZeroMarks_append (mark : Char) (count : Nat) {rest : List Char}
    (hrest : ¬ ['0', mark] <+: rest) :
    dropZeroMarks mark ((List.replicate count ['0', mark]).flatten ++ rest) = rest := by
  induction count with
  | zero => exact dropZeroMarks_of_not_prefix hrest
  | succ count ih => simpa [List.replicate_succ, dropZeroMarks] using ih

theorem exists_dropZeroMarks (mark : Char) (text : List Char) :
    ∃ count, (List.replicate count ['0', mark]).flatten ++ dropZeroMarks mark text = text := by
  fun_induction dropZeroMarks mark text with
  | case1 rest ih =>
      obtain ⟨count, htext⟩ := ih
      exact ⟨count + 1, by simp [List.replicate_succ, htext]⟩
  | case2 char rest hchar => exact ⟨0, rfl⟩
  | case3 text htext => exact ⟨0, rfl⟩

def Unmarked (text : List Char) : Prop :=
  ∀ mark ∈ [['0', 'x'], ['0', 'X'], ['$']], ¬ mark <+: text

theorem Unmarked.dropWhile {text : List Char} (htext : Unmarked text) :
    text.dropWhile (· == '$') = text := by
  cases text with
  | nil => rfl
  | cons char text =>
      rw [List.dropWhile_cons_of_neg]
      intro hchar
      rw [beq_iff_eq.mp hchar] at htext
      exact htext ['$'] (by simp) ⟨text, rfl⟩

theorem not_prefix_dollars {mark : Char} {text : List Char} (htext : ¬ ['0', mark] <+: text)
    (count : Nat) : ¬ ['0', mark] <+: List.replicate count '$' ++ text := by
  cases count with
  | zero => exact htext
  | succ count => simp [List.replicate_succ]

theorem dropMarks_append (marks : Marks) {rest : List Char} (hrest : Unmarked rest) :
    dropMarks (marks.text ++ rest) = rest := by
  have hdollars := not_prefix_dollars (hrest ['0', 'X'] (by simp)) marks.dollar
  have huppers : ¬ ['0', 'x'] <+: (List.replicate marks.upper ['0', 'X']).flatten ++
      (List.replicate marks.dollar '$' ++ rest) := by
    cases marks.upper with
    | zero => exact not_prefix_dollars (hrest ['0', 'x'] (by simp)) marks.dollar
    | succ count => simp [List.replicate_succ]
  rw [dropMarks, Marks.text, List.append_assoc, List.append_assoc,
    dropZeroMarks_append 'x' marks.lower huppers, dropZeroMarks_append 'X' marks.upper hdollars,
    List.dropWhile_append_of_pos (by simp), hrest.dropWhile]

theorem exists_dollars (text : List Char) :
    ∃ count, List.replicate count '$' ++ text.dropWhile (· == '$') = text := by
  have hdollars := List.eq_replicate_of_mem fun char hchar =>
    beq_iff_eq.mp (List.mem_takeWhile_imp (p := (· == '$')) (l := text) hchar)
  exact ⟨_, hdollars ▸ List.takeWhile_append_dropWhile⟩

theorem exists_marks (text : List Char) :
    ∃ marks : Marks, marks.text ++ dropMarks text = text := by
  obtain ⟨lower, hlower⟩ := exists_dropZeroMarks 'x' text
  obtain ⟨upper, hupper⟩ := exists_dropZeroMarks 'X' (dropZeroMarks 'x' text)
  obtain ⟨dollar, hdollar⟩ := exists_dollars (dropZeroMarks 'X' (dropZeroMarks 'x' text))
  refine ⟨⟨lower, upper, dollar⟩, ?_⟩
  rw [Marks.text, List.append_assoc, List.append_assoc, dropMarks, hdollar, hupper, hlower]

/-! Addresses -/

theorem unmarked_cons (digit : Digit) {text : List Char}
    (htext : ∀ char ∈ text.head?, char ≠ 'x' ∧ char ≠ 'X') : Unmarked (digit.char :: text) := by
  have hdollar : digit.char ≠ '$' := digit.char_ne rfl
  cases text with
  | nil => simp [Unmarked, hdollar.symm]
  | cons char text =>
      obtain ⟨hlower, hupper⟩ := htext char rfl
      simp [Unmarked, hdollar.symm, hlower.symm, hupper.symm]

/-- A zero in front of a number is no part of a mark. -/
theorem unmarked_append (number : Number) {rest : List Char} (hrest : number.Decides rest) :
    Unmarked (number.text ++ rest) := by
  obtain ⟨signed, digits, hdigits⟩ := number
  cases signed with
  | true => simp [Number.text, sign, Unmarked]
  | false =>
      cases digits with
      | nil => contradiction
      | cons digit digits =>
          apply unmarked_cons digit
          cases digits with
          | nil =>
              -- A single digit is too small for anything to follow it.
              have hsmall : numeral [digit] < 16 := by simp [numeral]
              rw [hrest.resolve_right (show ¬ 0xFFFF < numeral [digit] by omega)]
              simp
          | cons second digits =>
              rintro _ ⟨⟩
              exact ⟨second.char_ne rfl, second.char_ne rfl⟩

theorem read_of_marks {text : String} {marks : Marks} (htext : marks.text = text.toList) :
    read text = .error .empty := by
  have hunmarked : Unmarked [] := by simp [Unmarked]
  have hdrop := dropMarks_append marks hunmarked
  rw [List.append_nil, htext] at hdrop
  rw [read, hdrop, readNumber]

theorem read_of_number {text : String} {marks : Marks} {number : Number} {rest : List Char}
    (htext : marks.text ++ (number.text ++ rest) = text.toList)
    (hrest : number.Decides rest) :
    read text = if 0xFFFF < number.value then .error .tooLarge
      else .ok (UInt16.ofNat number.value) := by
  rw [read, ← htext, dropMarks_append marks (unmarked_append number hrest), readNumber_append]
  split
  case isTrue => rfl
  case isFalse hfits => rw [hrest.resolve_right hfits, readDigits]

theorem read_cases (text : String) :
    read text = .error .invalidDigit ∨ ∃ marks : Marks, marks.text = text.toList ∨
      ∃ (number : Number) (rest : List Char),
        marks.text ++ (number.text ++ rest) = text.toList ∧ number.Decides rest := by
  obtain ⟨marks, hmarks⟩ := exists_marks text.toList
  rcases readNumber_cases (dropMarks text.toList) with
    hread | hnil | ⟨number, rest, hnumber, hrest⟩
  · exact .inl hread
  · rw [hnil, List.append_nil] at hmarks
    exact .inr ⟨marks, .inl hmarks⟩
  · rw [← hnumber] at hmarks
    exact .inr ⟨marks, .inr ⟨number, rest, hmarks, hrest⟩⟩

theorem read_of_written {text : String} {marks : Marks} {number : Number}
    (htext : marks.text ++ number.text = text.toList) (hfits : number.value ≤ 0xFFFF) :
    read text = .ok (UInt16.ofNat number.value) := by
  rw [← List.append_nil number.text] at htext
  rw [read_of_number htext (.inl rfl), if_neg (by omega)]

theorem written_of_read {text : String} {address : Address} (hread : read text = .ok address) :
    ∃ (marks : Marks) (number : Number),
      marks.text ++ number.text = text.toList ∧ number.value = address.toNat := by
  rcases read_cases text with hinvalid | ⟨marks, hmarks | ⟨number, rest, htext, hrest⟩⟩
  · cases hinvalid.symm.trans hread
  · cases (read_of_marks hmarks).symm.trans hread
  · rw [read_of_number htext hrest] at hread
    split at hread
    case isTrue => cases hread
    case isFalse hlarge =>
      cases hread
      have hfits : number.value < UInt16.size := Nat.lt_succ_of_le (Nat.le_of_not_lt hlarge)
      rw [hrest.resolve_right hlarge, List.append_nil] at htext
      exact ⟨marks, number, htext, (UInt16.toNat_ofNat_of_lt' hfits).symm⟩

/-- A text is read as an address exactly if it is marks and then the address as
a number, and refused exactly if it is not marks and then a number that fits. -/
theorem read_iff_written (text : String) :
    (∀ address, read text = .ok address ↔
      ∃ (marks : Marks) (number : Number),
        marks.text ++ number.text = text.toList ∧ number.value = address.toNat) ∧
    ((∃ error, read text = .error error) ↔
      ¬ ∃ (marks : Marks) (number : Number),
        marks.text ++ number.text = text.toList ∧ number.value ≤ 0xFFFF) := by
  refine ⟨fun address => ⟨written_of_read, ?_⟩, ?_, ?_⟩
  · rintro ⟨marks, number, htext, hvalue⟩
    have hfits := address.toNat_lt
    rw [read_of_written htext (by omega), hvalue, UInt16.ofNat_toNat]
  · rintro ⟨error, hread⟩ ⟨marks, number, htext, hfits⟩
    cases hread.symm.trans (read_of_written htext hfits)
  · intro hnone
    cases hread : read text with
    | error error => exact ⟨error, rfl⟩
    | ok address =>
        obtain ⟨marks, number, htext, hvalue⟩ := written_of_read hread
        have hfits := address.toNat_lt
        exact absurd ⟨marks, number, htext, by omega⟩ hnone

example : read "0x0x0X$$+0000c0De" = .ok 0xC0DE := rfl

/-- Why a text is refused. A digit is invalid if nothing else is wrong: there is
more than marks, and no number after them decides. -/
def Refused (text : List Char) : EntryAddressError → Prop
  | .empty => ∃ marks : Marks, marks.text = text
  | .tooLarge => ∃ (marks : Marks) (number : Number) (rest : List Char),
      marks.text ++ (number.text ++ rest) = text ∧ 0xFFFF < number.value
  | .invalidDigit => (∀ marks : Marks, marks.text ≠ text) ∧
      ∀ (marks : Marks) (number : Number) (rest : List Char),
        marks.text ++ (number.text ++ rest) = text → ¬ number.Decides rest

theorem read_of_refused {text : String} {error : EntryAddressError}
    (hrefused : Refused text.toList error) : read text = .error error := by
  cases error with
  | empty =>
      obtain ⟨marks, hmarks⟩ := hrefused
      exact read_of_marks hmarks
  | tooLarge =>
      obtain ⟨marks, number, rest, htext, hlarge⟩ := hrefused
      rw [read_of_number htext (.inr hlarge), if_pos hlarge]
  | invalidDigit =>
      obtain ⟨hmarks, hnumbers⟩ := hrefused
      rcases read_cases text with hinvalid | ⟨marks, htext | ⟨number, rest, htext, hrest⟩⟩
      · exact hinvalid
      · exact absurd htext (hmarks marks)
      · exact absurd hrest (hnumbers marks number rest htext)

theorem refused_of_read {text : String} {error : EntryAddressError}
    (hread : read text = .error error) : Refused text.toList error := by
  rcases read_cases text with hinvalid | ⟨marks, hmarks | ⟨number, rest, htext, hrest⟩⟩
  · cases hread.symm.trans hinvalid
    refine ⟨fun marks hmarks => ?_, fun marks number rest htext hrest => ?_⟩
    · cases hread.symm.trans (read_of_marks hmarks)
    · rw [read_of_number htext hrest] at hread
      split at hread <;> cases hread
  · cases hread.symm.trans (read_of_marks hmarks)
    exact ⟨marks, hmarks⟩
  · rw [read_of_number htext hrest] at hread
    split at hread
    case isTrue hlarge =>
      cases hread
      exact ⟨marks, number, rest, htext, hlarge⟩
    case isFalse => cases hread

theorem read_eq_error_iff {text : String} {error : EntryAddressError} :
    read text = .error error ↔ Refused text.toList error :=
  ⟨refused_of_read, read_of_refused⟩

-- Marks out of their order are not dropped.
example : read "0X0x1" = .error .invalidDigit := rfl

end Lift6502.EntryAddress
