import Lift6502.AddressSpace

/-! Addresses as they are written on the command line: hexadecimal digits
after any number of the marks `0x`, `0X` and `$`, in that order. -/

namespace Lift6502

inductive EntryAddressError
  | empty
  | invalidDigit
  | tooLarge
  deriving DecidableEq, Repr

def EntryAddressError.message : EntryAddressError → String
  | .empty => "cannot parse integer from empty string"
  | .invalidDigit => "invalid digit found in string"
  | .tooLarge => "number too large to fit in target type"

namespace EntryAddress

def digit? (c : Char) : Option Nat :=
  if '0' ≤ c ∧ c ≤ '9' then some (c.toNat - 0x30)
  else if 'a' ≤ c ∧ c ≤ 'f' then some (c.toNat - 0x57)
  else if 'A' ≤ c ∧ c ≤ 'F' then some (c.toNat - 0x37)
  else none

/-- Drops every leading zero that is followed by the mark. -/
def dropZeroMarks (mark : Char) : List Char → List Char
  | '0' :: c :: rest => if c = mark then dropZeroMarks mark rest else '0' :: c :: rest
  | text => text

def dropMarks (text : List Char) : List Char :=
  (dropZeroMarks 'X' (dropZeroMarks 'x' text)).dropWhile (· == '$')

/-- Reads digits after a number read so far, stopping at the first that does
not belong or does not fit. -/
def readDigits : List Char → (value : Nat) → Except EntryAddressError Address
  | [], value => .ok (UInt16.ofNat value)
  | c :: rest, value =>
      match digit? c with
      | none => .error .invalidDigit
      | some digit =>
          if 0xFFFF < value * 16 + digit then
            .error .tooLarge
          else
            readDigits rest (value * 16 + digit)

/-- Reads digits after at most one plus sign. -/
def readNumber : List Char → Except EntryAddressError Address
  | [] => .error .empty
  | ['+'] => .error .invalidDigit
  | '+' :: rest => readDigits rest 0
  | text => readDigits text 0

def read (text : String) : Except EntryAddressError Address :=
  readNumber (dropMarks text.toList)

end EntryAddress

end Lift6502
