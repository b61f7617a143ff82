/-! Hexadecimal text of fixed width, in upper case. -/

namespace Lift6502.Hex

def digit (value : Nat) : Char :=
  if value < 10 then Char.ofNat (0x30 + value) else Char.ofNat (0x37 + value)

/-- The low `width` digits of a number, the highest first. -/
def digits : (width : Nat) → (value : Nat) → List Char
  | 0, _ => []
  | width + 1, value => digits width (value / 16) ++ [digit (value % 16)]

@[simp] theorem length_digits (width value : Nat) :
    (digits width value).length = width := by
  induction width generalizing value with
  | zero => rfl
  | succ width ih => simp [digits, ih]

def byte (value : UInt8) : String :=
  String.ofList (digits 2 value.toNat)

def word (value : UInt16) : String :=
  String.ofList (digits 4 value.toNat)

end Lift6502.Hex
