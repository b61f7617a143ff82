/-! The registers and condition flags carried through lifted code. -/

namespace Lift6502

/-- Registers that hold a byte: the accumulator and the index registers. -/
inductive ByteRegister
  | a
  | x
  | y
  deriving DecidableEq, Repr

/-- Condition flags: negative, overflow, zero and carry. -/
inductive Flag
  | n
  | v
  | z
  | c
  deriving DecidableEq, Repr

inductive Register
  | byte (register : ByteRegister)
  | flag (flag : Flag)
  deriving DecidableEq, Repr

def ByteRegister.name : ByteRegister → String
  | .a => "A"
  | .x => "X"
  | .y => "Y"

def Flag.name : Flag → String
  | .n => "N"
  | .v => "V"
  | .z => "Z"
  | .c => "C"

namespace Register

/-- All registers in the order of parameters and of the register aggregate. -/
def all : List Register :=
  [.byte .a, .byte .x, .byte .y, .flag .n, .flag .v, .flag .z, .flag .c]

theorem mem_all (register : Register) : register ∈ all := by
  rcases register with holder | condition
  · cases holder <;> decide
  · cases condition <;> decide

def index : Register → Nat
  | .byte .a => 0
  | .byte .x => 1
  | .byte .y => 2
  | .flag .n => 3
  | .flag .v => 4
  | .flag .z => 5
  | .flag .c => 6

def name : Register → String
  | .byte holder => holder.name
  | .flag condition => condition.name

def isFlag : Register → Bool
  | .byte _ => false
  | .flag _ => true

end Register

/-- One thing for each register. -/
structure PerRegister (α : Type) where
  a : α
  x : α
  y : α
  n : α
  v : α
  z : α
  c : α
  deriving DecidableEq, Repr

namespace PerRegister

variable {α : Type}

def get (family : PerRegister α) : Register → α
  | .byte .a => family.a
  | .byte .x => family.x
  | .byte .y => family.y
  | .flag .n => family.n
  | .flag .v => family.v
  | .flag .z => family.z
  | .flag .c => family.c

def set (family : PerRegister α) (register : Register) (item : α) : PerRegister α :=
  match register with
  | .byte .a => { family with a := item }
  | .byte .x => { family with x := item }
  | .byte .y => { family with y := item }
  | .flag .n => { family with n := item }
  | .flag .v => { family with v := item }
  | .flag .z => { family with z := item }
  | .flag .c => { family with c := item }

def ofFn (item : Register → α) : PerRegister α :=
  ⟨item (.byte .a), item (.byte .x), item (.byte .y),
    item (.flag .n), item (.flag .v), item (.flag .z), item (.flag .c)⟩

/-- Runs one action for each register, in order. -/
def ofFnM {m : Type → Type} [Monad m] (action : Register → m α) : m (PerRegister α) := do
  let a ← action (.byte .a)
  let x ← action (.byte .x)
  let y ← action (.byte .y)
  let n ← action (.flag .n)
  let v ← action (.flag .v)
  let z ← action (.flag .z)
  let c ← action (.flag .c)
  return ⟨a, x, y, n, v, z, c⟩

def toList (family : PerRegister α) : List α :=
  [family.a, family.x, family.y, family.n, family.v, family.z, family.c]

@[simp] theorem get_ofFn (item : Register → α) (register : Register) :
    (ofFn item).get register = item register := by
  rcases register with holder | condition
  · cases holder <;> rfl
  · cases condition <;> rfl

@[simp] theorem get_set_self (family : PerRegister α) (register : Register) (item : α) :
    (family.set register item).get register = item := by
  rcases register with holder | condition
  · cases holder <;> rfl
  · cases condition <;> rfl

theorem get_set_ne (family : PerRegister α) {changed other : Register} (item : α)
    (hne : other ≠ changed) :
    (family.set changed item).get other = family.get other := by
  rcases changed with changed | changed <;> rcases other with other | other <;>
    cases changed <;> cases other <;> simp_all [set, get]

theorem toList_eq_map_all (family : PerRegister α) :
    family.toList = Register.all.map family.get := rfl

end PerRegister

end Lift6502
