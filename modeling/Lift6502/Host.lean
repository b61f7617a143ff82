import Lift6502.AddressSpace

/-! What the data accesses of running code act on. -/

namespace Lift6502

/-- A store of bytes by address. Reading may change its state. -/
structure Host (σ : Type) where
  read : Address → σ → Byte × σ
  write : Address → Byte → σ → σ

abbrev Ram := Address → Byte

def Ram.set (ram : Ram) (address : Address) (value : Byte) : Ram :=
  fun other => if other = address then value else ram other

namespace Host

/-- Memory in which every address is a byte of its own. -/
def ram : Host Ram where
  read address ram := (ram address, ram)
  write address value ram := ram.set address value

variable {σ : Type}

/-- Accesses that fail where an operand does not name what is asked for. -/
abbrev Access (σ : Type) := StateT σ Option

def load (host : Host σ) (address : Address) : Access σ Byte := fun state =>
  some (host.read address state)

def store (host : Host σ) (address : Address) (value : Byte) : Access σ Unit := fun state =>
  some ((), host.write address value state)

end Host

end Lift6502
