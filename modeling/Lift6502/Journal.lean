import Lift6502.Instruction.Basic
import Std.Data.TreeSet

/-! What is observed while code is decoded and lifted: the unmapped bytes that
were read, and the events in the order they happened. -/

namespace Lift6502

abbrev AddressSet := Std.TreeSet Address

/-- Levels of detail, from the most severe to the finest. -/
inductive Level
  | warn
  | info
  | debug
  | trace
  deriving DecidableEq, Repr

namespace Level

def detail : Level → Nat
  | .warn => 0
  | .info => 1
  | .debug => 2
  | .trace => 3

def text : Level → String
  | .warn => "WARN"
  | .info => "INFO"
  | .debug => "DEBUG"
  | .trace => "TRACE"

/-- Whether a record of this level is shown when `limit` is asked for. -/
def shownAt (level limit : Level) : Bool :=
  level.detail ≤ limit.detail

end Level

inductive Event
  /-- An unsupported opcode was read as a return. -/
  | unknownOpcode (opcode : Byte) (location : Address)
  /-- The first read of an unmapped byte, where the policy asks for a warning. -/
  | unmappedByte (location byte : Address)
  | bodyFound (entry : Address) (instructions : Nat)
  | routinesFound (entry : Address) (routines : Nat)
  | assembled (function : String) (blocks : Nat)
  | lowering (instruction : Instruction)
  deriving DecidableEq, Repr

namespace Event

def level : Event → Level
  | .unknownOpcode .. | .unmappedByte .. => .warn
  | .bodyFound .. | .routinesFound .. | .assembled .. => .debug
  | .lowering _ => .trace

def origin : Event → String
  | .unknownOpcode .. | .unmappedByte .. => "rec6502::disasm"
  | .bodyFound .. => "rec6502::cfg"
  | .routinesFound .. | .assembled .. | .lowering _ => "rec6502::translate"

def message : Event → String
  | .unknownOpcode opcode location =>
      s!"Unknown instruction {Hex.byte opcode} at {Hex.word location}, treating as RTS"
  | .unmappedByte location byte =>
      s!"Instruction at {Hex.word location} reads unmapped byte {Hex.word byte}"
  | .bodyFound entry instructions =>
      s!"Function {Hex.word entry}: {instructions} instructions"
  | .routinesFound entry routines =>
      s!"{routines} reachable functions from {Hex.word entry}"
  | .assembled function blocks => s!"Assembled {function} ({blocks} blocks)"
  | .lowering instruction => s!"  {instruction.text}"

end Event

structure Journal where
  /-- Unmapped bytes read so far. -/
  unmapped : AddressSet := ∅
  events : Array Event := #[]

namespace Journal

def note (journal : Journal) (event : Event) : Journal :=
  { journal with events := journal.events.push event }

def recordUnmapped (journal : Journal) (byte : Address) : Journal :=
  { journal with unmapped := journal.unmapped.insert byte }

/-- The unmapped bytes read so far, in ascending order. -/
def unmappedReads (journal : Journal) : List Address :=
  journal.unmapped.toList

def withoutEvents (journal : Journal) : Journal :=
  { journal with events := #[] }

/-- The events shown when `limit` is asked for. -/
def eventsAt (journal : Journal) (limit : Level) : List Event :=
  journal.events.toList.filter fun event => event.level.shownAt limit

end Journal

/-- Work that keeps a journal and may fail. The journal outlives a failure. -/
abbrev Session (ε : Type) := EStateM ε Journal

namespace Session

def note {ε : Type} (event : Event) : Session ε Unit :=
  modify fun journal => journal.note event

def ofExcept {ε α : Type} : Except ε α → Session ε α
  | .ok value => pure value
  | .error error => throw error

end Session

end Lift6502
