import Lift6502.Decoder
import Lift6502.Text.Lines

/-! Routines: the instructions control reaches from an entry without entering
a callee, the addresses where their blocks start, and the routines that a
program calls. -/

namespace Lift6502

/-- Number of addresses, and so the most that a search can visit. -/
def addressCount : Nat := 65536

def routineName (entry : Address) : String :=
  s!"f_{Hex.word entry}"

namespace Decoder

/-- Depth-first search from the pending addresses. Each of the `unvisited`
steps decodes an address not yet visited, so none is left when they are used
up. -/
def explore (decoder : Decoder) (unvisited : Nat) (pending : List Address)
    (visited : AddressSet) : Session DecodeError AddressSet :=
  match unvisited with
  | 0 => pure visited
  | unvisited + 1 =>
      match pending.dropWhile visited.contains with
      | [] => pure visited
      | address :: rest => do
          let instruction ← decoder.decode address
          decoder.explore unvisited (instruction.successors.reverse ++ rest)
            (visited.insert address)

/-- Addresses of the instructions of the routine at `entry`. -/
def body (decoder : Decoder) (entry : Address) : Session DecodeError AddressSet :=
  decoder.explore addressCount [entry] ∅

/-- Addresses that start a block: the entry, what branches and jumps go to,
and what follows a branch. -/
def leaders (decoder : Decoder) (entry : Address) (body : AddressSet) :
    Session DecodeError AddressSet :=
  body.toList.foldlM (fun found address => do
    let instruction ← decoder.decode address
    return instruction.leaders.foldl (fun found leader => found.insert leader) found)
    {entry}

/-- Adds to `pending` the call targets of a body that are not yet found. -/
def pushCalls (decoder : Decoder) (found : AddressSet) (body : AddressSet)
    (pending : List Address) : Session DecodeError (List Address) :=
  body.toList.foldlM (fun pending address => do
    let instruction ← decoder.decode address
    match instruction.callTarget? with
    | some target => return if found.contains target then pending else target :: pending
    | none => return pending)
    pending

/-- Search over calls. Each of the `unvisited` steps finds a new routine. -/
def exploreCalls (decoder : Decoder) (unvisited : Nat) (pending : List Address)
    (found : AddressSet) : Session DecodeError AddressSet :=
  match unvisited with
  | 0 => pure found
  | unvisited + 1 =>
      match pending.dropWhile found.contains with
      | [] => pure found
      | entry :: rest => do
          let found := found.insert entry
          let body ← decoder.body entry
          Session.note (.bodyFound entry body.size)
          let pending ← decoder.pushCalls found body rest
          decoder.exploreCalls unvisited pending found

/-- Entries of the routines that calls lead to from `entry`. -/
def routines (decoder : Decoder) (entry : Address) : Session DecodeError AddressSet :=
  decoder.exploreCalls addressCount [entry] ∅

/-- The instructions at a set of addresses, in ascending order. -/
def disassemble (decoder : Decoder) (addresses : AddressSet) :
    Session DecodeError (List Instruction) :=
  addresses.toList.mapM decoder.decode

/-- A line of a listing. The first instruction of a block is marked. -/
def listingLine (leaders : AddressSet) (instruction : Instruction) : String :=
  (if leaders.contains instruction.location then "-- " else "   ") ++ instruction.text

def listingLines (decoder : Decoder) (entry : Address) :
    Session DecodeError (List String) := do
  let body ← decoder.body entry
  let leaders ← decoder.leaders entry body
  let instructions ← decoder.disassemble body
  return s!"{routineName entry}:" :: instructions.map (listingLine leaders)

def listing (decoder : Decoder) (entry : Address) : Session DecodeError String := do
  let lines ← decoder.listingLines entry
  return Lines.join lines

end Decoder

end Lift6502
