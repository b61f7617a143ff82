import Lift6502.Conversion
import Lift6502.Files
import Lift6502.Ssa.Printer
import Lift6502.Text.Lines

/-! What the command is asked to do, and how it is done: what is printed, and
the files afterwards. -/

namespace Lift6502.CommandLine

open Ssa

structure Invocation where
  input : String
  output : Option String := none
  entry : Option Address := none
  platform : Platform := .standard
  listing : Bool := false
  strict : Bool := false
  moduleName : String := "rom"
  verbosity : Nat := 0
  deriving DecidableEq, Repr

def programName : String := "rec6502"

/-- Why a run fails, with the activity that failed if it is named. -/
structure Failure where
  context : Option String
  cause : String
  deriving DecidableEq, Repr

namespace Failure

def lines (failure : Failure) : List String :=
  match failure.context with
  | none => [s!"Error: {failure.cause}"]
  | some context => [s!"Error: {context}", "", "Caused by:", s!"    {failure.cause}"]

def ofDecodeError (error : DecodeError) : Failure where
  context := none
  cause := error.message

def ofConversionError (error : ConversionError) : Failure where
  context := some error.context
  cause := error.cause

end Failure

/-! Reporting -/

def logLine (level : Level) (origin message : String) : String :=
  let label := level.text.pushn ' ' (5 - level.text.length)
  s!"[{label} {origin}] {message}"

/-- How far a run has come: the journal, without the events that are reported,
and the lines reported. -/
structure Progress where
  journal : Journal := {}
  lines : Array String := #[]

abbrev Running := EStateM Failure Progress

namespace Running

def print (lines : List String) : Running Unit :=
  modify fun progress => { progress with lines := progress.lines ++ lines }

def info (limit : Level) (message : String) : Running Unit :=
  print (if Level.info.shownAt limit then [logLine .info programName message] else [])

/-- Moves the events of a journal to the lines reported. -/
def absorb (limit : Level) (journal : Journal) (lines : Array String) : Progress where
  journal := journal.withoutEvents
  lines := lines ++ (journal.eventsAt limit).map fun event =>
    logLine event.level event.origin event.message

/-- Goes on with the journal of the run. -/
def session {ε α : Type} (limit : Level) (failure : ε → Failure) (work : Session ε α) :
    Running α := fun progress =>
  match work progress.journal with
  | .ok value journal => .ok value (absorb limit journal progress.lines)
  | .error error journal => .error (failure error) (absorb limit journal progress.lines)

end Running

/-! The run -/

namespace Invocation

def logLevel (invocation : Invocation) : Level :=
  match invocation.verbosity with
  | 0 => .warn
  | 1 => .debug
  | _ => .trace

def readCartridge (invocation : Invocation) (image : Except String (Array Byte)) :
    Running Cartridge :=
  match image with
  | .error cause => throw { context := some s!"Failed to read {invocation.input}", cause }
  | .ok bytes =>
      match Cartridge.read bytes with
      | .error error => throw (.ofConversionError (.cartridge error))
      | .ok cartridge => return cartridge

/-- Prints the listing of every routine, with an empty line after each. -/
def printListings (invocation : Invocation) (decoder : Decoder) (entry : Address) :
    Running Unit := do
  let limit := invocation.logLevel
  let routines ← Running.session limit .ofDecodeError (decoder.routines entry)
  routines.toList.forM fun address => do
    let lines ← Running.session limit .ofDecodeError (decoder.listingLines address)
    Running.print (lines ++ [""])

/-- The text of the module for a cartridge image, or for the reason why there
is none. -/
def work (invocation : Invocation) (image : Except String (Array Byte)) : Running String := do
  let limit := invocation.logLevel
  let cartridge ← invocation.readCartridge image
  let header := cartridge.header
  let base := Hex.word cartridge.program.base
  Running.info limit
    s!"PRG ROM: {header.programSize} bytes at 0x{base}, mapper {header.mapper.toNat}"
  let entry := invocation.entry.getD cartridge.space.resetVector
  let policy : Policy := if invocation.strict then .strict else .lenient
  let decoder : Decoder := { space := cartridge.space, policy }
  if invocation.listing then
    invocation.printListings decoder entry
  let module ← Running.session limit (fun error => .ofConversionError (.lift entry error))
    (decoder.liftProgram invocation.platform entry invocation.moduleName)
  Running.info limit s!"Translated {module.functions.size} functions"
  let unmapped := (← get).journal.unmappedReads.length
  if unmapped ≠ 0 then
    Running.info limit s!"Decoding read {unmapped} unmapped bytes as 0"
  match module.text with
  | .ok text => return text
  | .error fault => throw { context := none, cause := fault.message }

end Invocation

structure Report where
  lines : List String
  result : Except Failure String

def Invocation.report (invocation : Invocation) (image : Except String (Array Byte)) : Report :=
  match invocation.work image {} with
  | .ok text progress => { lines := progress.lines.toList, result := .ok text }
  | .error failure progress => { lines := progress.lines.toList, result := .error failure }

/-! The end -/

/-- What is left when a run has ended, apart from files. -/
structure Outcome where
  exitCode : UInt32
  stdout : String := ""
  stderr : String := ""
  deriving DecidableEq, Repr

namespace Outcome

def failed (lines : List String) (failure : Failure) : Outcome where
  exitCode := 1
  stderr := Lines.join (lines ++ failure.lines)

def print (outcome : Outcome) (text : String) : Stream → Outcome
  | .stdout => { outcome with stdout := outcome.stdout ++ text }
  | .stderr => { outcome with stderr := outcome.stderr ++ text }

end Outcome

/-- Ends a run with its report. `refusal` is the reason why the output file
cannot be written. -/
def Invocation.conclude (invocation : Invocation) (report : Report) (refusal : Option String) :
    Outcome :=
  match report.result with
  | .error failure => .failed report.lines failure
  | .ok text =>
      match invocation.output, refusal with
      | none, _ => { exitCode := 0, stdout := text, stderr := Lines.join report.lines }
      | some _, none => { exitCode := 0, stderr := Lines.join report.lines }
      | some _, some cause =>
          .failed report.lines { context := some "Failed to write output", cause }

/-- Ends a run among files. The output file is written only if there is a
module. -/
def Invocation.deliver (invocation : Invocation) (report : Report) (files : Files) :
    Outcome × Files :=
  match invocation.output, report.result with
  | some path, .ok text =>
      match files.write path text.toUTF8.data with
      | .error error => (invocation.conclude report (some error.message), files)
      | .ok (.stored files) => (invocation.conclude report none, files)
      | .ok (.printed stream) => ((invocation.conclude report none).print text stream, files)
      | .ok .dropped => (invocation.conclude report none, files)
  | _, _ => (invocation.conclude report none, files)

def Invocation.runAmong (invocation : Invocation) (files : Files) : Outcome × Files :=
  let image := (files.read invocation.input).mapError AccessError.message
  invocation.deliver (invocation.report image) files

end Lift6502.CommandLine
