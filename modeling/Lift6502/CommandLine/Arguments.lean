import Lift6502.CommandLine.EntryAddress
import Lift6502.CommandLine.Invocation
import Lift6502.Text.Plain

/-! The arguments of the command. Options that take a value have it attached
(`--entry=C000`, `-oout.ll`) or as the next argument; after `--` every argument
is positional. A value is read when the next argument has been recognised, or
at once if it is attached. -/

namespace Lift6502.CommandLine

/-- Arguments that hold a value. -/
inductive Slot
  | input
  | output
  | entry
  | platform
  | moduleName
  deriving DecidableEq, Repr

/-- Arguments that hold none. -/
inductive Switch
  | listing
  | strict
  | verbose
  | help
  | version
  deriving DecidableEq, Repr

def Slot.text : Slot → String
  | .input => "<INPUT>"
  | .output => "--output <OUTPUT>"
  | .entry => "--entry <ENTRY>"
  | .platform => "--platform <PLATFORM>"
  | .moduleName => "--module-name <MODULE_NAME>"

def Switch.text : Switch → String
  | .listing => "--listing"
  | .strict => "--strict"
  | .verbose => "--verbose..."
  | .help => "--help"
  | .version => "--version"

inductive UsageError
  | unexpectedArgument (text : String)
  | unexpectedValue (value argument : String)
  | missingValue (argument : String)
  | invalidValue (value argument cause : String)
  | repeated (argument : String)
  | missingInput
  deriving DecidableEq, Repr

namespace UsageError

/-- The complaint, in which arguments and their values are set off. -/
def message : UsageError → String
  | .unexpectedArgument text => s!"unexpected argument '{Plain.emphasis text}' found"
  | .unexpectedValue value argument =>
      let value := Plain.emphasis value
      s!"unexpected value '{value}' for '{Plain.emphasis argument}' found; no more were expected"
  | .missingValue argument =>
      s!"a value is required for '{Plain.emphasis argument}' but none was supplied"
  | .invalidValue value argument cause =>
      s!"invalid value '{Plain.emphasis value}' for '{Plain.emphasis argument}': {cause}"
  | .repeated argument =>
      s!"the argument '{Plain.emphasis argument}' cannot be used multiple times"
  | .missingInput => "the following required arguments were not provided:"

/-- What is printed, without any control sequences. -/
def report (error : UsageError) : String :=
  let help := Plain.emphasis "--help"
  Plain.ofText s!"error: {error.message}\n\nFor more information, try '{help}'.\n"

end UsageError

/-- Why there is nothing to run. -/
inductive Stop
  | usage (error : UsageError)
  | help
  | version
  deriving DecidableEq, Repr

/-- An argument that was recognised and whose value is not read yet. -/
structure Pending where
  slot : Slot
  value : Option String
  deriving DecidableEq, Repr

structure Draft where
  pending : Option Pending := none
  input : Option String := none
  output : Option String := none
  entry : Option Address := none
  platform : Option Platform := none
  moduleName : Option String := none
  listing : Bool := false
  strict : Bool := false
  verbosity : Nat := 0
  /-- The one positional argument has been recognised. -/
  positioned : Bool := false
  /-- Only positional arguments follow. -/
  escaped : Bool := false
  deriving DecidableEq, Repr

abbrev Reading := Except Stop

def usage {α : Type} (error : UsageError) : Reading α :=
  .error (.usage error)

namespace Draft

def holds (draft : Draft) : Slot → Bool
  | .input => draft.input.isSome
  | .output => draft.output.isSome
  | .entry => draft.entry.isSome
  | .platform => draft.platform.isSome
  | .moduleName => draft.moduleName.isSome

/-- Reads a value into its slot. A path must not be empty. -/
def fill (draft : Draft) (slot : Slot) (value : String) : Reading Draft :=
  match slot with
  | .input =>
      if value.isEmpty then usage (.missingValue slot.text)
      else .ok { draft with input := some value }
  | .output =>
      if value.isEmpty then usage (.missingValue slot.text)
      else .ok { draft with output := some value }
  | .entry =>
      match EntryAddress.read value with
      | .ok entry => .ok { draft with entry := some entry }
      | .error error =>
          let cause := s!"invalid address '{value}': {error.message}"
          usage (.invalidValue value slot.text cause)
  | .platform =>
      match Platform.ofName value with
      | .ok platform => .ok { draft with platform := some platform }
      | .error unknown => usage (.invalidValue value slot.text unknown.message)
  | .moduleName => .ok { draft with moduleName := some value }

/-- Reads the value of a slot that must have one, and not for a second
time. -/
def accept (draft : Draft) (slot : Slot) (value : Option String) : Reading Draft :=
  match value with
  | none => usage (.missingValue slot.text)
  | some value =>
      if draft.holds slot then usage (.repeated slot.text) else draft.fill slot value

def settle (draft : Draft) : Reading Draft :=
  match draft.pending with
  | none => .ok draft
  | some pending => { draft with pending := none }.accept pending.slot pending.value

def attach (draft : Draft) (slot : Slot) (value : String) : Reading Draft := do
  let draft ← draft.settle
  draft.accept slot (some value)

/-- Recognises a slot whose value may be the next argument. -/
def await (draft : Draft) (slot : Slot) : Reading Draft := do
  let draft ← draft.settle
  return { draft with pending := some { slot, value := none } }

def turnOn (draft : Draft) (switch : Switch) : Reading Draft := do
  let draft ← draft.settle
  match switch with
  | .listing =>
      if draft.listing then usage (.repeated switch.text) else
        return { draft with listing := true }
  | .strict =>
      if draft.strict then usage (.repeated switch.text) else
        return { draft with strict := true }
  | .verbose => return { draft with verbosity := draft.verbosity + 1 }
  | .help => .error .help
  | .version => .error .version

def position (draft : Draft) (text : String) : Reading Draft := do
  if draft.positioned then
    usage (.unexpectedArgument text)
  let draft ← draft.settle
  return { draft with pending := some { slot := .input, value := some text }, positioned := true }

end Draft

def longName? : String → Option (Slot ⊕ Switch)
  | "output" => some (.inl .output)
  | "entry" => some (.inl .entry)
  | "platform" => some (.inl .platform)
  | "module-name" => some (.inl .moduleName)
  | "listing" => some (.inr .listing)
  | "strict" => some (.inr .strict)
  | "verbose" => some (.inr .verbose)
  | "help" => some (.inr .help)
  | "version" => some (.inr .version)
  | _ => none

def shortName? : Char → Option (Slot ⊕ Switch)
  | 'o' => some (.inl .output)
  | 'v' => some (.inr .verbose)
  | 'h' => some (.inr .help)
  | 'V' => some (.inr .version)
  | _ => none

def splitValue (text : List Char) : List Char × Option (List Char) :=
  match text.dropWhile (· != '=') with
  | [] => (text, none)
  | _ :: value => (text.takeWhile (· != '='), some value)

namespace Draft

def readLong (draft : Draft) (text : List Char) : Reading Draft :=
  let (name, value) := splitValue text
  let name := String.ofList name
  match longName? name, value with
  | none, _ => usage (.unexpectedArgument s!"--{name}")
  | some (.inl slot), some value => draft.attach slot (String.ofList value)
  | some (.inl slot), none => draft.await slot
  | some (.inr switch), some value => usage (.unexpectedValue (String.ofList value) switch.text)
  | some (.inr switch), none => draft.turnOn switch

def readShort (draft : Draft) : List Char → Reading Draft
  | [] => .ok draft
  | letter :: rest =>
      match shortName? letter with
      | none => usage (.unexpectedArgument s!"-{letter}")
      | some (.inr switch) => do
          let draft ← draft.turnOn switch
          draft.readShort rest
      | some (.inl slot) =>
          match rest with
          | [] => draft.await slot
          | '=' :: value => draft.attach slot (String.ofList value)
          | value => draft.attach slot (String.ofList value)

/-- Reads an argument that is not a name: the value that is awaited, or the
positional one. -/
def readPlain (draft : Draft) (text : String) : Reading Draft :=
  match draft.pending with
  | some { slot, value := none } => .ok { draft with pending := some { slot, value := some text } }
  | _ => draft.position text

def readArgument (draft : Draft) (text : String) : Reading Draft :=
  if draft.escaped then
    draft.position text
  else
    match text.toList with
    | ['-', '-'] => .ok { draft with escaped := true }
    | '-' :: '-' :: name => draft.readLong name
    | ['-'] => draft.readPlain text
    | '-' :: letters => draft.readShort letters
    | _ => draft.readPlain text

def finish (draft : Draft) : Reading Invocation := do
  let draft ← draft.settle
  match draft.input with
  | none => usage .missingInput
  | some input =>
      let standard : Invocation := { input }
      return {
        input
        output := draft.output
        entry := draft.entry
        platform := draft.platform.getD standard.platform
        listing := draft.listing
        strict := draft.strict
        moduleName := draft.moduleName.getD standard.moduleName
        verbosity := draft.verbosity }

end Draft

def read (arguments : List String) : Reading Invocation := do
  let draft ← arguments.foldlM Draft.readArgument {}
  draft.finish

end Lift6502.CommandLine
