import Lift6502.AddressSpace

/-! Trees of files, with paths and the errors of reading and writing. -/

namespace Lift6502

inductive AccessError
  | notFound
  | noDevice
  | notDirectory
  | isDirectory
  | noSpace
  | nameTooLong
  deriving DecidableEq, Repr

namespace AccessError

def code : AccessError → Nat
  | .notFound => 2
  | .noDevice => 6
  | .notDirectory => 20
  | .isDirectory => 21
  | .noSpace => 28
  | .nameTooLong => 36

def text : AccessError → String
  | .notFound => "No such file or directory"
  | .noDevice => "No such device or address"
  | .notDirectory => "Not a directory"
  | .isDirectory => "Is a directory"
  | .noSpace => "No space left on device"
  | .nameTooLong => "File name too long"

def message (error : AccessError) : String :=
  s!"{error.text} (os error {error.code})"

end AccessError

/-! Paths -/

structure Path where
  /-- Starts at the root and not at the working directory. -/
  rooted : Bool
  names : List String
  /-- A slash follows the last name. -/
  closed : Bool
  deriving DecidableEq, Repr

namespace Path

/-- The most bytes in a name. -/
def nameLimit : Nat := 255

/-- The most bytes in a path. -/
def limit : Nat := 4095

/-- Several slashes in a row are one. -/
def ofText (text : String) : Except AccessError Path :=
  if text.isEmpty then
    .error .notFound
  else if limit < text.utf8ByteSize then
    .error .nameTooLong
  else
    .ok {
      rooted := text.toList.head? = some '/'
      names := ((text.toList.splitOn '/').map String.ofList).filter fun name => name ≠ ""
      closed := text.toList.getLast? = some '/' }

end Path

/-- A place in a tree: the names that lead there from the root. -/
abbrev Location := List String

namespace Location

/-- The place that a name stands for in a directory. The root is its own
parent. -/
def child (directory : Location) (name : String) : Except AccessError Location :=
  if name = "." then .ok directory
  else if name = ".." then .ok directory.dropLast
  else if Path.nameLimit < name.utf8ByteSize then .error .nameTooLong
  else .ok (directory ++ [name])

end Location

/-! Trees -/

inductive Stream
  | stdout
  | stderr
  deriving DecidableEq, Repr

inductive Device
  /-- Holds nothing and drops what is written. -/
  | null
  /-- Has no space for anything. -/
  | full
  /-- Cannot be opened. -/
  | absent
  /-- Prints what is written. -/
  | stream (stream : Stream)
  deriving DecidableEq, Repr

inductive Node
  | file (contents : Array Byte)
  | directory
  | device (device : Device)
  deriving DecidableEq, Repr

structure Files where
  /-- The directory at which paths start that are not rooted. -/
  working : Location
  nodes : List (Location × Node)
  deriving DecidableEq, Repr

inductive Delivery
  | stored (files : Files)
  | printed (stream : Stream)
  | dropped
  deriving DecidableEq, Repr

namespace Device

/-- Only the null device can be read to its end. -/
def read : Device → Except AccessError (Array Byte)
  | .null => .ok #[]
  | .full | .absent | .stream _ => .error .noDevice

def write : Device → Except AccessError Delivery
  | .null => .ok .dropped
  | .full => .error .noSpace
  | .absent => .error .noDevice
  | .stream printer => .ok (.printed printer)

end Device

namespace Files

/-- What is at a place. There is always a root. -/
def node? (files : Files) (location : Location) : Option Node :=
  if location = [] then some .directory else files.nodes.lookup location

/-- Puts a file at a place, whatever has been there. -/
def put (files : Files) (location : Location) (contents : Array Byte) : Files :=
  let others := files.nodes.filter fun (other, _) => other ≠ location
  { files with nodes := (location, .file contents) :: others }

def descend (files : Files) (directory : Location) (name : String) :
    Except AccessError Location := do
  let location ← directory.child name
  match files.node? location with
  | some .directory => return location
  | some _ => throw .notDirectory
  | none => throw .notFound

/-- The directory that a path leads to before its last name. -/
def parent (files : Files) (path : Path) : Except AccessError Location :=
  path.names.dropLast.foldlM files.descend (if path.rooted then [] else files.working)

def read (files : Files) (text : String) : Except AccessError (Array Byte) := do
  let path ← Path.ofText text
  let parent ← files.parent path
  match path.names.getLast? with
  | none => throw .isDirectory
  | some name =>
      match files.node? (← parent.child name), path.closed with
      | none, _ => throw .notFound
      | some .directory, _ => throw .isDirectory
      | some _, true => throw .notDirectory
      | some (.file contents), false => return contents
      | some (.device device), false => device.read

/-- Writes a file that need not be there yet. A name with a slash after it is
never one of a file. -/
def write (files : Files) (text : String) (contents : Array Byte) :
    Except AccessError Delivery := do
  let path ← Path.ofText text
  let parent ← files.parent path
  match path.names.getLast? with
  | none => throw .isDirectory
  | some name =>
      if path.closed then
        throw .isDirectory
      let location ← parent.child name
      match files.node? location with
      | some .directory => throw .isDirectory
      | some (.device device) => device.write
      | some (.file _) | none => return .stored (files.put location contents)

end Files

end Lift6502
