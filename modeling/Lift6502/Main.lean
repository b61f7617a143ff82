import Lift6502.CommandLine.Run

/-! The command. -/

namespace Lift6502.CommandLine

/-- The cause of a failed access to a file. -/
def accessCause : IO.Error → String
  | .noFileOrDirectory _ code details | .inappropriateType _ code details
  | .invalidArgument _ code details | .permissionDenied _ code details
  | .resourceExhausted _ code details | .noSuchThing _ code details
  | .resourceBusy code details | .otherError code details =>
      s!"{details} (os error {code})"
  | error => toString error

def readImage (path : String) : IO (Except String (Array Byte)) := do
  try
    IO.FS.withFile path .read fun file => return .ok (← file.readBinToEnd).data
  catch error =>
    return .error (accessCause error)

/-- Writes the text of a module to its file; gives the cause if that fails. -/
def writeModule (invocation : Invocation) (report : Report) : IO (Option String) := do
  match invocation.output, report.result with
  | some path, .ok text =>
      try
        IO.FS.withFile path .write fun file => do
          file.putStr text
          file.flush
        return none
      catch error =>
        return some (accessCause error)
  | _, _ => return none

def runArguments (arguments : List String) : IO Outcome := do
  match read arguments with
  | .error stop => return stop.outcome
  | .ok invocation =>
      let report := invocation.report (← readImage invocation.input)
      let refusal ← writeModule invocation report
      return invocation.conclude report refusal

end Lift6502.CommandLine

def main (arguments : List String) : IO UInt32 := do
  let outcome ← Lift6502.CommandLine.runArguments arguments
  IO.eprint outcome.stderr
  IO.print outcome.stdout
  return outcome.exitCode
