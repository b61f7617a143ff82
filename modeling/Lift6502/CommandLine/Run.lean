import Lift6502.CommandLine.Arguments

/-! One run of the command. -/

namespace Lift6502.CommandLine

def programVersion : String := "0.1.0"

def helpText : String :=
  "6502 static recompiler\n\n" ++
  "Usage: rec6502 [OPTIONS] <INPUT>\n\n" ++
  "Arguments:\n" ++
  "  <INPUT>  Input iNES ROM\n\n" ++
  "Options:\n" ++
  "  -o, --output <OUTPUT>            Output IR file (stdout when omitted)\n" ++
  "      --entry <ENTRY>              Entry point in hex (defaults to the reset vector)\n" ++
  "      --platform <PLATFORM>        Memory model: flat or nes [default: nes]\n" ++
  "      --listing                    " ++
    "Print the disassembly of every reachable function to stderr\n" ++
  "      --strict                     " ++
    "Fail on unsupported opcodes and reads outside PRG ROM\n" ++
  "      --module-name <MODULE_NAME>  Name recorded in the output module [default: rom]\n" ++
  "  -v, --verbose...                 Verbose output (-v debug, -vv trace)\n" ++
  "  -h, --help                       Print help\n" ++
  "  -V, --version                    Print version\n"

def Stop.outcome : Stop → Outcome
  | .usage error => { exitCode := 2, stderr := error.report }
  | .help => { exitCode := 0, stdout := helpText }
  | .version => { exitCode := 0, stdout := s!"{programName} {programVersion}\n" }

def runAmong (arguments : List String) (files : Files) : Outcome × Files :=
  match read arguments with
  | .error stop => (stop.outcome, files)
  | .ok invocation => invocation.runAmong files

end Lift6502.CommandLine
