import StraightLine.Build
import StraightLine.CommandLine.Arguments
import StraightLine.Text.Terminal

namespace StraightLine.CommandLine

inductive Ending where
  | usage
  | exit (code : Nat) (output errors : String)
  deriving DecidableEq

def help : Tool → List String
  | .compiler =>
    ["Compiles an expression/assignment program to RISC-V assembly",
     "",
     "Usage: exprc [OPTIONS] <INPUT>",
     "",
     "Arguments:",
     "  <INPUT>  Path to the source file to compile",
     "",
     "Options:",
     "  -o, --out-dir <OUT_DIR>  Directory receiving the dumps and the assembly file [default: out]",
     "      --asm-only           Only write the assembly file",
     "      --print              Also print the assembly to stdout",
     "  -v, --verbose...         Raise the log level (-v debug, -vv trace)",
     "  -h, --help               Print help"]
  | .lister =>
    ["Dumps the token stream and parse events of a source file",
     "",
     "Usage: exprc-frontend [OPTIONS] <INPUT>",
     "",
     "Arguments:",
     "  <INPUT>  Path to the source file to scan and parse",
     "",
     "Options:",
     "  -v, --verbose...  Raise the log level (-v debug, -vv trace)",
     "  -h, --help        Print help"]

def threshold : Nat → Log.Level
  | 0 => .warn
  | 1 => .debug
  | _ => .trace

-- Each entry on a line of its own, free of control sequences.
def logText (verbosity : Nat) (log : List Log.Entry) : String :=
  String.join ((Log.atLeast (some (threshold verbosity)) log).map fun entry =>
    Text.Terminal.plain (entry.terminalLine ++ "\n"))

def numbered (index : Nat) (cause : String) : String :=
  let number := index.repr
  String.ofList (List.replicate (5 - number.length) ' ') ++ number ++ ": " ++ Text.hang "       " cause

def causeLines : List String → List String
  | [] => []
  | [cause] => ["", "Caused by:", "    " ++ Text.hang "    " cause]
  | causes => "" :: "Caused by:" :: causes.zipIdx.map fun (cause, index) => numbered index cause

def failureText (message : String) (causes : List String) : String :=
  Text.unlines (("Error: " ++ message) :: causeLines causes)

variable {m : Type → Type} [Monad m] [FileStore m]

def runCompiler (call : Call) : m Ending := do
  let wanted := !call.assemblyOnly
  let built ← Build.run ⟨call.input, call.directory, wanted, wanted, wanted⟩
  let log := logText call.verbosity built.log
  match built.outcome with
  | .ok compilation => return .exit 0 (if call.print then compilation.assembly else "") log
  | .error error =>
    return .exit 1 "" (log ++ failureText ("failed to compile " ++ call.input) (error.message :: error.causes))

def runLister (call : Call) : m Ending := do
  match ← FileStore.readText call.input with
  | .error fault => return .exit 1 "" (failureText ("failed to read " ++ call.input) [fault.message])
  | .ok text =>
    let analysed := Source.analyse text
    let log := logText call.verbosity analysed.log
    match analysed.outcome with
    | .error error => return .exit 1 "" (log ++ failureText error.message error.causes)
    | .ok source =>
      let lines := source.tokens.map Token.render ++ source.tree.events.map Event.render
      return .exit 0 (Text.unlines lines) log

def run (tool : Tool) (texts : List String) : m Ending :=
  match Call.ofArguments tool texts with
  | .error .usage => return .usage
  | .error .help => return .exit 0 (Text.unlines (help tool)) ""
  | .ok call => match tool with
    | .compiler => runCompiler call
    | .lister => runLister call

end StraightLine.CommandLine
