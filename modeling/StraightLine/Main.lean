import StraightLine.CommandLine

namespace StraightLine

def FileFault.ofSystem (error : IO.Error) : FileFault :=
  match error with
  | .noFileOrDirectory _ _ _ => .notFound
  | .alreadyExists _ _ _ => .alreadyExists
  | .inappropriateType _ 20 _ => .notDirectory
  | .inappropriateType _ 21 _ => .isDirectory
  | .invalidArgument _ 36 _ => .nameTooLong
  | rest => .other (toString rest)

def guarded {α : Type} (path : String) (action : IO α) : IO (Except FileFault α) := do
  if path.toList.contains '\x00' then return .error .nulInPath
  match ← action.toBaseIO with
  | .ok value => return .ok value
  | .error error => return .error (.ofSystem error)

instance : FileStore IO where
  readText path := do
    match ← guarded path (IO.FS.withFile path .read fun handle => handle.readBinToEnd) with
    | .error fault => return .error fault
    | .ok content => match String.fromUTF8? content with
      | some text => return .ok text
      | none => return .error .notText
  writeText path text := guarded path (IO.FS.writeFile path text)
  makeDirectory path := guarded path (IO.FS.createDir path)
  isDirectory path := do ((← IO.currentDir) / path).isDir

def toolOfName (name : Option String) : CommandLine.Tool :=
  if name = some "exprc-frontend" then .lister else .compiler

end StraightLine

open StraightLine in
def main (arguments : List String) : IO UInt32 := do
  match ← CommandLine.run (toolOfName (← IO.appPath).fileName) arguments with
  | .usage =>
    IO.eprintln "error: the arguments do not fit; try --help"
    return 2
  | .exit code output errors =>
    IO.print output
    IO.eprint errors
    return code.toUInt32
