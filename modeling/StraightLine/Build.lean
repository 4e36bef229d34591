import StraightLine.Compilation
import StraightLine.FileStore
import StraightLine.Text.Lines

namespace StraightLine

inductive BuildError where
  | compile (error : CompileError)
  | file (path : String) (fault : FileFault)
  deriving DecidableEq

namespace BuildError

def message : BuildError → String
  | .compile error => error.message
  | .file path fault => "cannot access " ++ path ++ ": " ++ fault.message

def causes : BuildError → List String
  | .compile error => error.causes
  | .file _ fault => [fault.message]

end BuildError

structure Build where
  input : String
  directory : String
  tokens : Bool := true
  symbols : Bool := true
  code : Bool := true

namespace Build

def listing (wanted : Bool) (name : String) (lines : List String) : List (String × String) :=
  if wanted then [(name, Text.unlines lines)] else []

-- Names and contents, in the order of writing.
def artifacts (build : Build) (compilation : Compilation) : List (String × String) :=
  listing build.tokens "token.txt" (compilation.source.tokens.map Token.render) ++
    listing build.symbols "old_symbol_table.txt" compilation.source.symbols.render ++
    listing build.code "intermediate_code.txt" (Code.render compilation.object.code) ++
    [("assembly_language.asm", compilation.assembly)]

variable {m : Type → Type} [Monad m] [FileStore m]

def writeFile (path text : String) : m (Except BuildError Unit) := do
  return (← FileStore.writeText path text).mapError (.file path)

def writeLines (path : String) (lines : List String) : m (Except BuildError Unit) :=
  writeFile path (Text.unlines lines)

-- The files that were written before a failure stay.
def writeAll : List (String × String) → m (Except BuildError Unit)
  | [] => return .ok ()
  | (path, text) :: rest => do
    match ← writeFile path text with
    | .error error => return .error error
    | .ok () => writeAll rest

def writeArtifacts (build : Build) (compilation : Compilation) : m (Logged BuildError (List String)) := do
  match ← FileStore.makeDirectories build.directory with
  | .error fault => return .fail (.file build.directory fault)
  | .ok () =>
    let files := (build.artifacts compilation).map fun (name, text) => (FilePath.join build.directory name, text)
    match ← writeAll files with
    | .error error => return .fail error
    | .ok () => return ⟨[.wrote files.length build.directory], .ok (files.map Prod.fst)⟩

def run (build : Build) : m (Logged BuildError Compilation) := do
  match ← FileStore.readText build.input with
  | .error fault => return .fail (.file build.input fault)
  | .ok text =>
    let compiled := (compile text).mapError .compile
    match compiled.outcome with
    | .error error => return ⟨compiled.log, .error error⟩
    | .ok compilation =>
      let written ← build.writeArtifacts compilation
      return ⟨compiled.log ++ written.log, written.outcome.map fun _ => compilation⟩

end Build
end StraightLine
