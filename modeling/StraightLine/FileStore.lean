namespace StraightLine

inductive FileFault where
  | notFound
  | alreadyExists
  | notDirectory
  | isDirectory
  | nameTooLong
  | nulInPath
  | notText
  | other (description : String)
  deriving DecidableEq

def FileFault.message : FileFault → String
  | .notFound => "No such file or directory (os error 2)"
  | .alreadyExists => "File exists (os error 17)"
  | .notDirectory => "Not a directory (os error 20)"
  | .isDirectory => "Is a directory (os error 21)"
  | .nameTooLong => "File name too long (os error 36)"
  | .nulInPath => "file name contained an unexpected NUL byte"
  | .notText => "stream did not contain valid UTF-8"
  | .other description => description

class FileStore (m : Type → Type) where
  readText : String → m (Except FileFault String)
  writeText : String → String → m (Except FileFault Unit)
  makeDirectory : String → m (Except FileFault Unit)
  isDirectory : String → m Bool

namespace FilePath

-- Paths are texts with `/` between their names.
def names (path : String) : List String := (path.splitOn "/").filter fun name => name ≠ ""

def ofNames (names : List String) : String := "/".intercalate names

-- A directory that already ends in a slash gets no second one.
def join (directory name : String) : String :=
  match directory.toList.getLast? with
  | none => name
  | some '/' => directory ++ name
  | some _ => directory ++ "/" ++ name

-- The names above the last one, from the last to the first. A `.` that is not the first name is no name.
def above (path : String) : List String :=
  match names path with
  | [] => []
  | first :: rest => (first :: rest.filter fun name => name ≠ ".").reverse.tail

end FilePath

namespace FileStore

variable {m : Type → Type} [Monad m] [FileStore m]

-- The directory may be there already.
def ensureDirectory (path : String) : m (Except FileFault Unit) := do
  match ← makeDirectory path with
  | .ok () => return .ok ()
  | .error fault => if ← isDirectory path then return .ok () else return .error fault

-- The directory with these names, the last first. Those above it are made only where they are missing, and stay
-- if a later one fails.
def ensureNames : List String → m (Except FileFault Unit)
  | [] => return .ok ()
  | name :: above => do
    let path := FilePath.ofNames (name :: above).reverse
    match ← ensureDirectory path with
    | .error .notFound =>
      match ← ensureNames above with
      | .ok () => ensureDirectory path
      | .error fault => return .error fault
    | settled => return settled

def makeDirectories (path : String) : m (Except FileFault Unit) := do
  if path.isEmpty then return .ok ()
  else match ← ensureDirectory path with
    | .error .notFound =>
      match ← ensureNames (FilePath.above path) with
      | .ok () => ensureDirectory path
      | .error fault => return .error fault
    | settled => return settled

end FileStore
end StraightLine
