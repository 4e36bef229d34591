import StraightLine.FileStore

namespace StraightLine

namespace Disk

inductive Entry where
  | file (content : ByteArray)
  | directory

abbrev Path := List String

end Disk

-- Every file and directory below the root stands under the list of names that leads to it.
structure Disk where
  entries : List (Disk.Path × Disk.Entry)

namespace Disk

def empty : Disk := ⟨[]⟩

def entry? (disk : Disk) (path : Path) : Option Entry :=
  if path.isEmpty then some .directory
  else (disk.entries.find? fun entry => entry.1 = path).map Prod.snd

def put (disk : Disk) (path : Path) (entry : Entry) : Disk :=
  ⟨disk.entries.filter (fun old => old.1 ≠ path) ++ [(path, entry)]⟩

def holdsDirectory (disk : Disk) (path : Path) : Bool :=
  match disk.entry? path with
  | some .directory => true
  | _ => false

def nameLimit : Nat := 255

def pathLimit : Nat := 4095

-- What stands under a name in a directory, if anything does.
def lookUp (disk : Disk) (directory : Path) (name : String) : Except FileFault (Option Entry) :=
  if nameLimit < name.utf8ByteSize then .error .nameTooLong else .ok (disk.entry? (directory ++ [name]))

-- From one directory to another, name by name.
def walk (disk : Disk) (directory : Path) : List String → Except FileFault Path
  | [] => .ok directory
  | name :: rest =>
    if name = "." then disk.walk directory rest
    else if name = ".." then disk.walk directory.dropLast rest
    else match disk.lookUp directory name with
      | .ok (some .directory) => disk.walk (directory ++ [name]) rest
      | .ok (some (.file _)) => .error .notDirectory
      | .ok none => .error .notFound
      | .error fault => .error fault

-- Where a path leads: to a directory by a last `.` or `..`, or to a name in a directory, which may lack an entry.
inductive Place where
  | directory (path : Path)
  | named (directory : Path) (name : String) (trailingSlash : Bool)

def place (disk : Disk) (text : String) : Except FileFault Place := do
  if text.toList.contains '\x00' then throw .nulInPath
  if pathLimit < text.utf8ByteSize then throw .nameTooLong
  match (FilePath.names text).getLast? with
  | none => if text.isEmpty then .error .notFound else .ok (.directory [])
  | some last =>
    let directory ← disk.walk [] (FilePath.names text).dropLast
    if last = "." then return .directory directory
    else if last = ".." then return .directory directory.dropLast
    else return .named directory last (text.toList.getLast? = some '/')

def read (disk : Disk) (text : String) : Except FileFault ByteArray := do
  match ← disk.place text with
  | .directory _ => .error .isDirectory
  | .named directory name trailingSlash =>
    match ← disk.lookUp directory name with
    | none => .error .notFound
    | some .directory => .error .isDirectory
    | some (.file content) => if trailingSlash then .error .notDirectory else .ok content

-- A trailing slash is refused before the name is looked up.
def write (disk : Disk) (text : String) (content : ByteArray) : Except FileFault Disk := do
  match ← disk.place text with
  | .directory _ => .error .isDirectory
  | .named directory name trailingSlash =>
    if trailingSlash then .error .isDirectory
    else match ← disk.lookUp directory name with
      | some .directory => .error .isDirectory
      | _ => return disk.put (directory ++ [name]) (.file content)

def makeDirectory (disk : Disk) (text : String) : Except FileFault Disk := do
  match ← disk.place text with
  | .directory _ => .error .alreadyExists
  | .named directory name _ =>
    match ← disk.lookUp directory name with
    | some _ => .error .alreadyExists
    | none => return disk.put (directory ++ [name]) .directory

def isDirectory (disk : Disk) (text : String) : Bool :=
  match disk.place text with
  | .ok (.directory _) => true
  | .ok (.named directory name _) => disk.holdsDirectory (directory ++ [name])
  | .error _ => false

-- A change that fails leaves the disk as it was.
def update (change : Disk → Except FileFault Disk) : StateM Disk (Except FileFault Unit) := fun disk =>
  match change disk with
  | .ok changed => (.ok (), changed)
  | .error fault => (.error fault, disk)

def decode (content : ByteArray) : Except FileFault String :=
  match String.fromUTF8? content with
  | some text => .ok text
  | none => .error .notText

instance : FileStore (StateM Disk) where
  readText path := fun disk => (disk.read path >>= decode, disk)
  writeText path text := update fun disk => disk.write path text.toUTF8
  makeDirectory path := update fun disk => disk.makeDirectory path
  isDirectory path := fun disk => (disk.isDirectory path, disk)

def addDirectory (disk : Disk) (text : String) : Disk :=
  ((FileStore.makeDirectories text : StateM Disk (Except FileFault Unit)).run disk).2

-- A file with the directories above it.
def addFile (disk : Disk) (text : String) (content : ByteArray) : Disk :=
  let made := disk.addDirectory (FilePath.ofNames (FilePath.names text).dropLast)
  ((update fun disk => disk.write text content).run made).2

end Disk
end StraightLine
