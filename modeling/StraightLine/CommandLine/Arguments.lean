namespace StraightLine.CommandLine

inductive Tool where
  | compiler | lister
  deriving DecidableEq

structure Arguments where
  input : Option String := none
  directory : Option String := none
  assemblyOnly : Bool := false
  print : Bool := false
  verbosity : Nat := 0
  deriving DecidableEq

-- What is settled before the end of the arguments.
inductive Stop where
  | help | usage
  deriving DecidableEq

namespace Arguments

def setInput (arguments : Arguments) (text : String) : Except Stop Arguments :=
  if text.isEmpty || arguments.input.isSome then .error .usage
  else .ok { arguments with input := some text }

def setDirectory (arguments : Arguments) (text : String) : Except Stop Arguments :=
  if text.isEmpty || arguments.directory.isSome then .error .usage
  else .ok { arguments with directory := some text }

def raise (arguments : Arguments) : Arguments := { arguments with verbosity := arguments.verbosity + 1 }

-- The arguments so far, and whether the last option still waits for its value.
structure Progress where
  arguments : Arguments
  waiting : Bool

def done (arguments : Arguments) : Except Stop Progress := .ok ⟨arguments, false⟩

-- The letters of one argument behind its `-`.
def readShort (tool : Tool) (arguments : Arguments) : List Char → Except Stop Progress
  | [] => arguments.done
  | letter :: rest =>
    if letter = 'v' then readShort tool arguments.raise rest
    else if letter = 'h' then .error .help
    else if letter = 'o' ∧ tool = .compiler then
      match rest with
      | [] => .ok ⟨arguments, true⟩
      | '=' :: value => do (← arguments.setDirectory (String.ofList value)).done
      | value => do (← arguments.setDirectory (String.ofList value)).done
    else .error .usage

def readFlag (tool : Tool) (arguments : Arguments) (name : String) : Except Stop Progress :=
  if name = "verbose" then arguments.raise.done
  else if name = "help" then .error .help
  else if tool = .lister then .error .usage
  else if name = "asm-only" then
    if arguments.assemblyOnly then .error .usage else done { arguments with assemblyOnly := true }
  else if name = "print" then
    if arguments.print then .error .usage else done { arguments with print := true }
  else if name = "out-dir" then .ok ⟨arguments, true⟩
  else .error .usage

-- An argument behind its `--`.
def readLong (tool : Tool) (arguments : Arguments) (text : List Char) : Except Stop Progress :=
  let name := String.ofList (text.takeWhile (· ≠ '='))
  match text.dropWhile (· ≠ '=') with
  | [] => readFlag tool arguments name
  | _ :: value =>
    if name = "out-dir" ∧ tool = .compiler then do
      (← arguments.setDirectory (String.ofList value)).done
    else .error .usage

def readOne (tool : Tool) (arguments : Arguments) (text : String) : Except Stop Progress :=
  match text.toList with
  | '-' :: '-' :: rest => readLong tool arguments rest
  | '-' :: letter :: rest => readShort tool arguments (letter :: rest)
  | _ => do (← arguments.setInput text).done

def looksLikeOption (text : String) : Bool :=
  match text.toList with
  | '-' :: _ :: _ => true
  | _ => false

def readInputs (arguments : Arguments) : List String → Except Stop Arguments
  | [] => .ok arguments
  | text :: rest => do readInputs (← arguments.setInput text) rest

-- The first thing that settles the call wins, so help that is met before an error is given.
def readAll (tool : Tool) (progress : Progress) : List String → Except Stop Arguments
  | [] => if progress.waiting then .error .usage else .ok progress.arguments
  | text :: rest =>
    if progress.waiting then
      if looksLikeOption text then .error .usage
      else do readAll tool ⟨← progress.arguments.setDirectory text, false⟩ rest
    else if text = "--" then readInputs progress.arguments rest
    else do readAll tool (← readOne tool progress.arguments text) rest

end Arguments

structure Call where
  input : String
  directory : String
  assemblyOnly : Bool
  print : Bool
  verbosity : Nat
  deriving DecidableEq

def Call.ofArguments (tool : Tool) (texts : List String) : Except Stop Call := do
  let arguments ← Arguments.readAll tool ⟨{}, false⟩ texts
  match arguments.input with
  | none => .error .usage
  | some input =>
    return ⟨input, arguments.directory.getD "out", arguments.assemblyOnly, arguments.print,
      arguments.verbosity⟩

end StraightLine.CommandLine
