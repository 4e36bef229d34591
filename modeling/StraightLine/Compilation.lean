import StraightLine.Assembly.Selection
import StraightLine.Code.Generator
import StraightLine.Source

namespace StraightLine

inductive ObjectError where
  | generate (error : Code.GenerateError)
  | lower (error : Assembly.LowerError)
  deriving DecidableEq

namespace ObjectError

def cause : ObjectError → String
  | .generate error => error.message
  | .lower error => error.message

def message : ObjectError → String
  | .generate error => "IR generation failed: " ++ error.message
  | .lower error => "code generation failed: " ++ error.message

end ObjectError

structure Object where
  code : List Code.Instr
  program : List Assembly.Instr
  deriving DecidableEq

namespace Object

def lines (object : Object) : List String := Assembly.lines object.program

def ofEvents (symbols : SymbolTable) (events : List Event) : Logged ObjectError Object := do
  let code ← (Code.ofEvents symbols events).mapError .generate
  let program ← (Assembly.lower code).mapError .lower
  return ⟨code, program⟩

end Object

inductive CompileError where
  | source (error : SourceError)
  | object (error : ObjectError)
  deriving DecidableEq

namespace CompileError

def message : CompileError → String
  | .source error => error.message
  | .object error => error.message

def causes : CompileError → List String
  | .source error => error.causes
  | .object error => [error.cause]

end CompileError

structure Compilation where
  source : Source
  object : Object

namespace Compilation

def assembly (compilation : Compilation) : String := Assembly.sectionText compilation.object.lines

end Compilation

def compile (text : String) : Logged CompileError Compilation := do
  let source ← (Source.analyse text).mapError .source
  let object ← (Object.ofEvents source.symbols source.tree.events).mapError .object
  return ⟨source, object⟩

end StraightLine
