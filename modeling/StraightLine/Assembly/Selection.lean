import StraightLine.Assembly.RegisterFile
import StraightLine.Code.Normal
import StraightLine.Log

namespace StraightLine.Assembly

open Code (Variable Operand)

inductive LowerError where
  | registerExhausted (v : Variable)
  | illShapedOperand (instr : Code.Instr) (operand : Operand)
  | temporariesExhausted
  deriving DecidableEq

def LowerError.message : LowerError → String
  | .registerExhausted v =>
    "no register left for `" ++ v.render ++ "`: every register holds a live variable"
  | .illShapedOperand instr operand =>
    "operand `" ++ operand.render ++ "` of `" ++ instr.render ++ "` must be a variable"
  | .temporariesExhausted => "no number left for a fresh temporary"

def Placement.log (v : Variable) : Placement → List Log.Entry
  | .held _ => []
  | .free slot => [.bound v slot]
  | .evicting old slot => [.evicted old slot, .bound v slot]

def RegisterFile.acquire (file : RegisterFile) (v : Variable) (evictable : Variable → Bool) :
    Logged LowerError (Slot × RegisterFile) :=
  match file.placement? v evictable with
  | none => .fail (.registerExhausted v)
  | some placement => ⟨placement.log v, .ok (placement.slot, file.place v placement)⟩

def readIn (code : List Code.Instr) (v : Variable) : Bool := code.any fun instr => decide (v ∈ instr.reads)

-- A temporary may be evicted once nothing that is still to be read needs it.
def sourceRegister (instr : Code.Instr) (rest : List Code.Instr) (file : RegisterFile) (operand : Operand) :
    Logged LowerError (Slot × RegisterFile) :=
  match operand with
  | .var v => file.acquire v fun held => !readIn (instr :: rest) held
  | .imm _ => .fail (.illShapedOperand instr operand)

def resultRegister (rest : List Code.Instr) (file : RegisterFile) (result : Variable) :
    Logged LowerError (Slot × RegisterFile) :=
  file.acquire result fun held => !readIn rest held

def select (file : RegisterFile) (instr : Code.Instr) (rest : List Code.Instr) :
    Logged LowerError (Instr × RegisterFile) :=
  match instr with
  | .mov result (.imm value) => do
    let (target, file) ← resultRegister rest file result
    return (.li (.t target) value, file)
  | .mov result (.var v) => do
    let (source, file) ← sourceRegister instr rest file (.var v)
    let (target, file) ← resultRegister rest file result
    return (.mv (.t target) (.t source), file)
  | .arith .add result left (.imm value) => do
    let (source, file) ← sourceRegister instr rest file left
    let (target, file) ← resultRegister rest file result
    return (.addi (.t target) (.t source) value, file)
  | .arith op result left right => do
    let (first, file) ← sourceRegister instr rest file left
    let (second, file) ← sourceRegister instr rest file right
    let (target, file) ← resultRegister rest file result
    return (.arith op (.t target) (.t first) (.t second), file)
  | .ret (.imm value) => return (.li .a0 value, file)
  | .ret (.var v) => do
    let (source, file) ← sourceRegister instr rest file (.var v)
    return (.mv .a0 (.t source), file)

def selectAll (file : RegisterFile) : List Code.Instr → Logged LowerError (List Instr)
  | [] => return []
  | instr :: rest => do
    let (selection, file) ← select file instr rest
    Logged.record [.selected instr selection]
    let others ← selectAll file rest
    return selection :: others

def normalize (code : List Code.Instr) : Logged LowerError (List Code.Instr) :=
  match Code.normalize? code with
  | none => .fail .temporariesExhausted
  | some normal => ⟨[.normalized code.length normal.length], .ok normal⟩

def lower (code : List Code.Instr) : Logged LowerError (List Instr) := do
  let normal ← normalize code
  let program ← selectAll .empty normal
  Logged.record [.lowered code.length program.length]
  return program

end StraightLine.Assembly
