import StraightLine.Text.Decimal

namespace StraightLine

inductive ArithOp where
  | add | sub | mul
  deriving DecidableEq

namespace ArithOp

def commutative : ArithOp → Bool
  | .add | .mul => true
  | .sub => false

def eval : ArithOp → Int32 → Int32 → Int32
  | .add, a, b => a + b
  | .sub, a, b => a - b
  | .mul, a, b => a * b

def name : ArithOp → String
  | .add => "ADD"
  | .sub => "SUB"
  | .mul => "MUL"

def mnemonic : ArithOp → String
  | .add => "add"
  | .sub => "sub"
  | .mul => "mul"

end ArithOp

namespace Code

inductive Variable where
  | named (name : String)
  | temp (number : Nat)
  deriving DecidableEq

inductive Operand where
  | imm (value : Int32)
  | var (name : Variable)
  deriving DecidableEq

inductive Instr where
  | mov (result : Variable) (source : Operand)
  | arith (op : ArithOp) (result : Variable) (left right : Operand)
  | ret (value : Operand)
  deriving DecidableEq

namespace Variable

def isTemp : Variable → Bool
  | .temp _ => true
  | .named _ => false

def render : Variable → String
  | .named name => name
  | .temp number => "$" ++ number.repr

end Variable

namespace Operand

def isImm : Operand → Bool
  | .imm _ => true
  | .var _ => false

def asVar? : Operand → Option Variable
  | .var v => some v
  | .imm _ => none

def render : Operand → String
  | .imm value => Text.showInt32 value
  | .var v => v.render

end Operand

namespace Instr

def result? : Instr → Option Variable
  | .mov result _ | .arith _ result _ _ => some result
  | .ret _ => none

def sources : Instr → List Operand
  | .mov _ source => [source]
  | .arith _ _ left right => [left, right]
  | .ret value => [value]

def reads (instr : Instr) : List Variable := instr.sources.filterMap Operand.asVar?

def mentioned (instr : Instr) : List Variable := instr.result?.toList ++ instr.reads

def render : Instr → String
  | .mov result source => "(MOV, " ++ result.render ++ ", " ++ source.render ++ ")"
  | .arith op result left right =>
    "(" ++ op.name ++ ", " ++ result.render ++ ", " ++ left.render ++ ", " ++ right.render ++ ")"
  | .ret value => "(RET, " ++ value.render ++ ")"

end Instr

def render (code : List Instr) : List String := code.map Instr.render

end Code
end StraightLine
