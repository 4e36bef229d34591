import StraightLine.Code.TempSupply

namespace StraightLine.Code

def fitsAddi (value : Int32) : Bool := decide (-2048 ≤ value.toInt ∧ value.toInt ≤ 2047)

-- An immediate the instruction takes as its right operand.
def takesRight (op : ArithOp) (operand : Operand) : Bool :=
  match op, operand with
  | .add, .imm value => fitsAddi value
  | _, _ => false

namespace Operand

-- The code that brings the operand into a variable, and the operand then.
def load? (operand : Operand) (supply : TempSupply) : Option (List Instr × Operand × TempSupply) :=
  match operand with
  | .var v => some ([], .var v, supply)
  | .imm value => do
    let (temp, supply) ← supply.fresh?
    return ([.mov temp (.imm value)], .var temp, supply)

end Operand

namespace Instr

-- A lone immediate on the left changes sides where the operation allows it.
def orient (op : ArithOp) (left right : Operand) : Operand × Operand :=
  match left, right with
  | .imm a, .var v => if op.commutative then (.var v, .imm a) else (.imm a, .var v)
  | _, _ => (left, right)

def normalize? (instr : Instr) (supply : TempSupply) : Option (List Instr × TempSupply) :=
  match instr with
  | .arith op result left right => do
    let (left, right) := orient op left right
    let (before, left, supply) ← left.load? supply
    let (between, right, supply) ←
      if takesRight op right then some ([], right, supply) else right.load? supply
    return (before ++ between ++ [.arith op result left right], supply)
  | other => some ([other], supply)

end Instr

-- Fails only where the supply of temporaries ends.
def normalizeFrom? (supply : TempSupply) : List Instr → Option (List Instr)
  | [] => some []
  | instr :: rest => do
    let (code, supply) ← instr.normalize? supply
    return code ++ (← normalizeFrom? supply rest)

def normalize? (code : List Instr) : Option (List Instr) := do
  normalizeFrom? (← TempSupply.after? code) code

end StraightLine.Code
