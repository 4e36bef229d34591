import StraightLine.Assembly.Basic

namespace StraightLine.Assembly

abbrev Registers := Register → Int32

def Registers.set (registers : Registers) (target : Register) (value : Int32) : Registers :=
  fun other => if other = target then value else registers other

def Instr.value (registers : Registers) : Instr → Int32
  | .li _ value => value
  | .mv _ source => registers source
  | .addi _ source value => registers source + value
  | .arith op _ left right => op.eval (registers left) (registers right)

-- The sources are read before the target is written.
def Instr.exec (registers : Registers) (instr : Instr) : Registers :=
  registers.set instr.target (instr.value registers)

def Instr.returned (registers : Registers) (instr : Instr) : List Int32 :=
  if instr.target = .a0 then [instr.value registers] else []

def exec (registers : Registers) : List Instr → Registers
  | [] => registers
  | instr :: rest => exec (instr.exec registers) rest

def returned (registers : Registers) : List Instr → List Int32
  | [] => []
  | instr :: rest => instr.returned registers ++ returned (instr.exec registers) rest

end StraightLine.Assembly
