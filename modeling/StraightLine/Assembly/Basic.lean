import StraightLine.Code.Basic

namespace StraightLine.Assembly

abbrev Slot := Fin 7

-- In the order in which free ones are taken.
def slots : List Slot := List.finRange 7

inductive Register where
  | t (slot : Slot)
  | a0
  deriving DecidableEq

inductive Instr where
  | li (target : Register) (value : Int32)
  | mv (target source : Register)
  | addi (target source : Register) (value : Int32)
  | arith (op : ArithOp) (target left right : Register)
  deriving DecidableEq

namespace Register

def name : Register → String
  | .t slot => "t" ++ slot.val.repr
  | .a0 => "a0"

def all : List Register := slots.map .t ++ [.a0]

def ofName? (name : String) : Option Register := all.find? fun register => register.name = name

end Register

namespace Instr

def target : Instr → Register
  | .li target _ | .mv target _ | .addi target _ _ | .arith _ target _ _ => target

def sources : Instr → List Register
  | .li _ _ => []
  | .mv _ source | .addi _ source _ => [source]
  | .arith _ _ left right => [left, right]

def render : Instr → String
  | .li target value => "li " ++ target.name ++ ", " ++ Text.showInt32 value
  | .mv target source => "mv " ++ target.name ++ ", " ++ source.name
  | .addi target source value =>
    "addi " ++ target.name ++ ", " ++ source.name ++ ", " ++ Text.showInt32 value
  | .arith op target left right =>
    op.mnemonic ++ " " ++ target.name ++ ", " ++ left.name ++ ", " ++ right.name

end Instr

def lines (program : List Instr) : List String := program.map Instr.render

-- A text section with one indented line for each of the lines given.
def sectionText (lines : List String) : String :=
  ".text\n" ++ String.join (lines.map fun line => "\t" ++ line ++ "\n")

end StraightLine.Assembly
