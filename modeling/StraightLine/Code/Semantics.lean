import StraightLine.Code.Basic

namespace StraightLine.Code

abbrev Store := Variable → Int32

def Store.set (store : Store) (v : Variable) (value : Int32) : Store :=
  fun other => if other = v then value else store other

def Operand.eval (store : Store) : Operand → Int32
  | .imm value => value
  | .var v => store v

def Instr.exec (store : Store) : Instr → Store
  | .mov result source => store.set result (source.eval store)
  | .arith op result left right => store.set result (op.eval (left.eval store) (right.eval store))
  | .ret _ => store

def Instr.returned (store : Store) : Instr → List Int32
  | .ret value => [value.eval store]
  | _ => []

def exec (store : Store) : List Instr → Store
  | [] => store
  | instr :: rest => exec (instr.exec store) rest

-- A return does not end the run.
def returned (store : Store) : List Instr → List Int32
  | [] => []
  | instr :: rest => instr.returned store ++ returned (instr.exec store) rest

end StraightLine.Code
