import StraightLine.Code.Basic

namespace StraightLine.Code

structure TempSupply where
  next : Nat
  deriving DecidableEq

-- The first number that is no 64-bit count: two to the power of 64.
def countLimit : Nat := 18446744073709551616

def Variable.bound : Variable → Nat
  | .temp number => number + 1
  | .named _ => 0

-- The least number above every temporary of the code.
def firstUnused (code : List Instr) : Nat :=
  (code.flatMap Instr.mentioned).foldl (fun most v => max most v.bound) 0

namespace TempSupply

def after? (code : List Instr) : Option TempSupply :=
  if firstUnused code < countLimit then some ⟨firstUnused code⟩ else none

def fresh? (supply : TempSupply) : Option (Variable × TempSupply) :=
  if supply.next + 1 < countLimit then some (.temp supply.next, ⟨supply.next + 1⟩) else none

def take? (supply : TempSupply) : Nat → Option (List Variable)
  | 0 => some []
  | count + 1 => do
    let (first, rest) ← supply.fresh?
    return first :: (← rest.take? count)

end TempSupply
end StraightLine.Code
