namespace StraightLine.Text

def isDigits (cs : List Char) : Bool := !cs.isEmpty && cs.all Char.isDigit

def digitsValue (cs : List Char) : Nat :=
  cs.foldl (fun n c => 10 * n + (c.toNat - '0'.toNat)) 0

def readNat? (cs : List Char) : Option Nat :=
  if isDigits cs then some (digitsValue cs) else none

def readInt? : List Char → Option Int
  | '-' :: cs => (readNat? cs).map fun n => -(n : Int)
  | '+' :: cs => (readNat? cs).map fun n => (n : Int)
  | cs => (readNat? cs).map fun n => (n : Int)

def fitsInt32 (i : Int) : Bool := decide (-2147483648 ≤ i ∧ i ≤ 2147483647)

-- Exactly the numerals of signed 32-bit words.
def readInt32? (text : String) : Option Int32 :=
  match readInt? text.toList with
  | some i => if fitsInt32 i then some (Int32.ofInt i) else none
  | none => none

def showInt : Int → String
  | .ofNat n => n.repr
  | .negSucc n => "-" ++ (n + 1).repr

def showInt32 (i : Int32) : String := showInt i.toInt

end StraightLine.Text
