import StraightLine.Code.Basic
import StraightLine.ParseTree

namespace StraightLine.ParseTree

abbrev Names := String → Int32

def Names.set (names : Names) (name : String) (value : Int32) : Names :=
  fun other => if other = name then value else names other

-- The value of an expression, a term or a factor.
def value (names : Names) : ParseTree → Int32
  | .node .add [left, _, right] => left.value names + right.value names
  | .node .sub [left, _, right] => left.value names - right.value names
  | .node .mul [left, _, right] => left.value names * right.value names
  | .node .exprTerm [term] => term.value names
  | .node .termFactor [factor] => factor.value names
  | .node .paren [_, inner, _] => inner.value names
  | .node .ident [.leaf name] => names name.text
  | .node .intConst [.leaf literal] => Int32.ofNat (Text.digitsValue literal.text.toList)
  | _ => 0

-- The names an expression, a term or a factor reads.
def reads : ParseTree → List String
  | .node .add [left, _, right] | .node .sub [left, _, right] | .node .mul [left, _, right] =>
    left.reads ++ right.reads
  | .node .exprTerm [inner] | .node .termFactor [inner] | .node .paren [_, inner, _] => inner.reads
  | .node .ident [.leaf name] => [name.text]
  | _ => []

def statements : ParseTree → List ParseTree
  | .node .program [list] => list.statements
  | .node .stmtListCons [statement, _, rest] => statement :: rest.statements
  | .node .stmtListLast [statement, _] => [statement]
  | _ => []

namespace Statement

def exec (names : Names) : ParseTree → Names
  | .node .assign [.leaf target, _, source] => names.set target.text (source.value names)
  | _ => names

def returned (names : Names) : ParseTree → List Int32
  | .node .ret [_, source] => [source.value names]
  | _ => []

def reads : ParseTree → List String
  | .node .assign [_, _, source] => source.reads
  | .node .ret [_, source] => source.reads
  | _ => []

def assigned : ParseTree → List String
  | .node .assign [.leaf target, _, _] => [target.text]
  | _ => []

end Statement

-- Declarations do nothing, and a return does not end the run.
def returnedBy (names : Names) : List ParseTree → List Int32
  | [] => []
  | statement :: rest =>
    Statement.returned names statement ++ returnedBy (Statement.exec names statement) rest

-- No statement reads a name that neither stands in `known` nor was assigned before it.
def AssignedFirst (known : List String) : List ParseTree → Prop
  | [] => True
  | statement :: rest =>
    (∀ name ∈ Statement.reads statement, name ∈ known) ∧
      AssignedFirst (Statement.assigned statement ++ known) rest

end StraightLine.ParseTree
