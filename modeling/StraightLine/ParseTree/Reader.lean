import StraightLine.ParseTree

namespace StraightLine

inductive ParseError where
  | unexpected (token : Token) (position : Nat) (expected : List Token.Kind)
  | endOfInput (position : Nat) (expected : List Token.Kind)
  deriving DecidableEq

namespace ParseError

def listing : List Token.Kind → String
  | [] => ""
  | [kind] => "\"" ++ kind.name ++ "\""
  | [first, last] => "\"" ++ first.name ++ "\" or \"" ++ last.name ++ "\""
  | kind :: rest => "\"" ++ kind.name ++ "\", " ++ listing rest

def message : ParseError → String
  | .unexpected token position expected =>
    "Unrecognized token `" ++ token.render ++ "` found at " ++ position.repr ++ ":" ++
      (position + 1).repr ++ "\nExpected one of " ++ listing expected
  | .endOfInput position expected =>
    "Unrecognized EOF found at " ++ position.repr ++ "\nExpected one of " ++ listing expected

end ParseError

namespace ParseTree

-- What stands left of the next operand inside one pair of parentheses: `E +` or `E -`, then `A *`.
structure Pending where
  sum : Option (Rule × ParseTree × Token) := none
  product : Option (ParseTree × Token) := none

namespace Pending

def term (pending : Pending) (factor : ParseTree) : ParseTree :=
  match pending.product with
  | none => .node .termFactor [factor]
  | some (left, star) => .node .mul [left, .leaf star, factor]

def expr (pending : Pending) (factor : ParseTree) : ParseTree :=
  match pending.sum with
  | none => .node .exprTerm [pending.term factor]
  | some (rule, left, operator) => .node rule [left, .leaf operator, pending.term factor]

end Pending

-- What the expression being read belongs to.
inductive Enclosing where
  | assign (target equals : Token)
  | ret (keyword : Token)
  | group (paren : Token) (pending : Pending) (outer : Enclosing)

-- The hole where the next token goes; it alone says which tokens may follow.
inductive Position where
  | statement
  | declaration (type : Token)
  | declared (statement : ParseTree)
  | target (name : Token)
  | operand (enclosing : Enclosing) (pending : Pending)
  | operator (enclosing : Enclosing) (pending : Pending) (factor : ParseTree)

-- Finished statements stand with their semicolons, the newest first.
structure Reader where
  finished : List (ParseTree × Token) := []
  position : Position := .statement

namespace Reader

def finish (reader : Reader) (statement : ParseTree) (semicolon : Token) : Reader :=
  ⟨(statement, semicolon) :: reader.finished, .statement⟩

def moveTo (reader : Reader) (position : Position) : Reader := { reader with position := position }

def step (reader : Reader) (token : Token) : Option Reader :=
  match reader.position, token.kind with
  | .statement, .int => some (reader.moveTo (.declaration token))
  | .statement, .ret => some (reader.moveTo (.operand (.ret token) {}))
  | .statement, .ident => some (reader.moveTo (.target token))
  | .declaration type, .ident =>
    some (reader.moveTo (.declared (.node .declare [.node .intType [.leaf type], .leaf token])))
  | .declared statement, .semicolon => some (reader.finish statement token)
  | .target name, .assign => some (reader.moveTo (.operand (.assign name token) {}))
  | .operand enclosing pending, .lparen =>
    some (reader.moveTo (.operand (.group token pending enclosing) {}))
  | .operand enclosing pending, .ident =>
    some (reader.moveTo (.operator enclosing pending (.node .ident [.leaf token])))
  | .operand enclosing pending, .intConst =>
    some (reader.moveTo (.operator enclosing pending (.node .intConst [.leaf token])))
  | .operator enclosing pending factor, .star =>
    some (reader.moveTo
      (.operand enclosing { pending with product := some (pending.term factor, token) }))
  | .operator enclosing pending factor, .plus =>
    some (reader.moveTo (.operand enclosing ⟨some (.add, pending.expr factor, token), none⟩))
  | .operator enclosing pending factor, .minus =>
    some (reader.moveTo (.operand enclosing ⟨some (.sub, pending.expr factor, token), none⟩))
  | .operator (.group paren outside outer) pending factor, .rparen =>
    some (reader.moveTo
      (.operator outer outside (.node .paren [.leaf paren, pending.expr factor, .leaf token])))
  | .operator (.assign target equals) pending factor, .semicolon =>
    some (reader.finish (.node .assign [.leaf target, .leaf equals, pending.expr factor]) token)
  | .operator (.ret keyword) pending factor, .semicolon =>
    some (reader.finish (.node .ret [.leaf keyword, pending.expr factor]) token)
  | _, _ => none

-- A parenthesis or semicolon that closes what is not open first completes the expression, and a
-- complete expression takes no `*`.
def expected (reader : Reader) (offender : Option Token.Kind) : List Token.Kind :=
  match reader.position with
  | .statement => [.int, .ret, .ident]
  | .declaration _ => [.ident]
  | .declared _ => [.semicolon]
  | .target _ => [.assign]
  | .operand _ _ => [.lparen, .ident, .intConst]
  | .operator (.group _ _ _) _ _ =>
    if offender = some .semicolon then [.plus, .minus, .rparen] else [.plus, .minus, .star, .rparen]
  | .operator _ _ _ =>
    if offender = some .rparen then [.plus, .minus, .semicolon]
    else [.plus, .minus, .star, .semicolon]

def statements : List (ParseTree × Token) → Option ParseTree
  | [] => none
  | (last, semicolon) :: earlier =>
    some (earlier.foldl
      (fun list (statement, semicolon) => .node .stmtListCons [statement, .leaf semicolon, list])
      (.node .stmtListLast [last, .leaf semicolon]))

def program? (reader : Reader) : Option ParseTree :=
  match reader.position with
  | .statement => (statements reader.finished).map fun list => .node .program [list]
  | _ => none

def run (reader : Reader) (position : Nat) : List Token → Except ParseError ParseTree
  | [] =>
    match reader.program? with
    | some tree => .ok tree
    | none => .error (.endOfInput position (reader.expected none))
  | token :: rest =>
    match reader.step token with
    | some next => next.run (position + 1) rest
    | none => .error (.unexpected token position (reader.expected (some token.kind)))

end Reader

-- Tokens behind the end marker are not read.
def ofTokens (tokens : List Token) : Except ParseError ParseTree :=
  Reader.run {} 0 (tokens.takeWhile fun token => token.kind ≠ .eof)

end ParseTree
end StraightLine
