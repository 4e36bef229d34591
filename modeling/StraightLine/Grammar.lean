import StraightLine.Token

namespace StraightLine

inductive Nonterminal where
  | start | program | stmtList | stmt | decl | expr | term | factor
  deriving DecidableEq

namespace Nonterminal

def all : List Nonterminal := [.start, .program, .stmtList, .stmt, .decl, .expr, .term, .factor]

def name : Nonterminal → String
  | .start => "P'"
  | .program => "P"
  | .stmtList => "S_list"
  | .stmt => "S"
  | .decl => "D"
  | .expr => "E"
  | .term => "A"
  | .factor => "B"

-- The name in the listing of parse events.
def label : Nonterminal → String
  | .start => "Start"
  | .program => "Program"
  | .stmtList => "StmtList"
  | .stmt => "Stmt"
  | .decl => "Decl"
  | .expr => "Expr"
  | .term => "Term"
  | .factor => "Factor"

def ofName? (name : String) : Option Nonterminal := all.find? fun head => head.name = name

end Nonterminal

inductive GrammarSymbol where
  | terminal (kind : Token.Kind)
  | nonterminal (head : Nonterminal)
  deriving DecidableEq

--    0  P'     -> P                    8  E -> E + A
--    1  P      -> S_list               9  E -> E - A
--    2  S_list -> S Semicolon S_list   10 E -> A
--    3  S_list -> S Semicolon          11 A -> A * B
--    4  S      -> D id                 12 A -> B
--    5  D      -> int                  13 B -> ( E )
--    6  S      -> id = E               14 B -> id
--    7  S      -> return E             15 B -> IntConst
inductive Rule where
  | start | program | stmtListCons | stmtListLast | declare | intType | assign | ret
  | add | sub | exprTerm | mul | termFactor | paren | ident | intConst
  deriving DecidableEq

-- A production as a parse event reports it. Nothing ties the three numbers to a rule.
structure Production where
  index : Nat
  head : Nonterminal
  bodyLength : Nat
  deriving DecidableEq

namespace Rule

def all : List Rule :=
  [.start, .program, .stmtListCons, .stmtListLast, .declare, .intType, .assign, .ret,
   .add, .sub, .exprTerm, .mul, .termFactor, .paren, .ident, .intConst]

def index : Rule → Nat
  | .start => 0
  | .program => 1
  | .stmtListCons => 2
  | .stmtListLast => 3
  | .declare => 4
  | .intType => 5
  | .assign => 6
  | .ret => 7
  | .add => 8
  | .sub => 9
  | .exprTerm => 10
  | .mul => 11
  | .termFactor => 12
  | .paren => 13
  | .ident => 14
  | .intConst => 15

def ofIndex? (index : Nat) : Option Rule := all[index]?

def label : Rule → String
  | .start => "Start"
  | .program => "Program"
  | .stmtListCons => "StmtListCons"
  | .stmtListLast => "StmtListLast"
  | .declare => "Declare"
  | .intType => "IntType"
  | .assign => "Assign"
  | .ret => "Return"
  | .add => "Add"
  | .sub => "Sub"
  | .exprTerm => "ExprTerm"
  | .mul => "Mul"
  | .termFactor => "TermFactor"
  | .paren => "Paren"
  | .ident => "Ident"
  | .intConst => "IntConst"

def head : Rule → Nonterminal
  | .start => .start
  | .program => .program
  | .stmtListCons | .stmtListLast => .stmtList
  | .declare | .assign | .ret => .stmt
  | .intType => .decl
  | .add | .sub | .exprTerm => .expr
  | .mul | .termFactor => .term
  | .paren | .ident | .intConst => .factor

def body : Rule → List GrammarSymbol
  | .start => [.nonterminal .program]
  | .program => [.nonterminal .stmtList]
  | .stmtListCons => [.nonterminal .stmt, .terminal .semicolon, .nonterminal .stmtList]
  | .stmtListLast => [.nonterminal .stmt, .terminal .semicolon]
  | .declare => [.nonterminal .decl, .terminal .ident]
  | .intType => [.terminal .int]
  | .assign => [.terminal .ident, .terminal .assign, .nonterminal .expr]
  | .ret => [.terminal .ret, .nonterminal .expr]
  | .add => [.nonterminal .expr, .terminal .plus, .nonterminal .term]
  | .sub => [.nonterminal .expr, .terminal .minus, .nonterminal .term]
  | .exprTerm => [.nonterminal .term]
  | .mul => [.nonterminal .term, .terminal .star, .nonterminal .factor]
  | .termFactor => [.nonterminal .factor]
  | .paren => [.terminal .lparen, .nonterminal .expr, .terminal .rparen]
  | .ident => [.terminal .ident]
  | .intConst => [.terminal .intConst]

def bodyLength (rule : Rule) : Nat := rule.body.length

def production (rule : Rule) : Production := ⟨rule.index, rule.head, rule.bodyLength⟩

theorem ofIndex?_index (rule : Rule) : ofIndex? rule.index = some rule := by cases rule <;> rfl

end Rule

namespace Production

def rule? (production : Production) : Option Rule := Rule.ofIndex? production.index

def render (production : Production) : String :=
  "#" ++ production.index.repr ++ " " ++ production.head.name ++
    " (|body| = " ++ production.bodyLength.repr ++ ")"

theorem rule?_production (rule : Rule) : rule.production.rule? = some rule :=
  Rule.ofIndex?_index rule

end Production
end StraightLine
