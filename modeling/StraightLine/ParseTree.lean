import StraightLine.Grammar
import StraightLine.SymbolTable
import StraightLine.Text.Quoted

namespace StraightLine

inductive ParseTree where
  | leaf (token : Token)
  | node (rule : Rule) (children : List ParseTree)

inductive Event where
  | shift (token : Token)
  | reduce (production : Production)
  | accept
  deriving DecidableEq

namespace ParseTree

mutual

def decEq : (left right : ParseTree) → Decidable (left = right)
  | .leaf s, .leaf t => if h : s = t then isTrue (by rw [h]) else isFalse fun e => h (by cases e; rfl)
  | .leaf _, .node _ _ => isFalse nofun
  | .node _ _, .leaf _ => isFalse nofun
  | .node r xs, .node q ys =>
    if h : r = q then
      match decEqAll xs ys with
      | isTrue same => isTrue (by rw [h, same])
      | isFalse apart => isFalse fun e => apart (by cases e; rfl)
    else isFalse fun e => h (by cases e; rfl)

def decEqAll : (left right : List ParseTree) → Decidable (left = right)
  | [], [] => isTrue rfl
  | [], _ :: _ => isFalse nofun
  | _ :: _, [] => isFalse nofun
  | x :: xs, y :: ys =>
    match decEq x y, decEqAll xs ys with
    | isTrue first, isTrue rest => isTrue (by rw [first, rest])
    | isFalse apart, _ => isFalse fun e => apart (by cases e; rfl)
    | _, isFalse apart => isFalse fun e => apart (by cases e; rfl)

end

instance : DecidableEq ParseTree := decEq

mutual

def walk : ParseTree → List Event
  | .leaf token => [.shift token]
  | .node rule children => walkAll children ++ [.reduce rule.production]

def walkAll : List ParseTree → List Event
  | [] => []
  | tree :: rest => tree.walk ++ walkAll rest

end

def events (tree : ParseTree) : List Event := tree.walk ++ [.accept]

mutual

def leaves : ParseTree → List Token
  | .leaf token => [token]
  | .node _ children => leavesAll children

def leavesAll : List ParseTree → List Token
  | [] => []
  | tree :: rest => tree.leaves ++ leavesAll rest

end

theorem walkAll_append (left right : List ParseTree) :
    walkAll (left ++ right) = walkAll left ++ walkAll right := by
  induction left with
  | nil => rfl
  | cons tree rest ih => simp [walkAll, ih]

theorem leavesAll_append (left right : List ParseTree) :
    leavesAll (left ++ right) = leavesAll left ++ leavesAll right := by
  induction left with
  | nil => rfl
  | cons tree rest ih => simp [leavesAll, ih]

-- A declaration counts only in the exact shape `D id`; nothing below a declaration is looked at.
mutual

def declareIn : ParseTree → SymbolTable → SymbolTable
  | .leaf _, symbols => symbols
  | .node .declare [.node .intType _, .leaf name], symbols =>
    if name.kind = .ident then symbols.declare name.text .int else symbols
  | .node .declare _, symbols => symbols
  | .node _ children, symbols => declareAllIn children symbols

def declareAllIn : List ParseTree → SymbolTable → SymbolTable
  | [], symbols => symbols
  | tree :: rest, symbols => declareAllIn rest (tree.declareIn symbols)

end

mutual

def WellShaped : ParseTree → Prop
  | .leaf _ => True
  | .node rule children => children.length = rule.bodyLength ∧ WellShapedAll children

def WellShapedAll : List ParseTree → Prop
  | [] => True
  | tree :: rest => tree.WellShaped ∧ WellShapedAll rest

end

mutual

-- Terminals are compared by kind alone.
def Derives : ParseTree → GrammarSymbol → Prop
  | .leaf token, symbol => symbol = .terminal token.kind
  | .node rule children, symbol => symbol = .nonterminal rule.head ∧ DerivesAll children rule.body

def DerivesAll : List ParseTree → List GrammarSymbol → Prop
  | [], [] => True
  | tree :: rest, symbol :: symbols => tree.Derives symbol ∧ DerivesAll rest symbols
  | _, _ => False

end

end ParseTree

namespace Event

-- One step of a tree builder; its stack has the newest tree first.
def build (stack : List ParseTree) : Event → Option (List ParseTree)
  | .shift token => some (.leaf token :: stack)
  | .reduce production =>
    match production.rule? with
    | none => none
    | some rule =>
      if production.bodyLength ≤ stack.length then
        some (.node rule (stack.take production.bodyLength).reverse :: stack.drop production.bodyLength)
      else none
  | .accept => some stack

def replay (stack : List ParseTree) : List Event → Option (List ParseTree)
  | [] => some stack
  | event :: rest =>
    match event.build stack with
    | some next => replay next rest
    | none => none

theorem replay_append (stack : List ParseTree) (first second : List Event) :
    replay stack (first ++ second) = (replay stack first).bind fun next => replay next second := by
  induction first generalizing stack with
  | nil => rfl
  | cons event rest ih =>
    simp only [List.cons_append, replay]
    cases event.build stack with
    | none => rfl
    | some next => exact ih next

-- As the parser's own listing shows an event.
def render : Event → String
  | .shift token =>
    "Shift(Token \x7b kind: " ++ token.kind.label ++ ", text: " ++ Text.quote token.text ++ " \x7d)"
  | .reduce production =>
    "Reduce(Production \x7b index: " ++ production.index.repr ++ ", head: " ++ production.head.label ++
      ", body_len: " ++ production.bodyLength.repr ++ " \x7d)"
  | .accept => "Accept"

end Event
end StraightLine
