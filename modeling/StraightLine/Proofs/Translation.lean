import StraightLine.Code.Generator
import StraightLine.Proofs.Derivation
import StraightLine.Proofs.Lexical

namespace StraightLine

namespace ParseTree

open Code (Operand Instr)

-- Each operation takes one temporary.
def operations : ParseTree → Nat
  | .node .add [left, _, right] | .node .sub [left, _, right] | .node .mul [left, _, right] =>
    left.operations + right.operations + 1
  | .node .exprTerm [inner] | .node .termFactor [inner] | .node .paren [_, inner, _] => inner.operations
  | .node .assign [_, _, source] | .node .ret [_, source] => source.operations
  | .node .stmtListCons [statement, _, rest] => statement.operations + rest.operations
  | .node .stmtListLast [statement, _] => statement.operations
  | .node .program [list] => list.operations
  | _ => 0

-- Where the value of an expression, a term or a factor stands once its code has run.
def operand (temps : Nat) : ParseTree → Operand
  | .node .add [left, _, right] | .node .sub [left, _, right] | .node .mul [left, _, right] =>
    .var (.temp (temps + left.operations + right.operations))
  | .node .exprTerm [inner] | .node .termFactor [inner] | .node .paren [_, inner, _] => inner.operand temps
  | .node .ident [.leaf name] => .var (.named name.text)
  | .node .intConst [.leaf literal] => .imm (Int32.ofNat (Text.digitsValue literal.text.toList))
  | _ => .imm 0

def operation (op : ArithOp) (temps : Nat) (left right : ParseTree) : Instr :=
  .arith op (.temp (temps + left.operations + right.operations)) (left.operand temps)
    (right.operand (temps + left.operations))

def code (temps : Nat) : ParseTree → List Instr
  | .node .add [left, _, right] =>
    left.code temps ++ right.code (temps + left.operations) ++ [operation .add temps left right]
  | .node .sub [left, _, right] =>
    left.code temps ++ right.code (temps + left.operations) ++ [operation .sub temps left right]
  | .node .mul [left, _, right] =>
    left.code temps ++ right.code (temps + left.operations) ++ [operation .mul temps left right]
  | .node .exprTerm [inner] | .node .termFactor [inner] | .node .paren [_, inner, _] => inner.code temps
  | .node .assign [.leaf target, _, source] =>
    source.code temps ++ [.mov (.named target.text) (source.operand temps)]
  | .node .ret [_, source] => source.code temps ++ [.ret (source.operand temps)]
  | .node .stmtListCons [statement, _, rest] =>
    statement.code temps ++ rest.code (temps + statement.operations)
  | .node .stmtListLast [statement, _] => statement.code temps
  | .node .program [list] => list.code temps
  | _ => []

end ParseTree

def Nonterminal.valued : Nonterminal → Bool
  | .expr | .term | .factor => true
  | _ => false

def Code.tokenValue (token : Token) : Code.Operand :=
  if token.kind = .intConst then .imm (Int32.ofNat (Text.digitsValue token.text.toList)) else .var (.named token.text)

namespace ParseTree

-- What stands for a tree on the generator's stack.
def symbol (temps : Nat) (tree : ParseTree) : Code.StackSymbol :=
  match tree with
  | .leaf token => .terminal token (Code.tokenValue token)
  | .node rule children => .nonterminal rule.head
      (if rule.head.valued then some (operand temps (.node rule children)) else none)

def symbolsOf (temps : Nat) : List ParseTree → List Code.StackSymbol
  | [] => []
  | tree :: rest => tree.symbol temps :: symbolsOf (temps + tree.operations) rest

def codeOf (temps : Nat) : List ParseTree → List Code.Instr
  | [] => []
  | tree :: rest => tree.code temps ++ codeOf (temps + tree.operations) rest

def operationsOf : List ParseTree → Nat
  | [] => 0
  | tree :: rest => tree.operations + operationsOf rest

end ParseTree

namespace Code

def literalsFit : List Token → Except GenerateError Unit
  | [] => .ok ()
  | token :: rest => if token.oversized then .error (.literalOutOfRange token.text) else literalsFit rest

theorem literalsFit_append (first second : List Token) :
    literalsFit (first ++ second) = literalsFit first >>= fun _ => literalsFit second := by
  induction first with
  | nil => rfl
  | cons token rest ih =>
    simp only [List.cons_append, literalsFit]
    split
    · rfl
    · exact ih

theorem literalsFit_eq_ok {tokens : List Token} (fit : ∀ token ∈ tokens, token.oversized = false) :
    literalsFit tokens = .ok () := by
  induction tokens with
  | nil => rfl
  | cons token rest ih =>
    obtain ⟨here, later⟩ := List.forall_mem_cons.mp fit
    rw [literalsFit, here, if_neg Bool.false_ne_true, ih later]

namespace Generator

variable {generator : Generator} {symbols : SymbolTable}

theorem feed_cons (generator : Generator) (event : Event) (rest : List Event) :
    (generator.feed symbols (event :: rest)).outcome = (generator.handle symbols event).result >>= fun _ =>
      ((generator.handle symbols event).after.feed symbols rest).outcome := by
  simp only [feed, Logged.outcome_bind, Logged.outcome_record, Logged.outcome_ofExcept]
  rfl

theorem feed_shift {token : Token} (lexical : token.Lexical) (running : generator.accepted = false)
    (rest : List Event) : (generator.feed symbols (.shift token :: rest)).outcome = literalsFit [token] >>= fun _ =>
      ((generator.push (.terminal token (tokenValue token))).feed symbols rest).outcome := by
  rw [feed_cons]
  simp only [handle, running, shift, lexical.readInt32?, literalsFit, tokenValue]
  by_cases constant : token.kind = .intConst
  · cases large : token.oversized with
    | false => simp [constant]
    | true =>
      simp [constant]
      rfl
  · have fits : token.oversized = false := by simp [Token.oversized, constant]
    simp [constant, fits]

theorem feed_reduce {rule : Rule} {children below : List StackSymbol} {reduction : Reduction}
    (running : generator.accepted = false) (stacked : generator.stack = children.reverse ++ below)
    (full : children.length = rule.bodyLength)
    (reduced : Reduction.ofRule (some rule) rule.production children generator.temps = .ok reduction)
    (rest : List Event) : (generator.feed symbols (.reduce rule.production :: rest)).outcome =
      (Generator.feed
        { generator with
          stack := .nonterminal rule.head reduction.value :: below
          code := generator.code ++ reduction.code
          temps := reduction.temps } symbols rest).outcome := by
  have body : rule.production.bodyLength = children.reverse.length := by
    rw [List.length_reverse, full]
    rfl
  have children? : (generator.stack.take rule.production.bodyLength).reverse = children := by
    rw [stacked, body, List.take_left, List.reverse_reverse]
  have below? : generator.stack.drop rule.production.bodyLength = below := by
    rw [stacked, body, List.drop_left]
  have enough : ¬ generator.stack.length < rule.production.bodyLength := by
    rw [stacked, body, List.length_append]
    omega
  rw [feed_cons]
  simp only [handle, running, reduce, Production.rule?_production, reduceBody, enough, children?, below?, reduced,
    show rule.bodyLength = rule.production.bodyLength from rfl, if_true, if_false]
  rfl

-- The state once a tree has been taken in.
def after (generator : Generator) (tree : ParseTree) : Generator :=
  { generator with
    stack := tree.symbol generator.temps :: generator.stack
    code := generator.code ++ tree.code generator.temps
    temps := generator.temps + tree.operations }

def afterAll (generator : Generator) (trees : List ParseTree) : Generator :=
  { generator with
    stack := (ParseTree.symbolsOf generator.temps trees).reverse ++ generator.stack
    code := generator.code ++ ParseTree.codeOf generator.temps trees
    temps := generator.temps + ParseTree.operationsOf trees }

theorem afterAll_cons (generator : Generator) (tree : ParseTree) (rest : List ParseTree) :
    generator.afterAll (tree :: rest) = (generator.after tree).afterAll rest := by
  simp [afterAll, after, ParseTree.symbolsOf, ParseTree.codeOf, ParseTree.operationsOf, Nat.add_assoc]

def Takes (tree : ParseTree) : Prop :=
  ∀ generator symbols rest, generator.accepted = false → (∀ token ∈ tree.leaves, token.Lexical) →
    (feed generator symbols (tree.walk ++ rest)).outcome = literalsFit tree.leaves >>= fun _ =>
      ((generator.after tree).feed symbols rest).outcome

theorem takes_leaf (token : Token) : Takes (.leaf token) := by
  intro generator symbols rest running lexical
  have same : generator.after (.leaf token) = generator.push (.terminal token (tokenValue token)) := by
    simp [after, push, ParseTree.symbol, ParseTree.code, ParseTree.operations]
  rw [same]
  exact feed_shift (lexical token (by simp [ParseTree.leaves])) running rest

theorem feed_walkAll {trees : List ParseTree} (taken : ∀ tree ∈ trees, Takes tree) (running : generator.accepted = false)
    (lexical : ∀ token ∈ ParseTree.leavesAll trees, token.Lexical) (rest : List Event) :
    (generator.feed symbols (ParseTree.walkAll trees ++ rest)).outcome = literalsFit (ParseTree.leavesAll trees) >>= fun _ =>
      ((generator.afterAll trees).feed symbols rest).outcome := by
  induction trees generalizing generator with
  | nil =>
    have same : generator.afterAll [] = generator := by
      simp [afterAll, ParseTree.symbolsOf, ParseTree.codeOf, ParseTree.operationsOf]
    rw [same]
    rfl
  | cons tree others ih =>
    obtain ⟨first, taken⟩ := List.forall_mem_cons.mp taken
    simp only [ParseTree.walkAll, ParseTree.leavesAll, List.append_assoc, List.forall_mem_append] at lexical ⊢
    rw [first generator symbols _ running lexical.1, literalsFit_append, bind_assoc, afterAll_cons]
    congr 1
    funext _
    exact ih taken running lexical.2

theorem length_symbolsOf (temps : Nat) (trees : List ParseTree) :
    (ParseTree.symbolsOf temps trees).length = trees.length := by
  induction trees generalizing temps with
  | nil => rfl
  | cons tree rest ih => simp [ParseTree.symbolsOf, ih]

-- Reducing by a rule with these children on top of the stack emits what the translation adds to their code.
def Emits (rule : Rule) (children : List ParseTree) : Prop :=
  ∀ temps, ∃ extra, ParseTree.code temps (.node rule children) = ParseTree.codeOf temps children ++ extra ∧
    Reduction.ofRule (some rule) rule.production (ParseTree.symbolsOf temps children)
      (temps + ParseTree.operationsOf children) =
    .ok ⟨if rule.head.valued then some (ParseTree.operand temps (.node rule children)) else none, extra,
      temps + ParseTree.operations (.node rule children)⟩

theorem takes_node {rule : Rule} {children : List ParseTree} (full : children.length = rule.bodyLength)
    (taken : ∀ tree ∈ children, Takes tree) (emits : Emits rule children) : Takes (.node rule children) := by
  intro generator symbols rest running lexical
  obtain ⟨extra, appended, reduced⟩ := emits generator.temps
  simp only [ParseTree.leaves, ParseTree.walk, List.append_assoc, List.singleton_append] at lexical ⊢
  rw [feed_walkAll taken running lexical]
  congr 1
  funext _
  have still : (generator.afterAll children).accepted = false := running
  refine (feed_reduce still rfl ((length_symbolsOf _ _).trans full) reduced rest).trans ?_
  simp only [afterAll, after, ParseTree.symbol, appended, List.append_assoc]

variable {head : Nonterminal} {tree : ParseTree}

theorem symbol_derivation (derivation : Derivation head tree) (temps : Nat) :
    tree.symbol temps = .nonterminal head (if head.valued then some (tree.operand temps) else none) := by
  cases derivation <;> rfl

theorem emits_arith {rule : Rule} {op : ArithOp} {left right : ParseTree} {operator : Token} {first second : Nonterminal}
    (named : rule = .add ∧ op = .add ∨ rule = .sub ∧ op = .sub ∨ rule = .mul ∧ op = .mul)
    (leftSymbol : ∀ temps, left.symbol temps = .nonterminal first (some (left.operand temps)))
    (rightSymbol : ∀ temps, right.symbol temps = .nonterminal second (some (right.operand temps))) :
    Emits rule [left, .leaf operator, right] := by
  intro temps
  have count : temps + ParseTree.operationsOf [left, .leaf operator, right] =
      temps + left.operations + right.operations := by
    simp [ParseTree.operationsOf, ParseTree.operations, Nat.add_assoc]
  have total : temps + (left.operations + right.operations + 1) = temps + left.operations + right.operations + 1 := by
    omega
  refine ⟨[ParseTree.operation op temps left right], ?_, ?_⟩
  · rcases named with ⟨rfl, rfl⟩ | ⟨rfl, rfl⟩ | ⟨rfl, rfl⟩ <;>
      simp [ParseTree.code, ParseTree.codeOf, ParseTree.operations]
  · rw [count]
    rcases named with ⟨rfl, rfl⟩ | ⟨rfl, rfl⟩ | ⟨rfl, rfl⟩ <;>
      simp only [ParseTree.symbolsOf, leftSymbol, rightSymbol, ParseTree.operations, total] <;> rfl

-- The rules that hand on the value of one child.
theorem emits_unit {rule : Rule} {inner : ParseTree} {head : Nonterminal} (named : rule = .exprTerm ∨ rule = .termFactor)
    (innerSymbol : ∀ temps, inner.symbol temps = .nonterminal head (some (inner.operand temps))) :
    Emits rule [inner] := by
  intro temps
  refine ⟨[], ?_, ?_⟩
  · rcases named with rfl | rfl <;> simp [ParseTree.code, ParseTree.codeOf]
  · rcases named with rfl | rfl <;> simp only [ParseTree.symbolsOf, innerSymbol] <;> rfl

theorem emits_derivation {rule : Rule} {children : List ParseTree} (derivation : Derivation head (.node rule children)) :
    Emits rule children := by
  cases derivation with
  | program statements =>
    intro temps
    refine ⟨[], by simp [ParseTree.code, ParseTree.codeOf], ?_⟩
    simp only [ParseTree.symbolsOf, symbol_derivation statements]
    rfl
  | stmtListCons first ends others =>
    intro temps
    refine ⟨[], by simp [ParseTree.code, ParseTree.codeOf, ParseTree.operations], ?_⟩
    simp only [ParseTree.operationsOf, ParseTree.operations, Nat.zero_add, Nat.add_zero]
    rfl
  | stmtListLast only ends =>
    intro temps
    exact ⟨[], by simp [ParseTree.code, ParseTree.codeOf], rfl⟩
  | declare typed named =>
    intro temps
    cases typed
    exact ⟨[], rfl, rfl⟩
  | intType int =>
    intro temps
    exact ⟨[], rfl, rfl⟩
  | @assign target equals source named assigned expr =>
    intro temps
    refine ⟨[.mov (.named target.text) (source.operand temps)], ?_, ?_⟩
    · simp [ParseTree.code, ParseTree.codeOf, ParseTree.operations]
    · have targeted : ParseTree.symbol temps (.leaf target) = .terminal target (.var (.named target.text)) := by
        simp [ParseTree.symbol, tokenValue, named]
      simp only [ParseTree.symbolsOf, symbol_derivation expr, targeted, ParseTree.operationsOf, ParseTree.operations,
        Nat.zero_add, Nat.add_zero]
      rfl
  | @ret keyword source returned expr =>
    intro temps
    refine ⟨[.ret (source.operand temps)], ?_, ?_⟩
    · simp [ParseTree.code, ParseTree.codeOf, ParseTree.operations]
    · simp only [ParseTree.symbolsOf, symbol_derivation expr, ParseTree.operationsOf, ParseTree.operations,
        Nat.zero_add, Nat.add_zero]
      rfl
  | add expr plus term => exact emits_arith (.inl ⟨rfl, rfl⟩) (symbol_derivation expr) (symbol_derivation term)
  | sub expr minus term => exact emits_arith (.inr (.inl ⟨rfl, rfl⟩)) (symbol_derivation expr) (symbol_derivation term)
  | exprTerm term => exact emits_unit (.inl rfl) (symbol_derivation term)
  | mul term star factor =>
    exact emits_arith (.inr (.inr ⟨rfl, rfl⟩)) (symbol_derivation term) (symbol_derivation factor)
  | termFactor factor => exact emits_unit (.inr rfl) (symbol_derivation factor)
  | paren opens expr closes =>
    intro temps
    refine ⟨[], by simp [ParseTree.code, ParseTree.codeOf, ParseTree.operations], ?_⟩
    simp only [ParseTree.symbolsOf, symbol_derivation expr, ParseTree.operationsOf, ParseTree.operations,
      Nat.zero_add, Nat.add_zero]
    rfl
  | ident named =>
    intro temps
    refine ⟨[], rfl, ?_⟩
    simp only [ParseTree.symbolsOf, ParseTree.symbol, Code.tokenValue, named]
    rfl
  | intConst constant =>
    intro temps
    refine ⟨[], rfl, ?_⟩
    simp only [ParseTree.symbolsOf, ParseTree.symbol, Code.tokenValue, constant]
    rfl

-- Fed the walk of a derivation, the generator makes the code that the tree itself gives, or stops at the first literal that is
-- too large.
theorem takes_derivation (derivation : Derivation head tree) : Takes tree := by
  induction derivation with
  | program statements taken => exact takes_node rfl (by simpa using taken) (emits_derivation (.program statements))
  | stmtListCons first ends others takenFirst takenOthers =>
    exact takes_node rfl (by simp [takenFirst, takenOthers, takes_leaf])
      (emits_derivation (.stmtListCons first ends others))
  | stmtListLast only ends taken =>
    exact takes_node rfl (by simp [taken, takes_leaf]) (emits_derivation (.stmtListLast only ends))
  | declare typed named taken =>
    exact takes_node rfl (by simp [taken, takes_leaf]) (emits_derivation (.declare typed named))
  | intType int => exact takes_node rfl (by simp [takes_leaf]) (emits_derivation (.intType int))
  | assign named assigned expr taken =>
    exact takes_node rfl (by simp [taken, takes_leaf]) (emits_derivation (.assign named assigned expr))
  | ret returned expr taken =>
    exact takes_node rfl (by simp [taken, takes_leaf]) (emits_derivation (.ret returned expr))
  | add expr plus term takenExpr takenTerm =>
    exact takes_node rfl (by simp [takenExpr, takenTerm, takes_leaf]) (emits_derivation (.add expr plus term))
  | sub expr minus term takenExpr takenTerm =>
    exact takes_node rfl (by simp [takenExpr, takenTerm, takes_leaf]) (emits_derivation (.sub expr minus term))
  | exprTerm term taken => exact takes_node rfl (by simpa using taken) (emits_derivation (.exprTerm term))
  | mul term star factor takenTerm takenFactor =>
    exact takes_node rfl (by simp [takenTerm, takenFactor, takes_leaf]) (emits_derivation (.mul term star factor))
  | termFactor factor taken => exact takes_node rfl (by simpa using taken) (emits_derivation (.termFactor factor))
  | paren opens expr closes taken =>
    exact takes_node rfl (by simp [taken, takes_leaf]) (emits_derivation (.paren opens expr closes))
  | ident named => exact takes_node rfl (by simp [takes_leaf]) (emits_derivation (.ident named))
  | intConst constant => exact takes_node rfl (by simp [takes_leaf]) (emits_derivation (.intConst constant))

end Generator

variable {symbols : SymbolTable} {tree : ParseTree}

theorem ofEvents_derivation (derivation : Derivation .program tree) (lexical : ∀ token ∈ tree.leaves, token.Lexical) :
    (ofEvents symbols tree.events).outcome = literalsFit tree.leaves >>= fun _ => .ok (tree.code 0) := by
  have taken := Generator.takes_derivation derivation {} symbols [.accept] rfl lexical
  simp only [ofEvents, ParseTree.events, Logged.outcome_bind, taken, bind_assoc]
  congr 1

end Code
end StraightLine
