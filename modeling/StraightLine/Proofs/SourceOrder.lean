import StraightLine.Proofs.Linearity

namespace StraightLine

namespace ParseTree

open Code (Instr)

-- Nothing for a declaration; else the code of the expression and, last, the move or the return of its value.
inductive StatementCode (temps : Nat) : ParseTree → List Instr → Prop where
  | declare (type : ParseTree) (name : Token) : StatementCode temps (.node .declare [type, .leaf name]) []
  | assign (target equals : Token) (source : ParseTree) :
      StatementCode temps (.node .assign [.leaf target, .leaf equals, source])
        (source.code temps ++ [.mov (.named target.text) (source.operand temps)])
  | ret (keyword : Token) (source : ParseTree) :
      StatementCode temps (.node .ret [.leaf keyword, source]) (source.code temps ++ [.ret (source.operand temps)])

-- The codes of the statements in their order, each numbered on from the temporaries of those before it.
inductive InOrder : Nat → List ParseTree → List Instr → Prop where
  | nil (temps : Nat) : InOrder temps [] []
  | cons {temps : Nat} {statement : ParseTree} {rest : List ParseTree} {code others : List Instr}
      (first : StatementCode temps statement code) (later : InOrder (temps + statement.operations) rest others) :
      InOrder temps (statement :: rest) (code ++ others)

theorem statementCode_derivation {statement : ParseTree} (derivation : Derivation .stmt statement) (temps : Nat) :
    StatementCode temps statement (statement.code temps) := by
  cases derivation with
  | declare typed named =>
    cases typed
    exact .declare _ _
  | assign named assigned expr => exact .assign _ _ _
  | ret returned expr => exact .ret _ _

-- The lists of statements are reduced from the last one on, but their code is made as they are read.
theorem inOrder_stmtList {list : ParseTree} (derivation : Derivation .stmtList list) (temps : Nat) :
    InOrder temps list.statements (list.code temps) := by
  generalize same : Nonterminal.stmtList = head at derivation
  induction derivation generalizing temps with
  | stmtListCons first ends others _ rest => exact .cons (statementCode_derivation first temps) (rest _ rfl)
  | @stmtListLast statement _ only ends _ =>
    have alone := InOrder.cons (statementCode_derivation only temps) (.nil _)
    rwa [List.append_nil] at alone
  | _ => cases same

theorem inOrder_program {tree : ParseTree} (derivation : Derivation .program tree) :
    InOrder 0 tree.statements (tree.code 0) := by
  cases derivation with
  | program statements => exact inOrder_stmtList statements 0

end ParseTree

namespace Code

theorem Generator.feed_walk {head : Nonterminal} {tree : ParseTree} (derivation : Derivation head tree)
    (valued : head.valued = true) (lexical : ∀ token ∈ tree.leaves, token.Lexical)
    (fit : ∀ token ∈ tree.leaves, token.oversized = false) (symbols : SymbolTable) {generator : Generator}
    (running : generator.accepted = false) :
    (generator.feed symbols tree.walk).outcome = .ok
      { generator with
        stack := .nonterminal head (some (tree.operand generator.temps)) :: generator.stack
        code := generator.code ++ tree.code generator.temps
        temps := generator.temps + tree.operations } := by
  have taken := takes_derivation derivation generator symbols [] running lexical
  rw [List.append_nil, literalsFit_eq_ok fit] at taken
  apply taken.trans
  simp only [after, symbol_derivation derivation, valued, if_true]
  rfl

theorem generator_translates (symbols : SymbolTable) :
    (∀ (head : Nonterminal) (tree : ParseTree), tree.Derives (.nonterminal head) → head.valued = true →
      (∀ token ∈ tree.leaves, token.Lexical ∧ token.oversized = false) →
      ∀ generator : Generator, generator.accepted = false →
        (generator.feed symbols tree.walk).outcome = .ok
          { generator with
            stack := .nonterminal head (some (tree.operand generator.temps)) :: generator.stack
            code := generator.code ++ tree.code generator.temps
            temps := generator.temps + tree.operations }) ∧
    ∀ tokens tree, ParseTree.ofTokens tokens = .ok tree →
      (∀ token ∈ tree.leaves, token.Lexical ∧ token.oversized = false) →
      ∃ code, (ofEvents symbols tree.events).outcome = .ok code ∧ ParseTree.InOrder 0 tree.statements code ∧
        computed code = (List.range tree.operations).map .temp := by
  constructor
  · intro head tree derives valued scanned generator running
    have ordinary : head ≠ .start := by
      rintro rfl
      cases valued
    have derivation := ParseTree.derivation_of_derives tree head ordinary derives
    apply Generator.feed_walk derivation valued _ _ symbols running
    · exact fun token member => (scanned token member).1
    · exact fun token member => (scanned token member).2
  · intro tokens tree parsed scanned
    obtain ⟨derivation, _⟩ := (ParseTree.ofTokens_eq_ok_iff tokens tree).mp parsed
    have lexical := fun token member => (scanned token member).1
    have fit := fun token member => (scanned token member).2
    refine ⟨tree.code 0, ?_, ParseTree.inOrder_program derivation, computed_code derivation lexical fit⟩
    rw [ofEvents_derivation derivation lexical, literalsFit_eq_ok fit]
    rfl

-- `( 2 - b )`, to be taken in behind `x =` when five temporaries are out.
def bracketed : ParseTree :=
  .node .paren [.leaf ⟨.lparen, "("⟩,
    .node .sub [.node .exprTerm [.node .termFactor [.node .intConst [.leaf ⟨.intConst, "2"⟩]]], .leaf ⟨.minus, "-"⟩,
      .node .termFactor [.node .ident [.leaf ⟨.ident, "b"⟩]]],
    .leaf ⟨.rparen, ")"⟩]

def midway : Generator where
  stack := [.terminal ⟨.assign, "="⟩ (.var (.named "=")), .terminal ⟨.ident, "x"⟩ (.var (.named "x"))]
  code := [.ret (.imm 0)]
  temps := 5

def scattered : String := "int x ; x = 1 + 2 * 3 ; int y ; return ( x - 4 ) * x ;"

theorem generator_translates_scattered :
    (midway.feed .empty bracketed.walk).outcome = .ok
      { midway with
        stack := .nonterminal .factor (some (.var (.temp 5))) :: midway.stack
        code := [.ret (.imm 0), .arith .sub (.temp 5) (.imm 2) (.var (.named "b"))]
        temps := 6 } ∧
    ∃ tokens tree code, (Scan.ofText .empty scattered).result = .ok tokens ∧ ParseTree.ofTokens tokens = .ok tree ∧
      (∀ token ∈ tree.leaves, token.Lexical ∧ token.oversized = false) ∧ (ofEvents .empty tree.events).outcome = .ok code ∧
      ParseTree.InOrder 0 tree.statements code ∧ tree.statements.length = 4 ∧
      computed code = [.temp 0, .temp 1, .temp 2, .temp 3] := by
  obtain ⟨expressions, programs⟩ := generator_translates .empty
  constructor
  · have derivation : Derivation .factor bracketed :=
      .paren rfl (.sub (.exprTerm (.termFactor (.intConst rfl))) rfl (.termFactor (.ident rfl))) rfl
    exact expressions .factor bracketed derivation.derives rfl (by decide) midway rfl
  · have evaluated : (Scan.ofText .empty scattered).result.toOption.any (fun tokens =>
        (ParseTree.ofTokens tokens).toOption.any fun tree =>
          (tree.leaves.all fun token => decide (token.Lexical ∧ token.oversized = false)) &&
            decide (tree.statements.length = 4 ∧ tree.operations = 4)) = true := by
      decide +kernel
    obtain ⟨tokens, scanned, holds⟩ := Logged.any_toOption evaluated
    obtain ⟨tree, parsed, holds⟩ := Logged.any_toOption holds
    obtain ⟨leaves, counts⟩ := Bool.and_eq_true_iff.mp holds
    obtain ⟨four, operations⟩ := of_decide_eq_true counts
    have ordinary : ∀ token ∈ tree.leaves, token.Lexical ∧ token.oversized = false := by simpa using leaves
    obtain ⟨code, generated, ordered, numbered⟩ := programs tokens tree parsed ordinary
    rw [operations] at numbered
    exact ⟨tokens, tree, code, scanned, parsed, ordinary, generated, ordered, four, numbered⟩

end Code
end StraightLine
