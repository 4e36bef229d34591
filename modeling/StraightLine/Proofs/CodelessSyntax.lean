import Mathlib.Data.List.Forall2
import StraightLine.Proofs.Compilation

namespace StraightLine

theorem Rule.start_notMem_body (rule : Rule) : .nonterminal .start ∉ rule.body := by
  cases rule <;> simp [body]

namespace ParseTree

-- The generator cannot tell the trees apart, whatever temporary comes next: a reduction looks at what its children left on
-- the stack and nothing else.
structure Alike (left right : ParseTree) : Prop where
  operations : left.operations = right.operations
  symbol : ∀ temps, left.symbol temps = right.symbol temps
  code : ∀ temps, left.code temps = right.code temps

namespace Alike

variable {left middle right : ParseTree}

theorem refl (tree : ParseTree) : Alike tree tree := ⟨rfl, fun _ => rfl, fun _ => rfl⟩

theorem trans (first : Alike left middle) (second : Alike middle right) : Alike left right := by
  refine ⟨first.operations.trans second.operations, ?_, ?_⟩
  · intro temps
    exact (first.symbol temps).trans (second.symbol temps)
  · intro temps
    exact (first.code temps).trans (second.code temps)

theorem all {lefts rights : List ParseTree} (alike : List.Forall₂ Alike lefts rights) :
    operationsOf lefts = operationsOf rights ∧
      ∀ temps, symbolsOf temps lefts = symbolsOf temps rights ∧ codeOf temps lefts = codeOf temps rights := by
  induction alike with
  | nil => exact ⟨rfl, fun _ => ⟨rfl, rfl⟩⟩
  | @cons left right _ _ first _ ih =>
    obtain ⟨operations, others⟩ := ih
    refine ⟨congrArg₂ (· + ·) first.operations operations, ?_⟩
    intro temps
    obtain ⟨symbols, codes⟩ := others (temps + right.operations)
    simp only [symbolsOf, codeOf, first.operations, first.symbol, first.code, symbols, codes, and_self]

theorem node {rule : Rule} {lefts rights : List ParseTree} (emits : Code.Generator.Emits rule lefts)
    (alsoEmits : Code.Generator.Emits rule rights) (alike : List.Forall₂ Alike lefts rights) :
    Alike (.node rule lefts) (.node rule rights) := by
  obtain ⟨operations, others⟩ := all alike
  have reduced (temps : Nat) : ParseTree.code temps (.node rule lefts) = ParseTree.code temps (.node rule rights) ∧
      ParseTree.symbol temps (.node rule lefts) = ParseTree.symbol temps (.node rule rights) ∧
      temps + ParseTree.operations (.node rule lefts) = temps + ParseTree.operations (.node rule rights) := by
    obtain ⟨symbols, codes⟩ := others temps
    obtain ⟨extra, appended, reduces⟩ := emits temps
    obtain ⟨more, alsoAppended, alsoReduces⟩ := alsoEmits temps
    rw [operations, symbols, alsoReduces, Except.ok.injEq, Code.Reduction.mk.injEq] at reduces
    obtain ⟨value, rfl, count⟩ := reduces
    exact ⟨by rw [appended, alsoAppended, codes], congrArg (Code.StackSymbol.nonterminal rule.head) value.symm, count.symm⟩
  refine ⟨Nat.add_left_cancel (reduced 0).2.2, ?_, ?_⟩
  · intro temps
    exact (reduced temps).2.1
  · intro temps
    exact (reduced temps).1

end Alike

-- The subtree stands in the tree, with these leaves before it and these after it.
inductive Occurs (sub : ParseTree) : List Token → ParseTree → List Token → Prop where
  | whole : Occurs sub [] sub []
  | inside {rule : Rule} {child : ParseTree} {before after : List Token} (left right : List ParseTree)
      (occurs : Occurs sub before child after) :
      Occurs sub (leavesAll left ++ before) (.node rule (left ++ child :: right)) (after ++ leavesAll right)

theorem derivesAll_replace {left right : List ParseTree} {child : ParseTree} {symbols : List GrammarSymbol}
    (derives : DerivesAll (left ++ child :: right) symbols) :
    ∃ symbol ∈ symbols, child.Derives symbol ∧
      ∀ other : ParseTree, other.Derives symbol → DerivesAll (left ++ other :: right) symbols := by
  induction left generalizing symbols with
  | nil =>
    cases symbols with
    | nil => cases derives
    | cons symbol rest => exact ⟨symbol, List.mem_cons_self, derives.1, fun other derived => ⟨derived, derives.2⟩⟩
  | cons tree left ih =>
    cases symbols with
    | nil => cases derives
    | cons symbol rest =>
      obtain ⟨inner, member, derived, replaced⟩ := ih derives.2
      exact ⟨inner, List.mem_cons_of_mem _ member, derived, fun other fits => ⟨derives.1, replaced other fits⟩⟩

namespace Occurs

variable {sub other tree : ParseTree} {before after : List Token}

theorem leaves (occurs : Occurs sub before tree after) : tree.leaves = before ++ sub.leaves ++ after := by
  induction occurs with
  | whole => simp
  | inside left right _ ih => simp [ParseTree.leaves, leavesAll_append, leavesAll, ih]

-- Down to the subtree each node keeps its rule, and its other children stay.
theorem replace (occurs : Occurs sub before tree after) (fits : ∀ symbol, sub.Derives symbol → other.Derives symbol)
    (alike : Alike other sub) {symbol : GrammarSymbol} (ordinary : symbol ≠ .nonterminal .start)
    (derives : tree.Derives symbol) :
    ∃ changed : ParseTree, changed.Derives symbol ∧ changed.leaves = before ++ other.leaves ++ after ∧
      Alike changed tree := by
  induction occurs generalizing symbol with
  | whole => exact ⟨other, fits _ derives, by simp, alike⟩
  | @inside rule child before after left right occurs ih =>
    obtain ⟨same, body⟩ := derives
    cases same
    obtain ⟨symbol, member, derived, replaced⟩ := derivesAll_replace body
    have inner : symbol ≠ .nonterminal .start := fun start => rule.start_notMem_body (start ▸ member)
    have outer : rule.head ≠ .start := fun start => ordinary (congrArg _ start)
    obtain ⟨changed, holds, leaves, same⟩ := ih inner derived
    have whole : ParseTree.Derives (.node rule (left ++ changed :: right)) (.nonterminal rule.head) :=
      ⟨rfl, replaced changed holds⟩
    refine ⟨_, whole, ?_, ?_⟩
    · simp [ParseTree.leaves, leavesAll_append, leavesAll, leaves]
    · apply Alike.node (Code.Generator.emits_derivation (derivation_of_derives _ _ outer whole))
        (Code.Generator.emits_derivation (derivation_of_derives _ _ outer ⟨rfl, body⟩))
      have kept (trees : List ParseTree) : List.Forall₂ Alike trees trees :=
        List.forall₂_same.mpr fun tree _ => Alike.refl tree
      exact List.rel_append (kept left) (.cons same (kept right))

end Occurs

def enclosed (expr : ParseTree) : ParseTree :=
  .node .paren [.leaf (Token.ofKind .lparen), expr, .leaf (Token.ofKind .rparen)]

-- The tree in parentheses, for the same nonterminal.
def parenthesized (head : Nonterminal) (tree : ParseTree) : ParseTree :=
  match head with
  | .factor => enclosed (.node .exprTerm [.node .termFactor [tree]])
  | .term => .node .termFactor [enclosed (.node .exprTerm [tree])]
  | _ => .node .exprTerm [.node .termFactor [enclosed tree]]

section Parentheses

variable {head : Nonterminal} {tree : ParseTree}

theorem leaves_parenthesized (head : Nonterminal) (tree : ParseTree) : (parenthesized head tree).leaves =
    [Token.ofKind .lparen] ++ tree.leaves ++ [Token.ofKind .rparen] := by
  cases head <;> simp [parenthesized, enclosed, leaves, leavesAll]

theorem derivation_parenthesized (valued : head.valued = true) (derivation : Derivation head tree) :
    Derivation head (parenthesized head tree) := by
  cases head with
  | factor => exact .paren rfl (.exprTerm (.termFactor derivation)) rfl
  | term => exact .termFactor (.paren rfl (.exprTerm derivation) rfl)
  | expr => exact .exprTerm (.termFactor (.paren rfl derivation rfl))
  | _ => cases valued

theorem derives_parenthesized {rule : Rule} {children : List ParseTree} (valued : rule.head.valued = true)
    {symbol : GrammarSymbol} (derives : Derives (.node rule children) symbol) :
    (parenthesized rule.head (.node rule children)).Derives symbol := by
  obtain ⟨rfl, body⟩ := derives
  have ordinary : rule.head ≠ .start := by
    intro start
    rw [start] at valued
    cases valued
  have derivation := derivation_of_derives (.node rule children) rule.head ordinary ⟨rfl, body⟩
  exact (derivation_parenthesized valued derivation).derives

theorem alike_parenthesized {rule : Rule} {children : List ParseTree} (valued : rule.head.valued = true) :
    Alike (parenthesized rule.head (.node rule children)) (.node rule children) := by
  cases named : rule.head with
  | factor | term | expr =>
    refine ⟨rfl, ?_, fun _ => rfl⟩
    intro temps
    simp only [symbol, named]
    rfl
  | _ =>
    rw [named] at valued
    cases valued

theorem wrapped_program {rule : Rule} {children : List ParseTree} {before after : List Token}
    (derivation : Derivation .program tree) (valued : rule.head.valued = true)
    (occurs : Occurs (.node rule children) before tree after) :
    ∃ wrapped, Derivation .program wrapped ∧ wrapped.leaves = before ++ ([Token.ofKind .lparen] ++ leavesAll children ++
      [Token.ofKind .rparen]) ++ after ∧ Alike wrapped tree := by
  obtain ⟨wrapped, derives, word, alike⟩ := occurs.replace (fun _ => derives_parenthesized valued)
    (alike_parenthesized valued) (by decide) derivation.derives
  rw [leaves_parenthesized, leaves] at word
  exact ⟨wrapped, Derivation.program_iff_derives.mpr derives, word, alike⟩

end Parentheses

end ParseTree

-- The word without its declarations: each `int`, name and semicolon in a row.
def withoutDeclarations : List Token → List Token
  | first :: second :: third :: rest =>
    if first.kind = .int ∧ second.kind = .ident ∧ third.kind = .semicolon then withoutDeclarations rest
    else first :: withoutDeclarations (second :: third :: rest)
  | rest => rest

theorem withoutDeclarations_cons {token : Token} (other : token.kind ≠ .int) (rest : List Token) :
    withoutDeclarations (token :: rest) = token :: withoutDeclarations rest := by
  rcases rest with _ | ⟨second, _ | ⟨third, rest⟩⟩
  · rfl
  · rfl
  · rw [withoutDeclarations, if_neg fun declares => other declares.1]

theorem withoutDeclarations_append {word : List Token} (others : ∀ token ∈ word, token.kind ≠ .int) (rest : List Token) :
    withoutDeclarations (word ++ rest) = word ++ withoutDeclarations rest := by
  induction word with
  | nil => rfl
  | cons token word ih =>
    obtain ⟨here, later⟩ := List.forall_mem_cons.mp others
    rw [List.cons_append, withoutDeclarations_cons here, ih later, List.cons_append]

theorem withoutDeclarations_concat {last : Token} (other : last.kind ≠ .semicolon) (tokens : List Token) :
    withoutDeclarations (tokens ++ [last]) = withoutDeclarations tokens ++ [last] := by
  fun_induction withoutDeclarations tokens with
  | case1 first second third rest declares ih => simp [withoutDeclarations, declares, ih]
  | case2 first second third rest plain ih =>
    simp only [List.cons_append] at ih ⊢
    rw [withoutDeclarations, if_neg plain, ih]
  | case3 rest short =>
    rcases rest with _ | ⟨first, _ | ⟨second, _ | ⟨third, rest⟩⟩⟩
    · rfl
    · rfl
    · simp [withoutDeclarations, other]
    · exact absurd rfl (short first second third rest)

theorem withoutDeclarations_sublist (tokens : List Token) : (withoutDeclarations tokens).Sublist tokens := by
  fun_induction withoutDeclarations tokens with
  | case1 first second third rest declares ih => exact ((ih.cons third).cons second).cons first
  | case2 first second third rest other ih => exact ih.cons_cons first
  | case3 rest short => exact .refl rest

theorem oversized_withoutDeclarations (tokens : List Token) :
    (withoutDeclarations tokens).filter Token.oversized = tokens.filter Token.oversized := by
  fun_induction withoutDeclarations tokens with
  | case1 first second third rest declares ih =>
    obtain ⟨int, named, ends⟩ := declares
    simp [ih, Token.oversized, int, named, ends]
  | case2 first second third rest other ih => simp only [List.filter_cons, ih]
  | case3 rest short => rfl

namespace ParseTree

theorem kind_ne_int {head : Nonterminal} {tree : ParseTree} (derivation : Derivation head tree)
    (valued : head.valued = true) : ∀ token ∈ tree.leaves, token.kind ≠ .int := by
  induction derivation <;> simp_all [leaves, leavesAll, Nonterminal.valued] <;> grind

structure OnlyDeclares (list : ParseTree) : Prop where
  statements : ∀ statement ∈ list.statements, ∃ children, statement = .node .declare children
  leaves : withoutDeclarations list.leaves = []
  operations : list.operations = 0
  code : ∀ temps, list.code temps = []

section Statements

variable {statement rest : ParseTree} {semicolon : Token}

-- A declaration, or a statement that no `int` stands in.
theorem stmt_cases (derivation : Derivation .stmt statement) :
    (∃ keyword name : Token, keyword.kind = .int ∧ name.kind = .ident ∧
      statement = .node .declare [.node .intType [.leaf keyword], .leaf name]) ∨
    ∀ token ∈ statement.leaves, token.kind ≠ .int := by
  cases derivation with
  | declare typed named =>
    cases typed with
    | intType int => exact .inl ⟨_, _, int, named, rfl⟩
  | assign named assigned expr =>
    have source := kind_ne_int expr rfl
    exact .inr (by simpa [leaves, leavesAll, named, assigned] using source)
  | ret returned expr =>
    have source := kind_ne_int expr rfl
    exact .inr (by simpa [leaves, leavesAll, returned] using source)

-- There is a list without the declarations that makes the same code, unless nothing would be left.
def Bared (list : ParseTree) : Prop :=
  OnlyDeclares list ∨
    ∃ bare, Derivation .stmtList bare ∧ bare.leaves = withoutDeclarations list.leaves ∧ Alike bare list

theorem OnlyDeclares.alike (only : OnlyDeclares rest) :
    Alike (.node .stmtListLast [statement, .leaf semicolon]) (.node .stmtListCons [statement, .leaf semicolon, rest]) := by
  refine ⟨?_, fun _ => rfl, ?_⟩
  · simp [ParseTree.operations, only.operations]
  · intro temps
    simp [ParseTree.code, only.code]

theorem bared_declaration {keyword name : Token} (int : keyword.kind = .int) (named : name.kind = .ident)
    (ends : semicolon.kind = .semicolon) (others : Derivation .stmtList rest) (bared : Bared rest) :
    Bared (.node .stmtListCons
      [.node .declare [.node .intType [.leaf keyword], .leaf name], .leaf semicolon, rest]) := by
  have alike : Alike rest (.node .stmtListCons
      [.node .declare [.node .intType [.leaf keyword], .leaf name], .leaf semicolon, rest]) := by
    refine ⟨by simp [operations], Code.Generator.symbol_derivation others, ?_⟩
    intro temps
    simp [code, operations]
  have word : withoutDeclarations (leaves (.node .stmtListCons
      [.node .declare [.node .intType [.leaf keyword], .leaf name], .leaf semicolon, rest])) =
        withoutDeclarations rest.leaves := by
    simp [leaves, leavesAll, withoutDeclarations, int, named, ends]
  rcases bared with only | ⟨bare, derived, leaves, same⟩
  · refine .inl ⟨?_, word.trans only.leaves, alike.operations.symm.trans only.operations, ?_⟩
    · exact List.forall_mem_cons.mpr ⟨⟨_, rfl⟩, only.statements⟩
    · intro temps
      exact (alike.code temps).symm.trans (only.code temps)
  · exact .inr ⟨bare, derived, leaves.trans word.symm, same.trans alike⟩

-- If only declarations follow, the statement ends the list.
theorem bared_statement (first : Derivation .stmt statement) (plain : ∀ token ∈ statement.leaves, token.kind ≠ .int)
    (ends : semicolon.kind = .semicolon) (others : Derivation .stmtList rest) (bared : Bared rest) :
    Bared (.node .stmtListCons [statement, .leaf semicolon, rest]) := by
  have word : withoutDeclarations (leaves (.node .stmtListCons [statement, .leaf semicolon, rest])) =
      statement.leaves ++ semicolon :: withoutDeclarations rest.leaves := by
    have separates : semicolon.kind ≠ .int := by simp [ends]
    simp [leavesAll, leaves, withoutDeclarations_append plain, withoutDeclarations_cons separates]
  rcases bared with only | ⟨bare, derived, leaves, same⟩
  · refine .inr ⟨_, .stmtListLast first ends, ?_, only.alike⟩
    rw [word, only.leaves]
    simp [ParseTree.leaves, leavesAll]
  · have whole := Derivation.stmtListCons first ends derived
    refine .inr ⟨_, whole, ?_, ?_⟩
    · rw [word, ← leaves]
      simp [ParseTree.leaves, leavesAll]
    · apply Alike.node (Code.Generator.emits_derivation whole)
        (Code.Generator.emits_derivation (.stmtListCons first ends others))
      exact .cons (.refl statement) (.cons (.refl _) (.cons same .nil))

theorem bared_stmtList {list : ParseTree} (derivation : Derivation .stmtList list) : Bared list := by
  generalize same : Nonterminal.stmtList = head at derivation
  induction derivation with
  | stmtListCons first ends others _ bared =>
    rcases stmt_cases first with ⟨keyword, name, int, named, rfl⟩ | plain
    · exact bared_declaration int named ends others (bared rfl)
    · exact bared_statement first plain ends others (bared rfl)
  | stmtListLast only ends =>
    rcases stmt_cases only with ⟨keyword, name, int, named, rfl⟩ | plain
    · refine .inl ⟨?_, ?_, rfl, fun _ => rfl⟩
      · exact List.forall_mem_singleton.mpr ⟨_, rfl⟩
      · simp [leaves, leavesAll, withoutDeclarations, int, named, ends]
    · refine .inr ⟨_, .stmtListLast only ends, ?_, .refl _⟩
      simp [leaves, leavesAll, withoutDeclarations_append plain, withoutDeclarations]
  | _ => cases same

theorem bare_program {tree : ParseTree} (derivation : Derivation .program tree)
    (remains : ∃ statement ∈ tree.statements, ∀ children, statement ≠ .node .declare children) :
    ∃ bare, Derivation .program bare ∧ bare.leaves = withoutDeclarations tree.leaves ∧ Alike bare tree := by
  cases derivation with
  | @program list statements =>
    rcases bared_stmtList statements with only | ⟨bare, derived, leaves, same⟩
    · obtain ⟨statement, member, other⟩ := remains
      obtain ⟨children, declares⟩ := only.statements statement member
      exact absurd declares (other children)
    · refine ⟨_, .program derived, ?_, ?_⟩
      · simpa [ParseTree.leaves, leavesAll] using leaves
      · exact Alike.node (Code.Generator.emits_derivation (.program derived))
          (Code.Generator.emits_derivation (.program statements)) (.cons same .nil)

end Statements

end ParseTree

theorem ParseTree.ofTokens_terminated {tree : ParseTree} (derivation : Derivation .program tree) :
    ParseTree.ofTokens (tree.leaves ++ [Token.eof]) = .ok tree := by
  rw [ofTokens_eq_ok_iff]
  refine ⟨derivation, ?_⟩
  rw [List.takeWhile_append_of_pos fun token member => by simpa using derivation.leaf_kind token member]
  exact (List.append_nil _).symm

namespace Code

theorem literalsFit_filter (tokens : List Token) : literalsFit (tokens.filter Token.oversized) = literalsFit tokens := by
  induction tokens with
  | nil => rfl
  | cons token rest ih =>
    cases large : token.oversized with
    | true => rw [List.filter_cons_of_pos large, literalsFit, literalsFit, large, ih]
    | false => rw [List.filter_cons_of_neg (by simp [large]), ih, literalsFit, large, if_neg Bool.false_ne_true]

end Code

namespace Object

variable {left right : ParseTree}

-- Only the code and the literals of a program matter.
theorem ofEvents_alike (first : Derivation .program left) (second : Derivation .program right)
    (lexical : ∀ token ∈ left.leaves, token.Lexical) (alsoLexical : ∀ token ∈ right.leaves, token.Lexical)
    (literals : left.leaves.filter Token.oversized = right.leaves.filter Token.oversized)
    (alike : left.Alike right) (symbols others : SymbolTable) :
    (ofEvents symbols left.events).outcome = (ofEvents others right.events).outcome := by
  have same : (Code.ofEvents symbols left.events).outcome = (Code.ofEvents others right.events).outcome := by
    rw [Code.ofEvents_derivation first lexical, Code.ofEvents_derivation second alsoLexical, ← Code.literalsFit_filter,
      literals, Code.literalsFit_filter, alike.code]
  simp only [ofEvents, Logged.outcome_bind, Logged.outcome_mapError, same]

-- Declarations and redundant parentheses make no code: without its declarations, or with any expression, term or factor
-- in parentheses, a word that parses still does, and to the same code and program or the same error.
theorem ofEvents_codeless {table : SymbolTable} {text : String} {tokens : List Token} {tree : ParseTree}
    (scanned : (Scan.ofText table text).result = .ok tokens) (parsed : ParseTree.ofTokens tokens = .ok tree) :
    ((∃ statement ∈ tree.statements, ∀ children, statement ≠ .node .declare children) →
      ∃ bare, ParseTree.ofTokens (withoutDeclarations tokens) = .ok bare ∧
        ∀ symbols others, (ofEvents symbols bare.events).outcome = (ofEvents others tree.events).outcome) ∧
    ∀ rule children before after, rule.head.valued = true → ParseTree.Occurs (.node rule children) before tree after →
      tokens = before ++ ParseTree.leavesAll children ++ after ++ [Token.eof] ∧
      ∃ wrapped, ParseTree.ofTokens (before ++ ([Token.ofKind .lparen] ++ ParseTree.leavesAll children ++
          [Token.ofKind .rparen]) ++ after ++ [Token.eof]) = .ok wrapped ∧
        ∀ symbols others, (ofEvents symbols wrapped.events).outcome = (ofEvents others tree.events).outcome := by
  obtain ⟨rfl, derivation, lexical⟩ := ParseTree.derivation_of_scan scanned parsed
  constructor
  · intro remains
    obtain ⟨bare, derived, leaves, alike⟩ := ParseTree.bare_program derivation remains
    have stays : ∀ token ∈ bare.leaves, token.Lexical := by
      intro token member
      rw [leaves] at member
      exact lexical token ((withoutDeclarations_sublist _).subset member)
    have literals := oversized_withoutDeclarations tree.leaves
    rw [withoutDeclarations_concat (by decide), ← leaves]
    rw [← leaves] at literals
    exact ⟨bare, ParseTree.ofTokens_terminated derived, ofEvents_alike derived derivation stays lexical literals alike⟩
  · intro rule children before after valued occurs
    obtain ⟨wrapped, derived, leaves, alike⟩ := ParseTree.wrapped_program derivation valued occurs
    have whole : tree.leaves = before ++ ParseTree.leavesAll children ++ after := occurs.leaves
    refine ⟨by rw [whole], wrapped, ?_, ?_⟩
    · rw [← leaves]
      exact ParseTree.ofTokens_terminated derived
    · refine ofEvents_alike derived derivation ?_ lexical ?_ alike
      · rw [whole] at lexical
        rw [leaves]
        simp only [List.forall_mem_append, List.forall_mem_singleton] at lexical ⊢
        obtain ⟨⟨front, inside⟩, back⟩ := lexical
        exact ⟨⟨front, ⟨by decide, inside⟩, by decide⟩, back⟩
      · rw [leaves, whole]
        simp [List.filter_append, Token.oversized, Token.ofKind]

section Difference

open Token (ofKind)

-- The product under the difference.
def product : List ParseTree :=
  [.node .termFactor [.node .intConst [.leaf ⟨.intConst, "2"⟩]], .leaf (ofKind .star),
   .node .intConst [.leaf ⟨.intConst, "3"⟩]]

def difference : ParseTree :=
  .node .program [.node .stmtListCons
    [.node .declare [.node .intType [.leaf (ofKind .int)], .leaf ⟨.ident, "a"⟩], .leaf (ofKind .semicolon),
     .node .stmtListLast
       [.node .ret
         [.leaf (ofKind .ret),
          .node .sub [.node .exprTerm [.node .termFactor [.node .ident [.leaf ⟨.ident, "a"⟩]]], .leaf (ofKind .minus),
            .node .mul product]],
        .leaf (ofKind .semicolon)]]]

theorem ofEvents_codeless_difference :
    (Scan.ofText .empty "int a ; return a - 2 * 3 ;").result = .ok (difference.leaves ++ [Token.eof]) ∧
    ParseTree.ofTokens (difference.leaves ++ [Token.eof]) = .ok difference ∧
    (∃ bare, ParseTree.ofTokens
        [ofKind .ret, ⟨.ident, "a"⟩, ofKind .minus, ⟨.intConst, "2"⟩, ofKind .star, ⟨.intConst, "3"⟩, ofKind .semicolon,
         Token.eof] = .ok bare ∧
      ∀ symbols, (ofEvents symbols bare.events).outcome = (ofEvents symbols difference.events).outcome) ∧
    ∃ wrapped, ParseTree.ofTokens
        [ofKind .int, ⟨.ident, "a"⟩, ofKind .semicolon, ofKind .ret, ⟨.ident, "a"⟩, ofKind .minus, ofKind .lparen,
         ⟨.intConst, "2"⟩, ofKind .star, ⟨.intConst, "3"⟩, ofKind .rparen, ofKind .semicolon, Token.eof] = .ok wrapped ∧
      ∀ symbols, (ofEvents symbols wrapped.events).outcome = (ofEvents symbols difference.events).outcome := by
  have scanned : (Scan.ofText .empty "int a ; return a - 2 * 3 ;").result = .ok (difference.leaves ++ [Token.eof]) := by
    decide +kernel
  have parsed : ParseTree.ofTokens (difference.leaves ++ [Token.eof]) = .ok difference := rfl
  obtain ⟨dropped, enclosed⟩ := ofEvents_codeless scanned parsed
  have remains : ∃ statement ∈ difference.statements, ∀ children, statement ≠ .node .declare children :=
    ⟨_, List.mem_cons_of_mem _ List.mem_cons_self, fun _ same => by cases same⟩
  have occurs : ParseTree.Occurs (.node .mul product) _ difference _ :=
    .inside [] [] (.inside [_, _] [] (.inside [] [_] (.inside [_] [] (.inside [_, _] [] .whole))))
  obtain ⟨bare, reads, same⟩ := dropped remains
  obtain ⟨_, wrapped, alsoReads, alsoSame⟩ := enclosed .mul product _ _ rfl occurs
  exact ⟨scanned, parsed, ⟨bare, reads, fun symbols => same symbols symbols⟩,
    ⟨wrapped, alsoReads, fun symbols => alsoSame symbols symbols⟩⟩

end Difference

end Object

end StraightLine
