import StraightLine.ParseTree

namespace StraightLine

-- The trees of `ParseTree.Derives` spelled out, so that an induction over them meets each production once.
inductive Derivation : Nonterminal → ParseTree → Prop where
  | program {list : ParseTree} (statements : Derivation .stmtList list) :
      Derivation .program (.node .program [list])
  | stmtListCons {statement rest : ParseTree} {semicolon : Token} (first : Derivation .stmt statement)
      (ends : semicolon.kind = .semicolon) (others : Derivation .stmtList rest) :
      Derivation .stmtList (.node .stmtListCons [statement, .leaf semicolon, rest])
  | stmtListLast {statement : ParseTree} {semicolon : Token} (only : Derivation .stmt statement)
      (ends : semicolon.kind = .semicolon) :
      Derivation .stmtList (.node .stmtListLast [statement, .leaf semicolon])
  | declare {type : ParseTree} {name : Token} (typed : Derivation .decl type) (named : name.kind = .ident) :
      Derivation .stmt (.node .declare [type, .leaf name])
  | intType {keyword : Token} (int : keyword.kind = .int) : Derivation .decl (.node .intType [.leaf keyword])
  | assign {target equals : Token} {source : ParseTree} (named : target.kind = .ident)
      (assigned : equals.kind = .assign) (expr : Derivation .expr source) :
      Derivation .stmt (.node .assign [.leaf target, .leaf equals, source])
  | ret {keyword : Token} {source : ParseTree} (returned : keyword.kind = .ret)
      (expr : Derivation .expr source) : Derivation .stmt (.node .ret [.leaf keyword, source])
  | add {left right : ParseTree} {operator : Token} (expr : Derivation .expr left)
      (plus : operator.kind = .plus) (term : Derivation .term right) :
      Derivation .expr (.node .add [left, .leaf operator, right])
  | sub {left right : ParseTree} {operator : Token} (expr : Derivation .expr left)
      (minus : operator.kind = .minus) (term : Derivation .term right) :
      Derivation .expr (.node .sub [left, .leaf operator, right])
  | exprTerm {inner : ParseTree} (term : Derivation .term inner) : Derivation .expr (.node .exprTerm [inner])
  | mul {left right : ParseTree} {operator : Token} (term : Derivation .term left)
      (star : operator.kind = .star) (factor : Derivation .factor right) :
      Derivation .term (.node .mul [left, .leaf operator, right])
  | termFactor {inner : ParseTree} (factor : Derivation .factor inner) :
      Derivation .term (.node .termFactor [inner])
  | paren {opening closing : Token} {inner : ParseTree} (opens : opening.kind = .lparen)
      (expr : Derivation .expr inner) (closes : closing.kind = .rparen) :
      Derivation .factor (.node .paren [.leaf opening, inner, .leaf closing])
  | ident {name : Token} (named : name.kind = .ident) : Derivation .factor (.node .ident [.leaf name])
  | intConst {literal : Token} (constant : literal.kind = .intConst) :
      Derivation .factor (.node .intConst [.leaf literal])

namespace ParseTree

theorem derives_terminal {tree : ParseTree} {kind : Token.Kind} :
    tree.Derives (.terminal kind) ↔ ∃ token, tree = .leaf token ∧ token.kind = kind := by
  cases tree with
  | leaf token => simp [Derives, eq_comm]
  | node rule children => simp [Derives]

theorem derivesAll_nil {trees : List ParseTree} : DerivesAll trees [] ↔ trees = [] := by
  cases trees <;> simp [DerivesAll]

theorem derivesAll_cons {trees : List ParseTree} {symbol : GrammarSymbol} {symbols : List GrammarSymbol} :
    DerivesAll trees (symbol :: symbols) ↔
      ∃ tree rest, trees = tree :: rest ∧ tree.Derives symbol ∧ DerivesAll rest symbols := by
  cases trees with
  | nil => simp [DerivesAll]
  | cons tree rest =>
    constructor
    · intro derives
      exact ⟨tree, rest, rfl, derives⟩
    · rintro ⟨_, _, same, derives⟩
      cases same
      exact derives

-- The start symbol stands in no rule's body, so below any other root its rule never occurs.
theorem derivation_of_derives (tree : ParseTree) (head : Nonterminal) (ordinary : head ≠ .start)
    (derives : tree.Derives (.nonterminal head)) : Derivation head tree := by
  match tree with
  | .leaf token => simp [Derives] at derives
  | .node rule children =>
    obtain ⟨same, body⟩ := derives
    cases same
    cases rule <;> simp only [Rule.body, derivesAll_cons, derivesAll_nil, derives_terminal] at body
    case start => exact absurd rfl ordinary
    case program =>
      obtain ⟨list, _, rfl, statements, rfl⟩ := body
      exact .program (derivation_of_derives list _ nofun statements)
    case stmtListCons =>
      obtain ⟨statement, _, rfl, first, _, _, rfl, ⟨semicolon, rfl, ends⟩, rest, _, rfl, others, rfl⟩ := body
      exact .stmtListCons (derivation_of_derives statement _ nofun first) ends
        (derivation_of_derives rest _ nofun others)
    case stmtListLast =>
      obtain ⟨statement, _, rfl, only, _, _, rfl, ⟨semicolon, rfl, ends⟩, rfl⟩ := body
      exact .stmtListLast (derivation_of_derives statement _ nofun only) ends
    case declare =>
      obtain ⟨type, _, rfl, typed, _, _, rfl, ⟨name, rfl, named⟩, rfl⟩ := body
      exact .declare (derivation_of_derives type _ nofun typed) named
    case intType =>
      obtain ⟨_, _, rfl, ⟨keyword, rfl, int⟩, rfl⟩ := body
      exact .intType int
    case assign =>
      obtain ⟨_, _, rfl, ⟨target, rfl, named⟩, _, _, rfl, ⟨equals, rfl, assigned⟩, source, _, rfl, expr, rfl⟩ := body
      exact .assign named assigned (derivation_of_derives source _ nofun expr)
    case ret =>
      obtain ⟨_, _, rfl, ⟨keyword, rfl, returned⟩, source, _, rfl, expr, rfl⟩ := body
      exact .ret returned (derivation_of_derives source _ nofun expr)
    case add =>
      obtain ⟨left, _, rfl, expr, _, _, rfl, ⟨operator, rfl, plus⟩, right, _, rfl, term, rfl⟩ := body
      exact .add (derivation_of_derives left _ nofun expr) plus (derivation_of_derives right _ nofun term)
    case sub =>
      obtain ⟨left, _, rfl, expr, _, _, rfl, ⟨operator, rfl, minus⟩, right, _, rfl, term, rfl⟩ := body
      exact .sub (derivation_of_derives left _ nofun expr) minus (derivation_of_derives right _ nofun term)
    case exprTerm =>
      obtain ⟨inner, _, rfl, term, rfl⟩ := body
      exact .exprTerm (derivation_of_derives inner _ nofun term)
    case mul =>
      obtain ⟨left, _, rfl, term, _, _, rfl, ⟨operator, rfl, star⟩, right, _, rfl, factor, rfl⟩ := body
      exact .mul (derivation_of_derives left _ nofun term) star (derivation_of_derives right _ nofun factor)
    case termFactor =>
      obtain ⟨inner, _, rfl, factor, rfl⟩ := body
      exact .termFactor (derivation_of_derives inner _ nofun factor)
    case paren =>
      obtain ⟨_, _, rfl, ⟨opening, rfl, opens⟩, inner, _, rfl, expr, _, _, rfl, ⟨closing, rfl, closes⟩, rfl⟩ := body
      exact .paren opens (derivation_of_derives inner _ nofun expr) closes
    case ident =>
      obtain ⟨_, _, rfl, ⟨name, rfl, named⟩, rfl⟩ := body
      exact .ident named
    case intConst =>
      obtain ⟨_, _, rfl, ⟨literal, rfl, constant⟩, rfl⟩ := body
      exact .intConst constant
termination_by tree

end ParseTree

namespace Derivation

variable {head : Nonterminal} {tree : ParseTree}

theorem derives (derivation : Derivation head tree) : tree.Derives (.nonterminal head) := by
  induction derivation <;> simp_all [ParseTree.Derives, ParseTree.DerivesAll, Rule.head, Rule.body]

theorem program_iff_derives : Derivation .program tree ↔ tree.Derives (.nonterminal .program) :=
  ⟨derives, ParseTree.derivation_of_derives tree .program nofun⟩

theorem leaf_kind (derivation : Derivation head tree) : ∀ token ∈ tree.leaves, token.kind ≠ .eof := by
  induction derivation <;> simp_all [ParseTree.leaves, ParseTree.leavesAll] <;> grind

end Derivation
end StraightLine
