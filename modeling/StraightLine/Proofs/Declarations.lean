import Mathlib.Data.List.Infix
import StraightLine.Proofs.CodelessSyntax
import StraightLine.Proofs.Tables

namespace StraightLine

-- An `int` with the name right behind it.
def Declares (tokens : List Token) (name : String) : Prop :=
  ∃ keyword, keyword.kind = .int ∧ [keyword, ⟨.ident, name⟩] <:+: tokens

variable {tokens front back : List Token} {name : String}

theorem exists_mem_iff_declares :
    (∃ keyword ∈ tokens, keyword.kind = .int ∧ [keyword, ⟨.ident, name⟩] <:+: tokens) ↔ Declares tokens name := by
  constructor
  · intro found
    obtain ⟨keyword, _, int, inside⟩ := found
    exact ⟨keyword, int, inside⟩
  · intro found
    obtain ⟨keyword, int, inside⟩ := found
    exact ⟨keyword, inside.subset List.mem_cons_self, int, inside⟩

instance : Decidable (Declares tokens name) := decidable_of_iff _ exists_mem_iff_declares

theorem declares_cons {first : Token} {rest : List Token} :
    Declares (first :: rest) name ↔ first.kind = .int ∧ rest.head? = some ⟨.ident, name⟩ ∨ Declares rest name := by
  constructor
  · intro found
    obtain ⟨keyword, int, inside⟩ := found
    rcases List.infix_cons_iff.mp inside with here | later
    · obtain ⟨rfl, behind⟩ := List.cons_prefix_cons.mp here
      obtain ⟨others, rfl⟩ := behind
      exact .inl ⟨int, rfl⟩
    · exact .inr ⟨keyword, int, later⟩
  · intro found
    rcases found with ⟨int, behind⟩ | ⟨keyword, int, later⟩
    · obtain ⟨others, rfl⟩ := List.head?_eq_some_iff.mp behind
      exact ⟨first, int, [], others, rfl⟩
    · exact ⟨keyword, int, List.infix_cons later⟩

theorem not_declares_of_kind (plain : ∀ token ∈ tokens, token.kind ≠ .int) : ¬ Declares tokens name := by
  intro found
  obtain ⟨keyword, int, inside⟩ := found
  exact plain keyword (inside.subset List.mem_cons_self) int

theorem not_declares_nil : ¬ Declares [] name := not_declares_of_kind (List.forall_mem_nil _)

theorem mem_of_declares (found : Declares tokens name) : ⟨.ident, name⟩ ∈ tokens := by
  obtain ⟨_, _, inside⟩ := found
  exact inside.subset (List.mem_cons_of_mem _ List.mem_cons_self)

-- No declaration reaches across a token that is neither an `int` nor a name.
theorem declares_append {separator : Token} (parts : separator.kind ≠ .int ∧ separator.kind ≠ .ident) :
    Declares (front ++ separator :: back) name ↔ Declares front name ∨ Declares back name := by
  induction front with
  | nil =>
    rw [List.nil_append, declares_cons]
    simp only [parts.1, not_declares_nil, false_and, false_or]
  | cons first rest ih =>
    have behind : (rest ++ separator :: back).head? = some ⟨.ident, name⟩ ↔ rest.head? = some ⟨.ident, name⟩ := by
      cases rest with
      | cons next others => exact Iff.rfl
      | nil =>
        refine iff_of_false ?_ (Option.some_ne_none _).symm
        intro same
        cases Option.some.inj same
        exact parts.2 rfl
    rw [List.cons_append, declares_cons, declares_cons, ih, behind, or_assoc]

theorem declares_concat {last : Token} (parts : last.kind ≠ .int ∧ last.kind ≠ .ident) :
    Declares (tokens ++ [last]) name ↔ Declares tokens name := by
  rw [declares_append parts]
  exact or_iff_left not_declares_nil

theorem declares_declaration {keyword declared : Token} (int : keyword.kind = .int) (named : declared.kind = .ident) :
    Declares [keyword, declared] name ↔ name = declared.text := by
  have alone : ¬ Declares [declared] name := by
    apply not_declares_of_kind
    intro token member
    rw [List.mem_singleton.mp member, named]
    decide
  obtain ⟨kind, text⟩ := declared
  cases named
  rw [declares_cons]
  simp only [int, alone, List.head?_cons, Option.some.injEq, Token.mk.injEq, true_and, or_false, eq_comm]

namespace ParseTree

variable {head : Nonterminal} {tree statement list : ParseTree}

-- The grammar has an `int` at the beginning of a declaration only.
theorem declareIn_of_kind (derivation : Derivation head tree) (symbols : SymbolTable)
    (plain : ∀ token ∈ tree.leaves, token.kind ≠ .int) : tree.declareIn symbols = symbols := by
  induction derivation with
  | declare typed named _ =>
    cases typed with
    | intType int => exact absurd int (plain _ List.mem_cons_self)
  | _ => simp_all [declareIn, declareAllIn, leaves, leavesAll]

theorem lookup?_declareIn_stmt (derivation : Derivation .stmt statement) (symbols : SymbolTable) (name : String) :
    (statement.declareIn symbols).lookup? name =
      if Declares statement.leaves name then some (some .int) else symbols.lookup? name := by
  rcases stmt_cases derivation with ⟨keyword, declared, int, named, rfl⟩ | plain
  · change (if declared.kind = .ident then symbols.declare declared.text .int else symbols).lookup? name =
      if Declares [keyword, declared] name then _ else _
    simp only [if_pos named, SymbolTable.lookup?_declare, declares_declaration int named]
  · rw [declareIn_of_kind derivation symbols plain, if_neg (not_declares_of_kind plain)]

theorem lookup?_declareIn_stmtList (derivation : Derivation .stmtList list) (symbols : SymbolTable) (name : String) :
    (list.declareIn symbols).lookup? name =
      if Declares list.leaves name then some (some .int) else symbols.lookup? name := by
  generalize same : Nonterminal.stmtList = head at derivation
  induction derivation generalizing symbols with
  | @stmtListCons statement rest semicolon first ends others _ ih =>
    have parts : semicolon.kind ≠ .int ∧ semicolon.kind ≠ .ident := by
      rw [ends]
      decide
    change (rest.declareIn (statement.declareIn symbols)).lookup? name =
      if Declares (statement.leaves ++ semicolon :: (rest.leaves ++ [])) name then _ else _
    rw [ih _ rfl, lookup?_declareIn_stmt first, List.append_nil]
    -- The later declaration is the one that counts, but both say the same.
    by_cases later : Declares rest.leaves name
    · simp only [declares_append parts, later, or_true, if_true]
    · simp only [declares_append parts, later, or_false, if_false]
  | @stmtListLast statement semicolon only ends _ =>
    have parts : semicolon.kind ≠ .int ∧ semicolon.kind ≠ .ident := by
      rw [ends]
      decide
    change (statement.declareIn symbols).lookup? name =
      if Declares (statement.leaves ++ [semicolon]) name then _ else _
    simp only [lookup?_declareIn_stmt only, declares_concat parts]
  | _ => cases same

theorem lookup?_declareIn (derivation : Derivation .program tree) (symbols : SymbolTable) (name : String) :
    (tree.declareIn symbols).lookup? name =
      if Declares tree.leaves name then some (some .int) else symbols.lookup? name := by
  cases derivation with
  | @program list statements =>
    change (list.declareIn symbols).lookup? name = if Declares (list.leaves ++ []) name then _ else _
    rw [lookup?_declareIn_stmtList statements, List.append_nil]

end ParseTree

namespace Source

variable {text : String} {source : Source}

theorem lookup?_analyse (analysed : (analyse text).outcome = .ok source) (name : String) :
    source.symbols.lookup? name =
      if Declares source.tokens name then some (some .int)
      else if ⟨.ident, name⟩ ∈ source.tokens then some none else none := by
  obtain ⟨_, _, declared⟩ := analyse_stages analysed
  obtain ⟨scanned, derivation, _⟩ := analyse_eq_ok analysed
  have marker : Token.eof.kind ≠ .int ∧ Token.eof.kind ≠ .ident := by decide
  have named : ⟨.ident, name⟩ ≠ Token.eof := fun same => marker.2 (congrArg Token.kind same).symm
  rw [declared, analyse_tokens analysed, ParseTree.lookup?_declareIn derivation, Scan.lookup?_of_result scanned]
  simp only [declares_concat marker, List.mem_append, List.mem_singleton, named, or_false]
  rfl

theorem has_analyse (analysed : (analyse text).outcome = .ok source) (name : String) :
    source.symbols.has name = true ↔ ⟨.ident, name⟩ ∈ source.tokens :=
  SymbolTable.has_of_lookup? (lookup?_analyse analysed name) mem_of_declares

theorem typeOf?_analyse (analysed : (analyse text).outcome = .ok source) (name : String) :
    source.symbols.typeOf? name = if Declares source.tokens name then some .int else none :=
  SymbolTable.typeOf?_of_lookup? (lookup?_analyse analysed name)

theorem renderEntry_analyse (analysed : (analyse text).outcome = .ok source) (name : String) :
    SymbolTable.renderEntry (name, source.symbols.typeOf? name) =
      if Declares source.tokens name then "(" ++ name ++ ", Int)" else "(" ++ name ++ ", null)" := by
  rw [typeOf?_analyse analysed]
  by_cases declared : Declares source.tokens name
  · rw [if_pos declared, if_pos declared]
    change "(" ++ name ++ ", " ++ "Int" ++ ")" = _
    rw [String.append_assoc, String.append_assoc]
    rfl
  · rw [if_neg declared, if_neg declared]
    rfl

theorem symbols_exact (analysed : (analyse text).outcome = .ok source) :
    (∀ name, source.symbols.has name = true ↔ ⟨.ident, name⟩ ∈ source.tokens) ∧
    (∀ name, (source.symbols.typeOf? name = some .int ↔ Declares source.tokens name) ∧
      (source.symbols.typeOf? name = none ↔ ¬ Declares source.tokens name)) ∧
    ∃ names : List String, names.Pairwise SymbolTable.Precedes ∧
      (∀ name, name ∈ names ↔ ⟨.ident, name⟩ ∈ source.tokens) ∧
      source.symbols.render = names.map fun name =>
        if Declares source.tokens name then "(" ++ name ++ ", Int)" else "(" ++ name ++ ", null)" := by
  refine ⟨has_analyse analysed, ?_, source.symbols.names, source.symbols.names_ordered, ?_, ?_⟩
  · intro name
    rw [typeOf?_analyse analysed]
    by_cases declared : Declares source.tokens name <;> simp [declared]
  · intro name
    rw [SymbolTable.mem_names_iff, has_analyse analysed]
  · rw [SymbolTable.render_eq_map_names]
    apply List.map_congr_left
    intro name _
    exact renderEntry_analyse analysed name

-- A declaration behind the uses of its name, one made twice, a name that is only read and one that is only declared; the
-- upper-case letters stand in front of the others.
def lateDeclarations : String := "a = b + C ; int b ; int b ; return a * ( b - C ) ; int A ; int ab ;"

theorem symbols_exact_lateDeclarations : ∃ source, (analyse lateDeclarations).outcome = .ok source ∧
    Declares source.tokens "ab" ∧ source.symbols.typeOf? "ab" = some .int ∧
    ¬ Declares source.tokens "C" ∧ source.symbols.has "C" = true ∧ source.symbols.typeOf? "C" = none ∧
    source.symbols.render = ["(A, Int)", "(C, null)", "(a, null)", "(ab, Int)", "(b, Int)"] := by
  have evaluated : (analyse lateDeclarations).outcome.toOption.any (fun source =>
      decide (Declares source.tokens "ab" ∧ ¬ Declares source.tokens "C" ∧ ⟨.ident, "C"⟩ ∈ source.tokens ∧
        source.symbols.render = ["(A, Int)", "(C, null)", "(a, null)", "(ab, Int)", "(b, Int)"])) = true := by
    decide +kernel
  obtain ⟨source, analysed, holds⟩ := Logged.any_toOption evaluated
  obtain ⟨declared, undeclared, listed, lines⟩ := of_decide_eq_true holds
  obtain ⟨known, typed, _⟩ := symbols_exact analysed
  exact ⟨source, analysed, declared, (typed "ab").1.mpr declared, undeclared, (known "C").mpr listed,
    (typed "C").2.mpr undeclared, lines⟩

end Source
end StraightLine
