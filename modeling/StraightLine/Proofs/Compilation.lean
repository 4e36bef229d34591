import StraightLine.Compilation
import StraightLine.Proofs.Evaluation
import StraightLine.Proofs.Lowering
import StraightLine.Proofs.Parsing

namespace StraightLine

-- A scanned text that parses is the leaves of its tree and the end marker.
theorem ParseTree.derivation_of_scan {symbols : SymbolTable} {text : String} {tokens : List Token} {tree : ParseTree}
    (scanned : (Scan.ofText symbols text).result = .ok tokens) (parsed : ParseTree.ofTokens tokens = .ok tree) :
    tokens = tree.leaves ++ [Token.eof] ∧ Derivation .program tree ∧ ∀ token ∈ tree.leaves, token.Lexical := by
  obtain ⟨word, rfl, lexical⟩ := Scan.result_lexical scanned
  obtain ⟨derivation, leaves⟩ := (ParseTree.ofTokens_eq_ok_iff _ _).mp parsed
  have whole : (word ++ [Token.eof]).takeWhile (fun token => token.kind ≠ .eof) = word := by
    rw [List.takeWhile_append_of_pos fun token member => by simpa using (lexical token member).kind_ne_eof]
    exact List.append_nil word
  rw [whole] at leaves
  subst leaves
  exact ⟨rfl, derivation, lexical⟩

namespace Source

theorem analyse_stages {text : String} {source : Source} (analysed : (analyse text).outcome = .ok source) :
    (Scan.ofText .empty text).result = .ok source.tokens ∧ ParseTree.ofTokens source.tokens = .ok source.tree ∧
      source.symbols = source.tree.declareIn (Scan.ofText .empty text).symbols := by
  simp only [analyse, Logged.outcome_bind, Logged.outcome_record, Logged.outcome_ofExcept, Logged.outcome_pure,
    Logged.bind_eq_ok_iff, Logged.mapError_eq_ok_iff] at analysed
  obtain ⟨_, _, tokens, scanned, _, _, tree, parsed, _, _, built⟩ := analysed
  cases built
  exact ⟨scanned, parsed, rfl⟩

theorem analyse_tokens {text : String} {source : Source} (analysed : (analyse text).outcome = .ok source) :
    source.tokens = source.tree.leaves ++ [Token.eof] := by
  obtain ⟨scanned, parsed, _⟩ := analyse_stages analysed
  exact (ParseTree.derivation_of_scan scanned parsed).1

theorem analyse_eq_ok {text : String} {source : Source} (analysed : (analyse text).outcome = .ok source) :
    (Scan.ofText .empty text).result = .ok (source.tree.leaves ++ [Token.eof]) ∧
      Derivation .program source.tree ∧ ∀ token ∈ source.tree.leaves, token.Lexical := by
  obtain ⟨scanned, parsed, _⟩ := analyse_stages analysed
  rw [← analyse_tokens analysed]
  exact ⟨scanned, (ParseTree.derivation_of_scan scanned parsed).2⟩

end Source

theorem compile_eq_ok {text : String} {compilation : Compilation} (compiled : (compile text).outcome = .ok compilation) :
    (Source.analyse text).outcome = .ok compilation.source ∧
      (Code.ofEvents compilation.source.symbols compilation.source.tree.events).outcome = .ok compilation.object.code ∧
      (Assembly.lower compilation.object.code).outcome = .ok compilation.object.program := by
  simp only [compile, Object.ofEvents, Logged.outcome_bind, Logged.outcome_mapError, Logged.outcome_pure,
    Logged.bind_eq_ok_iff, Logged.mapError_eq_ok_iff] at compiled
  obtain ⟨source, analysed, object, ⟨code, generated, program, lowered, built⟩, whole⟩ := compiled
  cases built
  cases whole
  exact ⟨analysed, generated, lowered⟩

-- A program that compiles has only literals that fit, so its code is the translation of its tree.
theorem code_of_ofEvents {symbols : SymbolTable} {tree : ParseTree} {code : List Code.Instr}
    (derivation : Derivation .program tree) (lexical : ∀ token ∈ tree.leaves, token.Lexical)
    (generated : (Code.ofEvents symbols tree.events).outcome = .ok code) : code = tree.code 0 := by
  rw [Code.ofEvents_derivation derivation lexical, Logged.bind_eq_ok_iff] at generated
  obtain ⟨_, _, same⟩ := generated
  cases same
  rfl

namespace Assembly

-- Only what a program returns is ever written to `a0`.
theorem exec_a0 (registers : Registers) (program : List Instr) :
    exec registers program .a0 = (returned registers program).getLast?.getD (registers .a0) := by
  induction program generalizing registers with
  | nil => rfl
  | cons instr rest ih =>
    rw [exec, ih, returned, List.getLast?_append]
    by_cases target : instr.target = .a0
    · have here : instr.exec registers .a0 = instr.value registers := by
        rw [Instr.exec, target, Registers.set_same]
      simp [Instr.returned, target, here]
    · have kept : instr.exec registers .a0 = registers .a0 := Registers.set_other _ _ (Ne.symm target)
      simp [Instr.returned, target, kept]

end Assembly

def Code.storeOf (names : ParseTree.Names) : Code.Store
  | .named name => names name
  | .temp _ => 0

theorem compile_returned {text : String} {compilation : Compilation}
    (compiled : (compile text).outcome = .ok compilation) :
    (Scan.ofText .empty text).result = .ok (compilation.source.tree.leaves ++ [Token.eof]) ∧
    compilation.source.tree.Derives (.nonterminal .program) ∧
    (Assembly.lower compilation.object.code).outcome = .ok compilation.object.program ∧
    compilation.assembly = Assembly.sectionText (Assembly.lines compilation.object.program) ∧
    (ParseTree.AssignedFirst [] compilation.source.tree.statements → ∀ registers names,
      Assembly.returned registers compilation.object.program =
        ParseTree.returnedBy names compilation.source.tree.statements ∧
      Assembly.exec registers compilation.object.program .a0 =
        (ParseTree.returnedBy names compilation.source.tree.statements).getLast?.getD (registers .a0)) := by
  obtain ⟨analysed, generated, lowered⟩ := compile_eq_ok compiled
  obtain ⟨scanned, derivation, lexical⟩ := Source.analyse_eq_ok analysed
  refine ⟨scanned, derivation.derives, lowered, rfl, ?_⟩
  intro assigned registers names
  have translated := code_of_ofEvents derivation lexical generated
  have defined : Code.DefinedFirst [] compilation.object.code := by
    rw [translated]
    exact ParseTree.definedFirst_code derivation 0 (by simp) assigned
  have realizes := Assembly.lower_realizes defined lowered
  have returned : Assembly.returned registers compilation.object.program =
      ParseTree.returnedBy names compilation.source.tree.statements := by
    rw [realizes registers (Code.storeOf names), translated, ParseTree.returned_code derivation]
    rfl
  refine ⟨returned, ?_⟩
  rw [Assembly.exec_a0, returned]

-- Two subtractions in a row, products under differences, a name assigned twice, one never declared and one never used.
def twoReturns : String :=
  "int a ; int unused ; a = 2 - 3 - 4 ; b = ( a + 1 ) * a - 4096 ; return b ; a = b * b ; return a + 7 - 2 * ( 3 - a ) ;"

theorem compile_returned_twoReturns : ∃ compilation, (compile twoReturns).outcome = .ok compilation ∧
    ParseTree.AssignedFirst [] compilation.source.tree.statements ∧
    ∀ registers, Assembly.returned registers compilation.object.program = [-4076, 49841329] := by
  have evaluated : (compile twoReturns).outcome.toOption.any (fun compilation =>
      decide (ParseTree.AssignedFirst [] compilation.source.tree.statements ∧
        ParseTree.returnedBy (fun _ => 0) compilation.source.tree.statements = [-4076, 49841329])) = true := by
    decide +kernel
  obtain ⟨compilation, compiled, holds⟩ := Logged.any_toOption evaluated
  obtain ⟨assigned, values⟩ := of_decide_eq_true holds
  refine ⟨compilation, compiled, assigned, ?_⟩
  intro registers
  obtain ⟨_, _, _, _, runs⟩ := compile_returned compiled
  exact (runs assigned registers fun _ => 0).1.trans values

end StraightLine
