import StraightLine.Proofs.Parsing

namespace StraightLine.ParseTree

-- Some sentence begins with the word.
def Viable (word : List Token) : Prop := ∃ rest, Sentence (word ++ rest)

-- A factor of the tree ends with the word, which is all of the tree's leaves up to there.
inductive FactorEnds : ParseTree → List Token → Prop where
  | here {rule : Rule} {children : List ParseTree} (factor : rule.head = .factor) :
      FactorEnds (.node rule children) (leavesAll children)
  | inside {rule : Rule} {child : ParseTree} {word : List Token} (before after : List ParseTree)
      (ends : FactorEnds child word) : FactorEnds (.node rule (before ++ child :: after)) (leavesAll before ++ word)

-- The last token of the word ends an operand: a factor of some program that begins with the word.
def EndsOperand (word : List Token) : Prop :=
  ∃ tree : ParseTree, tree.Derives (.nonterminal .program) ∧ FactorEnds tree word

namespace FactorEnds

variable {factor tree : ParseTree} {word : List Token}

theorem of_derivation (derivation : Derivation .factor factor) : FactorEnds factor factor.leaves := by
  cases derivation with
  | paren opens expr closes => exact .here rfl
  | ident named => exact .here rfl
  | intConst constant => exact .here rfl

theorem expr (ends : FactorEnds factor word) (pending : Pending) :
    FactorEnds (pending.expr factor) (pending.leaves ++ word) := by
  obtain ⟨sum, product⟩ := pending
  have term : ∃ front, FactorEnds (Pending.term ⟨sum, product⟩ factor) (front ++ word) ∧
      Pending.leaves ⟨sum, product⟩ = Pending.leaves ⟨sum, none⟩ ++ front := by
    cases product with
    | none => exact ⟨[], .inside [] [] ends, (List.append_nil _).symm⟩
    | some held =>
      obtain ⟨left, star⟩ := held
      refine ⟨leavesAll [left, .leaf star], .inside [left, .leaf star] [] ends, ?_⟩
      simp [Pending.leaves, leavesAll, leaves]
  obtain ⟨front, inner, split⟩ := term
  rw [split, List.append_assoc]
  cases sum with
  | none => exact .inside [] [] inner
  | some held =>
    obtain ⟨rule, left, operator⟩ := held
    have outer : Pending.leaves ⟨some (rule, left, operator), none⟩ = leavesAll [left, .leaf operator] := by
      simp [leavesAll, leaves]
    rw [outer]
    exact .inside [left, .leaf operator] [] inner

-- The newest statement is the innermost one of the list.
theorem stmtList {list : ParseTree} (ends : FactorEnds list word) (earlier : List (ParseTree × Token)) :
    FactorEnds (earlier.foldl
      (fun list (statement, semicolon) => .node .stmtListCons [statement, .leaf semicolon, list]) list)
      (Reader.finishedLeaves earlier ++ word) := by
  induction earlier generalizing list word with
  | nil => exact ends
  | cons pair older ih =>
    obtain ⟨statement, semicolon⟩ := pair
    have wrapped : FactorEnds (.node .stmtListCons [statement, .leaf semicolon, list])
        (leavesAll [statement, .leaf semicolon] ++ word) := .inside [statement, .leaf semicolon] [] ends
    have outer := ih wrapped
    simpa [Reader.finishedLeaves, leavesAll, leaves] using outer

end FactorEnds

namespace Reader

variable {reader next : Reader}

-- Some tokens lead from the state to the end of a program in which a factor ends with the word.
def CompletesAt (reader : Reader) (word : List Token) : Prop :=
  ∃ rest final tree, reader.steps rest = some final ∧ final.program? = some tree ∧ FactorEnds tree word

theorem CompletesAt.of_step {word : List Token} (token : Token) (moved : reader.step token = some next)
    (later : next.CompletesAt word) : reader.CompletesAt word := by
  obtain ⟨rest, final, tree, stepped, read, ends⟩ := later
  exact ⟨token :: rest, final, tree, steps_cons moved stepped, read, ends⟩

theorem completesAt_finish {statement : ParseTree} {semicolon : Token} {word : List Token}
    (ends : FactorEnds statement word) : (reader.finish statement semicolon).CompletesAt (finishedLeaves reader.finished ++ word) := by
  refine ⟨[], _, _, rfl, rfl, ?_⟩
  have last : FactorEnds (.node .stmtListLast [statement, .leaf semicolon]) word := .inside [] [.leaf semicolon] ends
  exact .inside [] [] (last.stmtList reader.finished)

-- Each open parenthesis is closed in turn; then the statement ends.
theorem completesAt_operator (finished : List (ParseTree × Token)) (enclosing : Enclosing) (pending : Pending)
    {factor : ParseTree} {word : List Token} (ends : FactorEnds factor word) :
    CompletesAt ⟨finished, .operator enclosing pending factor⟩
      (finishedLeaves finished ++ (enclosing.leaves ++ pending.leaves ++ word)) := by
  have whole := ends.expr pending
  induction enclosing generalizing pending factor word with
  | assign target equals =>
    have statement : FactorEnds (.node .assign [.leaf target, .leaf equals, pending.expr factor])
        ([target, equals] ++ (pending.leaves ++ word)) := .inside [.leaf target, .leaf equals] [] whole
    refine .of_step (Token.ofKind .semicolon) rfl ?_
    simpa [Enclosing.leaves] using completesAt_finish statement
  | ret keyword =>
    have statement : FactorEnds (.node .ret [.leaf keyword, pending.expr factor])
        ([keyword] ++ (pending.leaves ++ word)) := .inside [.leaf keyword] [] whole
    refine .of_step (Token.ofKind .semicolon) rfl ?_
    simpa [Enclosing.leaves] using completesAt_finish statement
  | group paren outside outer ih =>
    have closed : FactorEnds (.node .paren [.leaf paren, pending.expr factor, .leaf (Token.ofKind .rparen)])
        ([paren] ++ (pending.leaves ++ word)) := .inside [.leaf paren] [.leaf (Token.ofKind .rparen)] whole
    refine .of_step (Token.ofKind .rparen) rfl ?_
    simpa [Enclosing.leaves, moveTo] using ih outside closed (closed.expr outside)

theorem completesAt_operand (finished : List (ParseTree × Token)) (enclosing : Enclosing) (pending : Pending) :
    ∃ word, CompletesAt ⟨finished, .operand enclosing pending⟩ word := by
  have constant : Derivation .factor (.node .intConst [.leaf ⟨.intConst, "0"⟩]) := .intConst rfl
  exact ⟨_, .of_step ⟨.intConst, "0"⟩ rfl (completesAt_operator finished enclosing pending (.of_derivation constant))⟩

theorem completesAt_statement (finished : List (ParseTree × Token)) : ∃ word, CompletesAt ⟨finished, .statement⟩ word := by
  obtain ⟨word, completes⟩ := completesAt_operand finished (.ret (Token.ofKind .ret)) {}
  exact ⟨word, .of_step (Token.ofKind .ret) rfl completes⟩

theorem exists_completesAt (sound : reader.Sound) : ∃ word, reader.CompletesAt word := by
  obtain ⟨finished, position⟩ := reader
  cases position with
  | statement => exact completesAt_statement finished
  | declaration type =>
    obtain ⟨word, completes⟩ := completesAt_statement _
    exact ⟨word, .of_step ⟨.ident, "x"⟩ rfl (.of_step (Token.ofKind .semicolon) rfl completes)⟩
  | declared statement =>
    obtain ⟨word, completes⟩ := completesAt_statement _
    exact ⟨word, .of_step (Token.ofKind .semicolon) rfl completes⟩
  | target name =>
    obtain ⟨word, completes⟩ := completesAt_operand finished (.assign name (Token.ofKind .assign)) {}
    exact ⟨word, .of_step (Token.ofKind .assign) rfl completes⟩
  | operand enclosing pending => exact completesAt_operand finished enclosing pending
  | operator enclosing pending factor =>
    obtain ⟨_, _, derived⟩ := sound.position
    exact ⟨_, completesAt_operator finished enclosing pending (.of_derivation derived)⟩

end Reader

variable {word : List Token} {reader : Reader}

theorem derives_of_completesAt {ending : List Token} (read : Reader.steps {} word = some reader)
    (completes : reader.CompletesAt ending) :
    ∃ tree rest, tree.Derives (.nonterminal .program) ∧ tree.leaves = word ++ rest ∧ FactorEnds tree ending := by
  obtain ⟨rest, final, tree, stepped, whole, ends⟩ := completes
  obtain ⟨sound, consumed⟩ := Reader.sound_empty.steps (Reader.steps_trans read stepped)
  obtain ⟨derivation, leaves⟩ := sound.program? whole
  exact ⟨tree, rest, derivation.derives, leaves.trans consumed, ends⟩

-- Each state of the reader can be completed to a program, so it takes in exactly the viable words.
theorem viable_iff_steps : Viable word ↔ ∃ reader, Reader.steps {} word = some reader := by
  constructor
  · intro viable
    obtain ⟨rest, tree, derives, leaves⟩ := viable
    obtain ⟨final, stepped, _⟩ := reads_of_derivation (Derivation.program_iff_derives.mpr derives)
    rw [leaves, Reader.steps_append] at stepped
    obtain ⟨reader, read, _⟩ := Option.bind_eq_some_iff.mp stepped
    exact ⟨reader, read⟩
  · intro taken
    obtain ⟨reader, read⟩ := taken
    obtain ⟨sound, _⟩ := Reader.sound_empty.steps read
    obtain ⟨_, completes⟩ := Reader.exists_completesAt sound
    obtain ⟨tree, rest, derives, leaves, _⟩ := derives_of_completesAt read completes
    exact ⟨rest, tree, derives, leaves⟩

theorem Viable.of_append {first second : List Token} (viable : Viable (first ++ second)) : Viable first := by
  obtain ⟨rest, sentence⟩ := viable
  exact ⟨second ++ rest, by rwa [← List.append_assoc]⟩

theorem viable_append_iff_step (read : Reader.steps {} word = some reader) (token : Token) :
    Viable (word ++ [token]) ↔ (reader.step token).isSome = true := by
  have single : reader.steps [token] = reader.step token := by simp [Reader.steps]
  rw [viable_iff_steps, Reader.steps_append, read, Option.bind_some, single, Option.isSome_iff_exists]

theorem endsOperand_of_operator {enclosing : Enclosing} {pending : Pending} {factor : ParseTree}
    (read : Reader.steps {} word = some reader) (position : reader.position = .operator enclosing pending factor) :
    EndsOperand word := by
  obtain ⟨finished, _⟩ := reader
  subst position
  obtain ⟨sound, consumed⟩ := Reader.sound_empty.steps read
  obtain ⟨_, _, derived⟩ := sound.position
  obtain ⟨tree, _, derives, _, ends⟩ := derives_of_completesAt read
    (Reader.completesAt_operator finished enclosing pending (.of_derivation derived))
  refine ⟨tree, derives, ?_⟩
  have same : Reader.finishedLeaves finished ++ (enclosing.leaves ++ pending.leaves ++ factor.leaves) = word := consumed
  rwa [same] at ends

end StraightLine.ParseTree
