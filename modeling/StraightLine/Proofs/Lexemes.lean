import StraightLine.Proofs.Lexical

namespace StraightLine

namespace Lexeme

theorem cut_semicolon (current rest : List Char) : cut current (';' :: rest) = close current ++ ";" :: cut [] rest := by
  simp [cut]

theorem cut_blank {c : Char} (blank : Text.isBlank c = true) (current rest : List Char) :
    cut current (c :: rest) = close current ++ cut [] rest := by
  have apart : c ≠ ';' := by
    intro semicolon
    subst semicolon
    exact absurd (blank.symm.trans Text.isBlank_semicolon) (by decide)
  simp [cut, apart, blank]

theorem cut_solid {c : Char} (apart : c ≠ ';') (solid : Text.isBlank c = false) (current rest : List Char) :
    cut current (c :: rest) = cut (c :: current) rest := by
  simp [cut, apart, solid]

theorem cut_append_blank {c : Char} (blank : Text.isBlank c = true) (current before rest : List Char) :
    cut current (before ++ c :: rest) = cut current before ++ cut [] rest := by
  induction before generalizing current with
  | nil => exact cut_blank blank current rest
  | cons d before ih =>
    by_cases semicolon : d = ';'
    · subst semicolon
      rw [List.cons_append, cut_semicolon, cut_semicolon, ih, List.append_assoc, List.cons_append]
    · cases space : Text.isBlank d with
      | true => rw [List.cons_append, cut_blank space, cut_blank space, ih, List.append_assoc]
      | false => rw [List.cons_append, cut_solid semicolon space, cut_solid semicolon space, ih]

-- The carriage return that a line end may drop is a blank as well.
theorem linesFrom_feed (current rest : List Char) :
    ∃ line, Text.linesFrom current ('\n' :: rest) = line :: Text.linesFrom [] rest ∧
      cut [] line = cut [] current.reverse := by
  conv in Text.linesFrom current _ => unfold Text.linesFrom
  refine ⟨_, if_pos rfl, ?_⟩
  split
  · rename_i before
    rw [List.reverse_cons, cut_append_blank Text.isBlank_return]
    simp [cut, close]
  · rfl

theorem linesFrom_other {c : Char} (other : c ≠ '\n') (current rest : List Char) :
    Text.linesFrom current (c :: rest) = Text.linesFrom (c :: current) rest := by
  conv in Text.linesFrom current _ => unfold Text.linesFrom
  exact if_neg other

-- Line ends are blanks, so a text cut line by line has the lexemes of the text cut at once.
theorem flatMap_cut_linesFrom (current rest : List Char) :
    (Text.linesFrom current rest).flatMap (cut []) = cut [] (current.reverse ++ rest) := by
  induction rest generalizing current with
  | nil =>
    unfold Text.linesFrom
    cases current with
    | nil => rfl
    | cons c before => simp
  | cons c rest ih =>
    by_cases feed : c = '\n'
    · subst feed
      obtain ⟨line, lines, same⟩ := linesFrom_feed current rest
      rw [lines, List.flatMap_cons, ih, same, cut_append_blank Text.isBlank_newline]
      rfl
    · rw [linesFrom_other feed, ih, List.reverse_cons, List.append_assoc, List.singleton_append]

theorem texts_ofText (source : String) : (ofText source).map Lexeme.text = cut [] source.toList := by
  have numbered (lines : List (List Char)) (first : Nat) :
      ((lines.zipIdx first).flatMap fun numbered => (cut [] numbered.1).map fun text =>
        (⟨text, numbered.2 + 1⟩ : Lexeme)).map Lexeme.text = lines.flatMap (cut []) := by
    induction lines generalizing first with
    | nil => rfl
    | cons line rest ih => simp [List.zipIdx_cons, ih, Function.comp_def]
  exact (numbered (Text.lines source) 0).trans (flatMap_cut_linesFrom [] source.toList)

theorem length_cut (current rest : List Char) : (cut current rest).length ≤ (close current).length + rest.length := by
  induction rest generalizing current with
  | nil => exact Nat.le_refl _
  | cons c rest ih =>
    have none : (close []).length = 0 := rfl
    have one : (close (c :: current)).length = 1 := by simp [close]
    have fresh := ih []
    have longer := ih (c :: current)
    unfold cut
    split
    · simp only [List.length_append, List.length_cons]
      omega
    · split
      · simp only [List.length_append, List.length_cons]
        omega
      · simp only [List.length_cons]
        omega

end Lexeme

namespace Token

theorem ofLexeme?_eq_some_iff {lexeme : String} {token : Token} :
    ofLexeme? lexeme = some token ↔ token.Lexical ∧ token.text = lexeme := by
  constructor
  · intro read
    exact ⟨lexical_of_ofLexeme? read, (ofLexeme?_eq_some read).1⟩
  · intro named
    obtain ⟨lexical, rfl⟩ := named
    exact lexical

end Token

namespace Scan

theorem ofLexemes_complete_iff (symbols : SymbolTable) (lexemes : List Lexeme) (word : List Token) :
    (ofLexemes symbols lexemes).failure = none ∧ (ofLexemes symbols lexemes).tokens = word ↔
      lexemes.map Lexeme.text = word.map Token.text ∧ ∀ token ∈ word, token.Lexical := by
  induction lexemes generalizing symbols word with
  | nil =>
    cases word with
    | nil => simp [ofLexemes]
    | cons token rest => simp [ofLexemes]
  | cons lexeme rest ih =>
    unfold ofLexemes
    split
    case h_1 refused =>
      refine ⟨fun scanned => by simp at scanned, ?_⟩
      intro lexed
      obtain ⟨texts, lexical⟩ := lexed
      cases word with
      | nil => cases texts
      | cons token others =>
        have same : token.text = lexeme.text := (List.cons.inj texts).1.symm
        have read := Token.ofLexeme?_eq_some_iff.mpr ⟨lexical token List.mem_cons_self, same⟩
        rw [refused] at read
        cases read
    case h_2 token read =>
      obtain ⟨lexical, text⟩ := Token.ofLexeme?_eq_some_iff.mp read
      cases word with
      | nil => simp
      | cons first others =>
        simp only [List.cons.injEq, List.map_cons, List.forall_mem_cons]
        rw [and_left_comm, ih]
        constructor
        · intro scanned
          obtain ⟨rfl, texts, all⟩ := scanned
          exact ⟨⟨text.symm, texts⟩, lexical, all⟩
        · intro lexed
          obtain ⟨⟨same, texts⟩, firstLexical, all⟩ := lexed
          have again := Token.ofLexeme?_eq_some_iff.mpr ⟨firstLexical, same.symm⟩
          rw [read] at again
          cases again
          exact ⟨rfl, texts, all⟩

theorem result_eq_ok_iff (symbols : SymbolTable) (source : String) (tokens : List Token) :
    (ofText symbols source).result = .ok tokens ↔ ∃ word, tokens = word ++ [Token.eof] ∧
      Lexeme.cut [] source.toList = word.map Token.text ∧ ∀ token ∈ word, token.Lexical := by
  rw [← Lexeme.texts_ofText]
  unfold result
  split
  case h_1 error failed =>
    refine ⟨nofun, ?_⟩
    intro found
    obtain ⟨word, _, lexed⟩ := found
    have complete := (ofLexemes_complete_iff symbols _ word).mpr lexed
    rw [show (ofLexemes symbols _).failure = some error from failed] at complete
    cases complete.1
  case h_2 completed =>
    constructor
    · intro scanned
      cases scanned
      exact ⟨_, rfl, (ofLexemes_complete_iff symbols _ _).mp ⟨completed, rfl⟩⟩
    · intro found
      obtain ⟨word, rfl, lexed⟩ := found
      obtain ⟨_, same⟩ := (ofLexemes_complete_iff symbols _ word).mpr lexed
      rw [ofText, same]

-- Each token takes at least one character.
theorem length_le_of_result {symbols : SymbolTable} {source : String} {word : List Token}
    (scanned : (ofText symbols source).result = .ok (word ++ [Token.eof])) : word.length ≤ source.length := by
  obtain ⟨other, same, texts, _⟩ := (result_eq_ok_iff symbols source _).mp scanned
  obtain rfl := List.append_cancel_right same
  have pieces := Lexeme.length_cut [] source.toList
  rw [texts, List.length_map, String.length_toList] at pieces
  simpa [Lexeme.close] using pieces

end Scan
end StraightLine
