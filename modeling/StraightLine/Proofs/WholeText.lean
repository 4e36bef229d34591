import Mathlib.Data.List.SplitBy
import StraightLine.Proofs.Layout

namespace StraightLine

namespace Lexeme

-- Neighbours in one lexeme.
def joins (left right : Char) : Bool := decide (Token.Solid left) && decide (Token.Solid right)

-- The maximal runs of solid characters, and every other character alone.
def pieces (text : List Char) : List (List Char) := text.splitBy joins

-- All pieces but the blanks, with the number of the line that each begins on.
def placed (before : List Char) : List (List Char) → List Lexeme
  | [] => []
  | piece :: rest =>
    if piece.all Text.isBlank then placed (before ++ piece) rest
    else ⟨String.ofList piece, 1 + before.count '\n'⟩ :: placed (before ++ piece) rest

def ofWhole (source : String) : List Lexeme := placed [] (pieces source.toList)

theorem joins_apart {c : Char} (apart : ¬ Token.Solid c) (other : Char) : joins c other = false ∧ joins other c = false := by
  simp [joins, apart]

theorem pieces_boundary {c : Char} (apart : ¬ Token.Solid c) (before rest : List Char) :
    pieces (before ++ c :: rest) = pieces before ++ [c] :: pieces rest := by
  have onLeft : ∀ other ∈ before.getLast?, joins other c = false := fun other _ => (joins_apart apart other).2
  have onRight : ∀ last ∈ [c].getLast?, ∀ other ∈ rest.head?, joins last other = false := by
    intro last same other _
    cases same
    exact (joins_apart apart other).1
  rw [pieces, List.splitBy_append_cons rest onLeft, ← List.singleton_append, List.splitBy_append onRight]
  rfl

theorem pieces_solid {word : List Char} (some : word ≠ []) (solid : ∀ c ∈ word, Token.Solid c) : pieces word = [word] := by
  apply List.splitBy_of_isChain some
  apply List.Pairwise.isChain
  apply List.pairwise_of_forall_mem_list
  intro left first right second
  simp [joins, solid left first, solid right second]

theorem placed_append (before : List Char) (first second : List (List Char)) :
    placed before (first ++ second) = placed before first ++ placed (before ++ first.flatten) second := by
  induction first generalizing before with
  | nil => simp [placed]
  | cons piece rest ih =>
    simp only [List.cons_append, placed, ih, List.flatten_cons, List.append_assoc]
    split <;> rfl

-- Of the text in front only its line feeds count.
theorem placed_congr {before other : List Char} (same : before.count '\n' = other.count '\n')
    (parts : List (List Char)) : placed before parts = placed other parts := by
  induction parts generalizing before other with
  | nil => rfl
  | cons piece rest ih =>
    have longer : (before ++ piece).count '\n' = (other ++ piece).count '\n' := by
      rw [List.count_append, List.count_append, same]
    simp only [placed, ih longer, same]

theorem newline_not_solid : ¬ Token.Solid '\n' := by decide

theorem placed_close {current : List Char} (solid : ∀ c ∈ current, Token.Solid c) (before : List Char) :
    placed before (pieces current.reverse) =
      (close current).map fun text => ⟨text, 1 + before.count '\n'⟩ := by
  cases current with
  | nil => rfl
  | cons c rest =>
    have here : Text.isBlank c = false := (solid c List.mem_cons_self).2
    rw [pieces_solid (by simp) fun d member => solid d (List.mem_reverse.mp member)]
    simp [placed, close, here]

-- The lexemes of one line. `current` is the open lexeme.
theorem placed_line {current rest : List Char} (solid : ∀ c ∈ current, Token.Solid c) (level : '\n' ∉ rest)
    (before : List Char) : placed before (pieces (current.reverse ++ rest)) =
      (cut current rest).map fun text => ⟨text, 1 + before.count '\n'⟩ := by
  induction rest generalizing current with
  | nil =>
    rw [List.append_nil]
    exact placed_close solid before
  | cons c rest ih =>
    obtain ⟨other, level⟩ := not_or.mp (mt List.mem_cons.mpr level)
    by_cases inside : Token.Solid c
    · have longer := ih (List.forall_mem_cons.mpr ⟨inside, solid⟩) level
      rw [List.reverse_cons, List.append_assoc, List.singleton_append] at longer
      rw [longer, cut_solid inside.1 inside.2]
    · -- The open lexeme ends in front of `c`, and what follows stands on the same line.
      have flat : '\n' ∉ current := fun member => newline_not_solid (solid _ member)
      have same : (before ++ current.reverse ++ [c]).count '\n' = before.count '\n' := by
        simp [List.count_append, List.count_eq_zero.mpr flat, Ne.symm other]
      have later : placed (before ++ current.reverse ++ [c]) (pieces rest) =
          (cut [] rest).map fun text => ⟨text, 1 + before.count '\n'⟩ :=
        (placed_congr same _).trans (ih (List.forall_mem_nil _) level)
      rw [pieces_boundary inside, placed_append, placed_close solid, pieces, List.flatten_splitBy, placed]
      by_cases semicolon : c = ';'
      · subst semicolon
        rw [cut_semicolon, if_neg (by decide), later]
        simp [List.count_append, List.count_eq_zero.mpr flat]
      · have blank : Text.isBlank c = true := by simpa [Token.Solid, semicolon] using inside
        rw [cut_blank blank, if_pos (by simp [blank]), later, List.map_append]

theorem placed_level {line : List Char} (level : '\n' ∉ line) (before : List Char) :
    placed before (pieces line) = (cut [] line).map fun text => ⟨text, 1 + before.count '\n'⟩ :=
  placed_line (List.forall_mem_nil _) level before

theorem placed_feed {line : List Char} (level : '\n' ∉ line) (before rest : List Char) :
    placed before (pieces (line ++ '\n' :: rest)) = (cut [] line).map (fun text => ⟨text, 1 + before.count '\n'⟩) ++
      placed (before ++ line ++ ['\n']) (pieces rest) := by
  rw [pieces_boundary newline_not_solid, placed_append, placed_level level, pieces, List.flatten_splitBy, placed,
    if_pos (by decide)]

-- `current` is the open line and `before` the text of the lines already closed.
theorem numbered_linesFrom {current : List Char} (level : '\n' ∉ current) (rest before : List Char) :
    ((Text.linesFrom current rest).zipIdx (before.count '\n')).flatMap (fun numbered =>
      (cut [] numbered.1).map fun text => (⟨text, numbered.2 + 1⟩ : Lexeme)) =
        placed before (pieces (current.reverse ++ rest)) := by
  induction rest generalizing current before with
  | nil =>
    rw [List.append_nil, placed_level (mt List.mem_reverse.mp level), Nat.add_comm]
    cases current with
    | nil => rfl
    | cons c others => simp [Text.linesFrom]
  | cons c rest ih =>
    by_cases feed : c = '\n'
    · subst feed
      obtain ⟨line, lines, same⟩ := linesFrom_feed current rest
      have feeds : (before ++ current.reverse ++ ['\n']).count '\n' = before.count '\n' + 1 := by
        simp [List.count_append, List.count_eq_zero.mpr level]
      have later := ih List.not_mem_nil (before ++ current.reverse ++ ['\n'])
      rw [feeds] at later
      rw [placed_feed (mt List.mem_reverse.mp level), lines, List.zipIdx_cons, List.flatMap_cons, same, later, Nat.add_comm]
      rfl
    · have longer : '\n' ∉ c :: current := by
        intro member
        rcases List.mem_cons.mp member with here | there
        · exact feed here.symm
        · exact level there
      rw [linesFrom_other feed, ih longer, List.reverse_cons, List.append_assoc, List.singleton_append]

-- Cut line by line or as a whole, the text has the same lexemes on the same lines.
theorem ofText_eq_ofWhole (source : String) : ofText source = ofWhole source :=
  numbered_linesFrom List.not_mem_nil source.toList []

example : ofWhole "int a\r\n\n;b#\r$" = [⟨"int", 1⟩, ⟨"a", 1⟩, ⟨";", 3⟩, ⟨"b#", 3⟩, ⟨"$", 3⟩] := by decide

end Lexeme

namespace Token

def fixedLexemes : List String := ["int", "return", "=", "+", "-", "*", "(", ")", ";"]

def readable (lexeme : String) : Bool :=
  fixedLexemes.contains lexeme || Text.isDigits lexeme.toList || isIdentifier lexeme.toList

theorem Kind.lexeme_mem_fixedLexemes {kind : Kind} (fixed : kind.fixed = true) (notEnd : kind ≠ .eof) :
    kind.lexeme ∈ fixedLexemes := by
  revert fixed notEnd
  cases kind <;> decide

theorem ofLexeme?_fixed {lexeme : String} (fixed : lexeme ∈ fixedLexemes) : (ofLexeme? lexeme).isSome = true := by
  have all : (fixedLexemes.all fun lexeme => (ofLexeme? lexeme).isSome) = true := by decide
  exact List.all_eq_true.mp all lexeme fixed

theorem isSome_ofLexeme? (lexeme : String) : (ofLexeme? lexeme).isSome = readable lexeme := by
  rw [Bool.eq_iff_iff]
  simp only [readable, Bool.or_eq_true, List.contains_iff_mem]
  constructor
  · intro read
    obtain ⟨token, read⟩ := Option.isSome_iff_exists.mp read
    obtain ⟨_, ⟨fixed, notEnd, rfl⟩ | ⟨_, digits⟩ | ⟨_, identifier⟩⟩ := ofLexeme?_eq_some read
    · exact .inl (.inl (Kind.lexeme_mem_fixedLexemes fixed notEnd))
    · exact .inl (.inr digits)
    · exact .inr identifier
  · intro named
    by_cases fixed : lexeme ∈ fixedLexemes
    · exact ofLexeme?_fixed fixed
    · rcases named with (known | digits) | identifier
      · exact absurd known fixed
      · have lexical : Lexical ⟨.intConst, lexeme⟩ := lexical_iff_ordinary.mpr (.inr (.inl ⟨rfl, digits⟩))
        exact Option.isSome_iff_exists.mpr ⟨_, lexical⟩
      · have other : lexeme ≠ "int" ∧ lexeme ≠ "return" := by
          constructor
          all_goals
            rintro rfl
            exact fixed (by decide)
        have lexical : Lexical ⟨.ident, lexeme⟩ := lexical_iff_ordinary.mpr (.inr (.inr ⟨rfl, identifier, other⟩))
        exact Option.isSome_iff_exists.mpr ⟨_, lexical⟩

theorem readable_of_some {lexeme : String} {token : Token} (read : ofLexeme? lexeme = some token) :
    readable lexeme = true := by
  rw [← isSome_ofLexeme?, read]
  rfl

theorem readable_of_none {lexeme : String} (refused : ofLexeme? lexeme = none) : readable lexeme = false := by
  rw [← isSome_ofLexeme?, refused]
  rfl

end Token

namespace Scan

variable (symbols : SymbolTable) (lexemes : List Lexeme)

theorem failure_ofLexemes : (ofLexemes symbols lexemes).failure =
    (lexemes.find? fun lexeme => !Token.readable lexeme.text).map fun bad => ⟨bad.text, bad.line⟩ := by
  induction lexemes generalizing symbols with
  | nil => rfl
  | cons lexeme rest ih =>
    unfold ofLexemes
    split
    case h_1 refused => simp [Token.readable_of_none refused]
    case h_2 token read => simp [Token.readable_of_some read, ih]

theorem texts_ofLexemes : (ofLexemes symbols lexemes).tokens.map Token.text =
    (lexemes.takeWhile fun lexeme => Token.readable lexeme.text).map Lexeme.text := by
  induction lexemes generalizing symbols with
  | nil => rfl
  | cons lexeme rest ih =>
    unfold ofLexemes
    split
    case h_1 refused => simp [Token.readable_of_none refused]
    case h_2 token read =>
      obtain ⟨text, _⟩ := Token.ofLexeme?_eq_some read
      simp [Token.readable_of_some read, text, ih]

end Scan

-- `word` holds the tokens of the lexemes in front of the failure, of all lexemes if there is none.
theorem scan_whole_text (symbols : SymbolTable) (source : String) :
    ∃ word : List Token, (∀ token ∈ word, token.Ordinary) ∧
      word.map Token.text =
        ((Lexeme.ofWhole source).takeWhile fun lexeme => Token.readable lexeme.text).map Lexeme.text ∧
      (Scan.ofText symbols source).result =
        ((Lexeme.ofWhole source).find? fun lexeme => !Token.readable lexeme.text).elim (.ok (word ++ [Token.eof]))
          (fun bad => .error ⟨bad.text, bad.line⟩) ∧
      ∀ name, (Scan.ofText symbols source).symbols.lookup? name =
        (symbols.lookup? name).or (if ⟨.ident, name⟩ ∈ word then some none else none) := by
  rw [← Lexeme.ofText_eq_ofWhole]
  refine ⟨(Scan.ofText symbols source).tokens, ?_, Scan.texts_ofLexemes symbols _, ?_, Scan.lookup?_ofLexemes symbols _⟩
  · intro token member
    exact Token.lexical_iff_ordinary.mp (Scan.ofLexemes_lexical symbols _ token member)
  · have failure : (Scan.ofText symbols source).failure = _ := Scan.failure_ofLexemes symbols (Lexeme.ofText source)
    rw [Scan.result, failure]
    cases (Lexeme.ofText source).find? fun lexeme => !Token.readable lexeme.text <;> rfl

end StraightLine
