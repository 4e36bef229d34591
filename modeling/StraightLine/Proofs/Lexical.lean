import StraightLine.Token.Scan

namespace StraightLine

namespace Text

theorem readInt?_digits {cs : List Char} (digits : isDigits cs = true) : readInt? cs = some (digitsValue cs : Int) := by
  unfold readInt?
  split
  case h_1 | h_2 => simp [isDigits] at digits
  case h_3 => simp [readNat?, digits]

theorem readInt32?_digits {text : String} (digits : isDigits text.toList = true) :
    readInt32? text = if digitsValue text.toList ≤ 2147483647 then some (Int32.ofNat (digitsValue text.toList))
      else none := by
  have fits : fitsInt32 (digitsValue text.toList) = decide (digitsValue text.toList ≤ 2147483647) := by
    unfold fitsInt32
    congr 1
    exact propext ⟨fun bounds => by omega, fun small => by omega⟩
  unfold readInt32?
  simp [readInt?_digits digits, fits, Int32.ofInt_eq_ofNat]

-- A text without a leading sign or digit is no numeral.
theorem readInt32?_eq_none {text : String} {first : Char} {rest : List Char} (opening : text.toList = first :: rest)
    (unsigned : first ≠ '-' ∧ first ≠ '+') (nondigit : first.isDigit = false) : readInt32? text = none := by
  have unread : readInt? (first :: rest) = none := by
    unfold readInt?
    split
    case h_1 same => exact absurd (List.cons.inj same).1 unsigned.1
    case h_2 same => exact absurd (List.cons.inj same).1 unsigned.2
    case h_3 => simp [readNat?, isDigits, nondigit]
  unfold readInt32?
  rw [opening, unread]

end Text

namespace Token

-- The token's own text scans to it.
def Lexical (token : Token) : Prop := ofLexeme? token.text = some token

instance (token : Token) : Decidable token.Lexical := inferInstanceAs (Decidable (_ = _))

-- Too large for a signed 32-bit word.
def oversized (token : Token) : Bool :=
  decide (token.kind = .intConst ∧ 2147483647 < Text.digitsValue token.text.toList)

theorem ofLexeme?_eq_some {lexeme : String} {token : Token} (read : ofLexeme? lexeme = some token) :
    token.text = lexeme ∧ (token.kind.fixed = true ∧ token.kind ≠ .eof ∧ lexeme = token.kind.lexeme ∨
      token.kind = .intConst ∧ Text.isDigits lexeme.toList = true ∨
      token.kind = .ident ∧ isIdentifier lexeme.toList = true) := by
  unfold ofLexeme? at read
  split at read
  case h_1 => cases read
  case h_2 kind notEnd found =>
    cases read
    have fixed : kind.fixed = true ∧ kind.lexeme = lexeme := by simpa using List.find?_some found
    exact ⟨fixed.2, .inl ⟨fixed.1, notEnd, fixed.2.symm⟩⟩
  case h_3 =>
    split at read
    case isTrue digits =>
      cases read
      exact ⟨rfl, .inr (.inl ⟨rfl, digits⟩)⟩
    case isFalse =>
      split at read
      case isTrue identifier =>
        cases read
        exact ⟨rfl, .inr (.inr ⟨rfl, identifier⟩)⟩
      case isFalse => cases read

theorem lexical_of_ofLexeme? {lexeme : String} {token : Token} (read : ofLexeme? lexeme = some token) :
    token.Lexical := by
  obtain ⟨same, _⟩ := ofLexeme?_eq_some read
  rw [Lexical, same, read]

variable {token : Token}

theorem Lexical.kind_ne_eof (lexical : token.Lexical) : token.kind ≠ .eof := by
  intro marker
  obtain ⟨_, ⟨_, notEnd, _⟩ | ⟨constant, _⟩ | ⟨named, _⟩⟩ := ofLexeme?_eq_some lexical
  · exact notEnd marker
  · cases marker.symm.trans constant
  · cases marker.symm.trans named

theorem Lexical.isDigits (lexical : token.Lexical) (constant : token.kind = .intConst) :
    Text.isDigits token.text.toList = true := by
  obtain ⟨_, ⟨fixed, _⟩ | ⟨_, digits⟩ | ⟨named, _⟩⟩ := ofLexeme?_eq_some lexical
  · rw [constant] at fixed
    cases fixed
  · exact digits
  · cases constant.symm.trans named

theorem Lexical.isIdentifier (lexical : token.Lexical) (named : token.kind = .ident) :
    Token.isIdentifier token.text.toList = true := by
  obtain ⟨_, ⟨fixed, _⟩ | ⟨constant, _⟩ | ⟨_, identifier⟩⟩ := ofLexeme?_eq_some lexical
  · rw [named] at fixed
    cases fixed
  · cases named.symm.trans constant
  · exact identifier

theorem isIdentifier_opening {cs : List Char} (identifier : isIdentifier cs = true) :
    ∃ first rest, cs = first :: rest ∧ isIdentStart first = true := by
  cases cs with
  | nil => cases identifier
  | cons first rest => exact ⟨first, rest, rfl, (Bool.and_eq_true_iff.mp identifier).1⟩

theorem isIdentStart_apart {c : Char} (start : isIdentStart c = true) :
    (c ≠ '-' ∧ c ≠ '+') ∧ c.isDigit = false := by
  refine ⟨⟨?_, ?_⟩, ?_⟩
  · rintro rfl
    revert start
    decide
  · rintro rfl
    revert start
    decide
  · have nine : '9'.val.toNat = 57 := rfl
    have upperA : 'A'.val.toNat = 65 := rfl
    have lowerA : 'a'.val.toNat = 97 := rfl
    change (decide ('A'.val ≤ c.val ∧ c.val ≤ 'Z'.val) || decide ('a'.val ≤ c.val) && decide (c.val ≤ 'z'.val) ||
      decide (c = '_')) = true at start
    change (decide ('0'.val ≤ c.val) && decide (c.val ≤ '9'.val)) = false
    simp only [Bool.or_eq_true, Bool.and_eq_true, decide_eq_true_eq, UInt32.le_iff_toNat_le] at start
    simp only [Bool.and_eq_false_iff, decide_eq_false_iff_not, UInt32.le_iff_toNat_le]
    rcases start with (upper | lower) | rfl
    · omega
    · omega
    · decide

theorem Lexical.readInt32?_eq_none (lexical : token.Lexical) (other : token.kind ≠ .intConst) :
    Text.readInt32? token.text = none := by
  obtain ⟨_, ⟨fixed, notEnd, text⟩ | ⟨constant, _⟩ | ⟨_, identifier⟩⟩ := ofLexeme?_eq_some lexical
  · rw [text]
    generalize token.kind = kind at fixed
    revert fixed
    cases kind <;> decide
  · exact absurd constant other
  · obtain ⟨first, rest, opening, start⟩ := isIdentifier_opening identifier
    obtain ⟨unsigned, nondigit⟩ := isIdentStart_apart start
    exact Text.readInt32?_eq_none opening unsigned nondigit

theorem Lexical.readInt32? (lexical : token.Lexical) : Text.readInt32? token.text =
    if token.kind = .intConst ∧ token.oversized = false then some (Int32.ofNat (Text.digitsValue token.text.toList))
    else none := by
  by_cases constant : token.kind = .intConst
  · rw [Text.readInt32?_digits (lexical.isDigits constant)]
    simp [constant, oversized]
  · rw [lexical.readInt32?_eq_none constant]
    simp [constant]

theorem lookup?_registerIn (token : Token) (symbols : SymbolTable) (name : String) :
    (token.registerIn symbols).lookup? name =
      (symbols.lookup? name).or (if token = ⟨.ident, name⟩ then some none else none) := by
  obtain ⟨kind, text⟩ := token
  simp only [registerIn, mk.injEq]
  by_cases named : kind = .ident
  · simp only [named, if_true, true_and, SymbolTable.lookup?_register]
  · simp [named]

end Token

namespace Scan

theorem lookup?_ofLexemes (symbols : SymbolTable) (lexemes : List Lexeme) (name : String) :
    (ofLexemes symbols lexemes).symbols.lookup? name = (symbols.lookup? name).or
      (if ⟨.ident, name⟩ ∈ (ofLexemes symbols lexemes).tokens then some none else none) := by
  induction lexemes generalizing symbols with
  | nil => simp [ofLexemes]
  | cons lexeme rest ih =>
    unfold ofLexemes
    split
    case h_1 => simp
    case h_2 token _ =>
      rw [ih, Token.lookup?_registerIn, Option.or_assoc]
      by_cases here : token = ⟨.ident, name⟩
      · simp [here]
      · simp [here, Ne.symm here]

theorem lookup?_of_result {symbols : SymbolTable} {text : String} {word : List Token}
    (scanned : (ofText symbols text).result = .ok (word ++ [Token.eof])) (name : String) :
    (ofText symbols text).symbols.lookup? name =
      (symbols.lookup? name).or (if ⟨.ident, name⟩ ∈ word then some none else none) := by
  unfold result at scanned
  split at scanned
  case h_1 => cases scanned
  case h_2 =>
    have same : (ofLexemes symbols (Lexeme.ofText text)).tokens = word :=
      List.append_cancel_right (Except.ok.inj scanned)
    rw [ofText, lookup?_ofLexemes, same]

theorem ofLexemes_lexical (symbols : SymbolTable) (lexemes : List Lexeme) :
    ∀ token ∈ (ofLexemes symbols lexemes).tokens, token.Lexical := by
  induction lexemes generalizing symbols with
  | nil => nofun
  | cons lexeme rest ih =>
    intro token member
    unfold ofLexemes at member
    split at member
    case h_1 => cases member
    case h_2 first read =>
      rcases List.mem_cons.mp member with rfl | later
      · exact Token.lexical_of_ofLexeme? read
      · exact ih _ token later

theorem result_lexical {symbols : SymbolTable} {source : String} {tokens : List Token}
    (scanned : (ofText symbols source).result = .ok tokens) :
    ∃ word, tokens = word ++ [Token.eof] ∧ ∀ token ∈ word, token.Lexical := by
  unfold result at scanned
  split at scanned
  case h_1 => cases scanned
  case h_2 =>
    cases scanned
    exact ⟨_, rfl, ofLexemes_lexical symbols _⟩

end Scan
end StraightLine
