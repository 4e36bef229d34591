import Mathlib.Data.List.Chain
import StraightLine.Proofs.Lexemes

namespace StraightLine

theorem Text.isBlank_eq_false {c : Char} (low : 33 ≤ c.toNat) (high : c.toNat < 128) : isBlank c = false := by
  simp only [isBlank, blankRanges, List.any_cons, List.any_nil, Bool.or_false, Bool.or_eq_false_iff,
    decide_eq_false_iff_not]
  omega

namespace Token

-- The tokens of source texts: a fixed lexeme other than the end marker, a numeral, or a name that is no keyword.
def Ordinary (token : Token) : Prop :=
  (token.kind.fixed = true ∧ token.kind ≠ .eof ∧ token = ofKind token.kind) ∨
  (token.kind = .intConst ∧ Text.isDigits token.text.toList = true) ∨
  (token.kind = .ident ∧ isIdentifier token.text.toList = true ∧ token.text ≠ "int" ∧ token.text ≠ "return")

theorem Kind.ofLexeme?_eq_none {lexeme : String} (other : ∀ kind : Kind, kind.fixed = true → kind.lexeme ≠ lexeme) :
    Kind.ofLexeme? lexeme = none := by
  apply List.find?_eq_none.mpr
  intro kind _ matching
  obtain ⟨fixed, same⟩ := Bool.and_eq_true_iff.mp matching
  exact other kind fixed (of_decide_eq_true same)

theorem isDigits_ne_lexeme {lexeme : String} (digits : Text.isDigits lexeme.toList = true) (kind : Kind)
    (fixed : kind.fixed = true) : kind.lexeme ≠ lexeme := by
  intro same
  subst same
  revert fixed digits
  cases kind <;> decide

theorem isIdentifier_ne_lexeme {lexeme : String} (identifier : isIdentifier lexeme.toList = true)
    (notInt : lexeme ≠ "int") (notReturn : lexeme ≠ "return") (kind : Kind) (fixed : kind.fixed = true) :
    kind.lexeme ≠ lexeme := by
  intro same
  subst same
  revert fixed identifier notInt notReturn
  cases kind <;> decide

theorem isDigits_eq_false {cs : List Char} (identifier : isIdentifier cs = true) : Text.isDigits cs = false := by
  obtain ⟨first, rest, rfl, start⟩ := isIdentifier_opening identifier
  simp [Text.isDigits, (isIdentStart_apart start).2]

theorem lexical_iff_ordinary {token : Token} : token.Lexical ↔ token.Ordinary := by
  constructor
  · intro lexical
    obtain ⟨_, ⟨fixed, notEnd, text⟩ | constant | ⟨named, identifier⟩⟩ := ofLexeme?_eq_some lexical
    · exact .inl ⟨fixed, notEnd, by rw [ofKind, ← text]⟩
    · exact .inr (.inl constant)
    · refine .inr (.inr ⟨named, identifier, ?_, ?_⟩)
      all_goals
        intro keyword
        rw [Lexical, keyword] at lexical
        cases lexical
        cases named
  · intro ordinary
    rcases ordinary with ⟨fixed, notEnd, simple⟩ | ⟨constant, digits⟩ | ⟨named, identifier, notInt, notReturn⟩
    · rw [simple]
      generalize token.kind = kind at fixed notEnd
      revert fixed notEnd
      cases kind <;> decide
    · have unknown := Kind.ofLexeme?_eq_none (isDigits_ne_lexeme digits)
      simp [Lexical, ofLexeme?, unknown, digits, ← constant]
    · have unknown := Kind.ofLexeme?_eq_none (isIdentifier_ne_lexeme identifier notInt notReturn)
      simp [Lexical, ofLexeme?, unknown, isDigits_eq_false identifier, identifier, ← named]

-- A character that stands inside lexemes: no blank, and not the semicolon, which is a lexeme of its own.
def Solid (c : Char) : Prop := c ≠ ';' ∧ Text.isBlank c = false

instance (c : Char) : Decidable (Solid c) := inferInstanceAs (Decidable (_ ∧ _))

theorem solid_of_isIdentRest {c : Char} (inside : isIdentRest c = true) : Solid c := by
  constructor
  · intro semicolon
    subst semicolon
    revert inside
    decide
  · have zero : '0'.val.toNat = 48 := rfl
    have nine : '9'.val.toNat = 57 := rfl
    have upperA : 'A'.val.toNat = 65 := rfl
    have upperZ : 'Z'.val.toNat = 90 := rfl
    have lowerA : 'a'.val.toNat = 97 := rfl
    have lowerZ : 'z'.val.toNat = 122 := rfl
    have code : c.toNat = c.val.toNat := rfl
    change (decide ('A'.val ≤ c.val ∧ c.val ≤ 'Z'.val) || decide ('a'.val ≤ c.val) && decide (c.val ≤ 'z'.val) ||
      decide ('0'.val ≤ c.val) && decide (c.val ≤ '9'.val) || decide (c = '_')) = true at inside
    simp only [Bool.or_eq_true, Bool.and_eq_true, decide_eq_true_eq, UInt32.le_iff_toNat_le] at inside
    rcases inside with ((upper | lower) | digit) | underscore
    · exact Text.isBlank_eq_false (by omega) (by omega)
    · exact Text.isBlank_eq_false (by omega) (by omega)
    · exact Text.isBlank_eq_false (by omega) (by omega)
    · subst underscore
      decide

theorem isIdentRest_of_isIdentStart {c : Char} (start : isIdentStart c = true) : isIdentRest c = true := by
  rcases Bool.or_eq_true_iff.mp start with letter | underscore
  · simp [isIdentRest, Char.isAlphanum, letter]
  · simp [isIdentRest, underscore]

theorem isIdentRest_of_isIdentifier {cs : List Char} (identifier : isIdentifier cs = true) :
    ∀ c ∈ cs, isIdentRest c = true := by
  cases cs with
  | nil => exact List.forall_mem_nil _
  | cons first rest =>
    obtain ⟨start, all⟩ := Bool.and_eq_true_iff.mp identifier
    exact List.forall_mem_cons.mpr ⟨isIdentRest_of_isIdentStart start, List.all_eq_true.mp all⟩

theorem isIdentRest_of_isDigits {cs : List Char} (digits : Text.isDigits cs = true) : ∀ c ∈ cs, isIdentRest c = true := by
  intro c member
  have digit := List.all_eq_true.mp (Bool.and_eq_true_iff.mp digits).2 c member
  simp [isIdentRest, Char.isAlphanum, digit]

theorem Ordinary.solid {token : Token} (ordinary : token.Ordinary) (other : token.kind ≠ .semicolon) :
    token.text.toList ≠ [] ∧ ∀ c ∈ token.text.toList, Solid c := by
  rcases ordinary with ⟨fixed, notEnd, simple⟩ | ⟨_, digits⟩ | ⟨_, identifier, _, _⟩
  · have all : token.kind.lexeme.toList.isEmpty = false ∧
        token.kind.lexeme.toList.all (fun c => decide (Solid c)) = true := by
      generalize token.kind = kind at fixed notEnd other
      revert fixed notEnd other
      cases kind <;> decide
    rw [simple]
    refine ⟨List.isEmpty_eq_false_iff.mp all.1, ?_⟩
    intro c member
    exact of_decide_eq_true (List.all_eq_true.mp all.2 c member)
  · refine ⟨by simpa using (Bool.and_eq_true_iff.mp digits).1, ?_⟩
    intro c member
    exact solid_of_isIdentRest (isIdentRest_of_isDigits digits c member)
  · obtain ⟨first, rest, opening, _⟩ := isIdentifier_opening identifier
    refine ⟨opening ▸ List.cons_ne_nil _ _, ?_⟩
    intro c member
    exact solid_of_isIdentRest (isIdentRest_of_isIdentifier identifier c member)

theorem Ordinary.text_semicolon {token : Token} (ordinary : token.Ordinary) : token.text = ";" ↔ token.kind = .semicolon := by
  constructor
  · intro text
    apply Decidable.byContradiction
    intro other
    have solid := (ordinary.solid other).2 ';'
    rw [text] at solid
    exact (solid (by decide)).1 rfl
  · intro semicolon
    rcases ordinary with ⟨_, _, simple⟩ | ⟨constant, _⟩ | ⟨named, _⟩
    · rw [simple, semicolon]
      rfl
    · cases constant.symm.trans semicolon
    · cases named.symm.trans semicolon

end Token

def Text.Blank (text : String) : Prop := ∀ c ∈ text.toList, isBlank c = true

-- A token and the blanks behind it, in front of the next ones.
def Token.Parted (left right : Token × String) : Prop :=
  left.2 ≠ "" ∨ left.1.kind = .semicolon ∨ right.1.kind = .semicolon

-- Ordinary tokens, each with the blanks behind it, and the blanks in front of all. Only beside a semicolon two
-- tokens may touch.
structure Layout where
  lead : String
  items : List (Token × String)
  ordinary : ∀ item ∈ items, item.1.Ordinary
  leading : Text.Blank lead
  trailing : ∀ item ∈ items, Text.Blank item.2
  parted : items.IsChain Token.Parted

namespace Layout

def shown : List (Token × String) → String
  | [] => ""
  | (token, gap) :: rest => token.text ++ gap ++ shown rest

def text (layout : Layout) : String := layout.lead ++ shown layout.items

def tokens (layout : Layout) : List Token := layout.items.map Prod.fst

end Layout

namespace Lexeme

-- Where an open lexeme ends.
def Boundary : List Char → Prop
  | [] => True
  | c :: _ => c = ';' ∨ Text.isBlank c = true

theorem cut_boundary (current : List Char) {rest : List Char} (boundary : Boundary rest) :
    cut current rest = close current ++ cut [] rest := by
  cases rest with
  | nil => simp [cut, close]
  | cons c rest =>
    rcases boundary with semicolon | blank
    · subst semicolon
      rw [cut_semicolon, cut_semicolon]
      rfl
    · rw [cut_blank blank, cut_blank blank]
      rfl

theorem cut_blanks {gap : List Char} (blank : ∀ c ∈ gap, Text.isBlank c = true) (rest : List Char) :
    cut [] (gap ++ rest) = cut [] rest := by
  induction gap with
  | nil => rfl
  | cons c gap ih =>
    obtain ⟨first, others⟩ := List.forall_mem_cons.mp blank
    rw [List.cons_append, cut_blank first, ih others]
    rfl

theorem cut_solids {word : List Char} (solid : ∀ c ∈ word, Token.Solid c) (current rest : List Char) :
    cut current (word ++ rest) = cut (word.reverse ++ current) rest := by
  induction word generalizing current with
  | nil => rfl
  | cons c word ih =>
    obtain ⟨first, others⟩ := List.forall_mem_cons.mp solid
    rw [List.cons_append, cut_solid first.1 first.2, ih others, List.reverse_cons, List.append_assoc,
      List.singleton_append]

theorem cut_text {token : Token} (ordinary : token.Ordinary) {rest : List Char}
    (parted : token.kind = .semicolon ∨ Boundary rest) :
    cut [] (token.text.toList ++ rest) = token.text :: cut [] rest := by
  by_cases semicolon : token.kind = .semicolon
  · rw [ordinary.text_semicolon.mpr semicolon]
    exact cut_semicolon [] rest
  · obtain ⟨some, solid⟩ := ordinary.solid semicolon
    rw [cut_solids solid, List.append_nil, cut_boundary _ (parted.resolve_left semicolon)]
    simp [close, some]

theorem boundary_behind {token : Token} {gap : String} {rest : List (Token × String)} (blank : Text.Blank gap)
    (ordinary : ∀ item ∈ rest, item.1.Ordinary) (parted : ((token, gap) :: rest).IsChain Token.Parted) :
    token.kind = .semicolon ∨ Boundary (gap.toList ++ (Layout.shown rest).toList) := by
  cases opening : gap.toList with
  | cons c others => exact .inr (.inr (blank c (by simp [opening])))
  | nil =>
    obtain rfl : gap = "" := String.toList_inj.mp opening
    cases rest with
    | nil => exact .inr trivial
    | cons next rest =>
      rcases (List.isChain_cons_cons.mp parted).1 with spaced | semicolon | semicolon
      · exact absurd rfl spaced
      · exact .inl semicolon
      · have text := (ordinary next List.mem_cons_self).text_semicolon.mpr semicolon
        refine .inr ?_
        simp [Layout.shown, text, Boundary]

theorem cut_shown {items : List (Token × String)} (ordinary : ∀ item ∈ items, item.1.Ordinary)
    (trailing : ∀ item ∈ items, Text.Blank item.2) (parted : items.IsChain Token.Parted) :
    cut [] (Layout.shown items).toList = (items.map Prod.fst).map Token.text := by
  induction items with
  | nil => rfl
  | cons item rest ih =>
    obtain ⟨token, gap⟩ := item
    obtain ⟨first, others⟩ := List.forall_mem_cons.mp ordinary
    obtain ⟨blank, blanks⟩ := List.forall_mem_cons.mp trailing
    have behind := boundary_behind blank others parted
    rw [Layout.shown, String.toList_append, String.toList_append, List.append_assoc, cut_text first behind,
      cut_blanks blank, ih others blanks parted.tail]
    rfl

-- The open lexeme goes on to the next boundary.
theorem cut_open (c : Char) (current rest : List Char) : ∃ more left, rest = more ++ left ∧ Boundary left ∧
    cut (c :: current) rest = String.ofList ((c :: current).reverse ++ more) :: cut [] left := by
  induction rest generalizing c current with
  | nil => exact ⟨[], [], rfl, trivial, by simp [cut, close]⟩
  | cons d rest ih =>
    by_cases solid : Token.Solid d
    · obtain ⟨more, left, split, boundary, whole⟩ := ih d (c :: current)
      refine ⟨d :: more, left, by rw [split, List.cons_append], boundary, ?_⟩
      rw [cut_solid solid.1 solid.2, whole]
      simp
    · have boundary : Boundary (d :: rest) := by
        simpa [Token.Solid, Boundary, or_iff_not_imp_left] using solid
      refine ⟨[], d :: rest, rfl, boundary, ?_⟩
      rw [cut_boundary _ boundary]
      simp [close]

theorem cut_eq_nil {cs : List Char} (none : cut [] cs = []) : ∀ c ∈ cs, Text.isBlank c = true := by
  induction cs with
  | nil => nofun
  | cons c rest ih =>
    by_cases semicolon : c = ';'
    · subst semicolon
      simp [cut_semicolon] at none
    · cases blank : Text.isBlank c with
      | true =>
        rw [cut_blank blank] at none
        exact List.forall_mem_cons.mpr ⟨blank, ih none⟩
      | false =>
        obtain ⟨_, _, _, _, some⟩ := cut_open c [] rest
        rw [cut_solid semicolon blank, some] at none
        cases none

-- The first lexeme of a text, with the blanks in front of it and the text behind it.
theorem cut_eq_cons {cs : List Char} {first : String} {others : List String} (lexemes : cut [] cs = first :: others) :
    ∃ lead rest, cs = lead ++ (first.toList ++ rest) ∧ (∀ c ∈ lead, Text.isBlank c = true) ∧ cut [] rest = others ∧
      (first = ";" ∨ Boundary rest) := by
  induction cs with
  | nil => cases lexemes
  | cons c rest ih =>
    by_cases semicolon : c = ';'
    · subst semicolon
      rw [cut_semicolon] at lexemes
      cases lexemes
      exact ⟨[], rest, rfl, nofun, rfl, .inl rfl⟩
    · cases blank : Text.isBlank c with
      | true =>
        rw [cut_blank blank] at lexemes
        obtain ⟨lead, behind, split, blanks, remaining, parted⟩ := ih lexemes
        exact ⟨c :: lead, behind, by rw [split, List.cons_append], List.forall_mem_cons.mpr ⟨blank, blanks⟩, remaining,
          parted⟩
      | false =>
        obtain ⟨more, left, split, boundary, whole⟩ := cut_open c [] rest
        rw [cut_solid semicolon blank, whole] at lexemes
        cases lexemes
        exact ⟨[], left, by simp [split], nofun, rfl, .inr boundary⟩

end Lexeme

namespace Layout

theorem cut_text (layout : Layout) : Lexeme.cut [] layout.text.toList = layout.tokens.map Token.text := by
  rw [text, String.toList_append, Lexeme.cut_blanks layout.leading]
  exact Lexeme.cut_shown layout.ordinary layout.trailing layout.parted

-- A text behind a token that does not touch the next one unless a semicolon is among them.
theorem parted_cons {token : Token} {layout : Layout} (ordinary : token.Ordinary)
    (boundary : token.text = ";" ∨ Lexeme.Boundary layout.text.toList) :
    ((token, layout.lead) :: layout.items).IsChain Token.Parted := by
  cases held : layout.items with
  | nil => exact List.isChain_singleton _
  | cons next rest =>
    refine List.isChain_cons_cons.mpr ⟨?_, held ▸ layout.parted⟩
    rcases boundary with semicolon | boundary
    · exact .inr (.inl (ordinary.text_semicolon.mp semicolon))
    · by_cases spaced : layout.lead = ""
      · refine .inr (.inr (Decidable.byContradiction fun other => ?_))
        -- The next token then begins the text, but its first character is no boundary.
        obtain ⟨some, solid⟩ := (layout.ordinary next (held ▸ List.mem_cons_self)).solid other
        obtain ⟨c, others, opening⟩ := List.exists_cons_of_ne_nil some
        rw [text, spaced, held, shown, String.empty_append, String.toList_append, String.toList_append, opening] at boundary
        obtain ⟨notSemicolon, notBlank⟩ := solid c (opening ▸ List.mem_cons_self)
        rcases boundary with semicolon | blank
        · exact notSemicolon semicolon
        · cases notBlank.symm.trans blank
      · exact .inl spaced

theorem exists_of_cut {word : List Token} (ordinary : ∀ token ∈ word, token.Ordinary) {cs : List Char}
    (lexemes : Lexeme.cut [] cs = word.map Token.text) :
    ∃ layout : Layout, layout.text.toList = cs ∧ layout.tokens = word := by
  induction word generalizing cs with
  | nil =>
    refine ⟨⟨String.ofList cs, [], nofun, ?_, nofun, List.isChain_nil⟩, ?_, rfl⟩
    · simpa [Text.Blank] using Lexeme.cut_eq_nil lexemes
    · simp [text, shown]
  | cons token others ih =>
    obtain ⟨first, later⟩ := List.forall_mem_cons.mp ordinary
    obtain ⟨lead, rest, split, blank, remaining, boundary⟩ := Lexeme.cut_eq_cons lexemes
    obtain ⟨behind, same, tokens⟩ := ih later remaining
    rw [← same] at boundary
    refine ⟨⟨String.ofList lead, (token, behind.lead) :: behind.items, ?_, ?_, ?_, parted_cons first boundary⟩, ?_, ?_⟩
    · exact List.forall_mem_cons.mpr ⟨first, behind.ordinary⟩
    · simpa [Text.Blank] using blank
    · exact List.forall_mem_cons.mpr ⟨behind.leading, behind.trailing⟩
    · rw [split, ← same]
      simp [text, shown]
    · rw [← tokens]
      rfl

end Layout

-- Into any symbol table, a text scans to the tokens it lays out followed by the end marker; a text that lays out no
-- ordinary tokens does not scan.
theorem scan_eq_ok_iff_layout (symbols : SymbolTable) (source : String) (tokens : List Token) :
    (Scan.ofText symbols source).result = .ok tokens ↔
      ∃ layout : Layout, layout.text = source ∧ tokens = layout.tokens ++ [Token.eof] := by
  rw [Scan.result_eq_ok_iff]
  constructor
  · intro scanned
    obtain ⟨word, ends, lexemes, lexical⟩ := scanned
    obtain ⟨layout, text, same⟩ := Layout.exists_of_cut
      (fun token member => Token.lexical_iff_ordinary.mp (lexical token member)) lexemes
    exact ⟨layout, String.toList_inj.mp text, same ▸ ends⟩
  · intro laid
    obtain ⟨layout, text, ends⟩ := laid
    refine ⟨layout.tokens, ends, text ▸ layout.cut_text, ?_⟩
    intro token member
    obtain ⟨item, listed, same⟩ := List.mem_map.mp member
    exact Token.lexical_iff_ordinary.mpr (same ▸ layout.ordinary item listed)

end StraightLine
