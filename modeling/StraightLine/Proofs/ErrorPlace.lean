import Mathlib.Order.Bounds.Basic
import StraightLine.Proofs.Viability

namespace StraightLine

namespace ParseError

-- The texts between quotation marks; `held` is the one that is open.
def quoted (held : Option (List Char)) : List Char → List String
  | [] => []
  | c :: rest =>
    match held with
    | none => if c = '"' then quoted (some []) rest else quoted none rest
    | some name => if c = '"' then String.ofList name :: quoted none rest else quoted (some (name ++ [c])) rest

-- The kinds that a text names between quotation marks, all of which have to be names of kinds.
def ofListing? (text : String) : Option (List Token.Kind) := (quoted none text.toList).mapM Token.Kind.ofName?

theorem quoted_open {name : List Char} (absent : '"' ∉ name) (held rest : List Char) :
    quoted (some held) (name ++ '"' :: rest) = String.ofList (held ++ name) :: quoted none rest := by
  induction name generalizing held with
  | nil => rw [List.nil_append, List.append_nil, quoted, if_pos rfl]
  | cons c name ih =>
    obtain ⟨here, later⟩ := not_or.mp fun found => absent (List.mem_cons.mpr found)
    rw [List.cons_append, quoted, if_neg (Ne.symm here), ih later, List.append_assoc, List.singleton_append]

theorem quoted_between {text : List Char} (absent : '"' ∉ text) (rest : List Char) :
    quoted none (text ++ rest) = quoted none rest := by
  induction text with
  | nil => rfl
  | cons c text ih =>
    obtain ⟨here, later⟩ := not_or.mp fun found => absent (List.mem_cons.mpr found)
    rw [List.cons_append, quoted, if_neg (Ne.symm here), ih later]

theorem quoted_name (kind : Token.Kind) (rest : List Char) :
    quoted none ('"' :: (kind.name.toList ++ '"' :: rest)) = kind.name :: quoted none rest := by
  have absent : '"' ∉ kind.name.toList := by cases kind <;> decide
  rw [quoted, if_pos rfl, quoted_open absent, List.nil_append, String.ofList_toList]

theorem quoted_listing (kinds : List Token.Kind) :
    quoted none (listing kinds).toList = kinds.map Token.Kind.name := by
  fun_induction listing kinds with
  | case1 => rfl
  | case2 kind =>
    have shown : ("\"" ++ kind.name ++ "\"").toList = '"' :: (kind.name.toList ++ '"' :: []) := by simp
    rw [shown, quoted_name]
    rfl
  | case3 first last =>
    have shown : ("\"" ++ first.name ++ "\" or \"" ++ last.name ++ "\"").toList =
        '"' :: (first.name.toList ++ '"' :: (" or ".toList ++ '"' :: (last.name.toList ++ '"' :: []))) := by simp
    rw [shown, quoted_name, quoted_between (by decide), quoted_name]
    rfl
  | case4 kind rest _ _ ih =>
    have shown : ("\"" ++ kind.name ++ "\", " ++ listing rest).toList =
        '"' :: (kind.name.toList ++ '"' :: (", ".toList ++ (listing rest).toList)) := by simp
    rw [shown, quoted_name, quoted_between (by decide), ih]
    rfl

theorem ofListing?_listing (kinds : List Token.Kind) : ofListing? (listing kinds) = some kinds := by
  rw [ofListing?, quoted_listing]
  induction kinds with
  | nil => rfl
  | cons kind rest ih =>
    rw [List.map_cons, List.mapM_cons, Token.Kind.ofName?_name, ih]
    rfl

end ParseError

namespace ParseTree

def openings (word : List Token) : Nat := word.countP fun token => token.kind = .lparen

def closings (word : List Token) : Nat := word.countP fun token => token.kind = .rparen

theorem openings_append (first second : List Token) : openings (first ++ second) = openings first + openings second :=
  List.countP_append

theorem closings_append (first second : List Token) : closings (first ++ second) = closings first + closings second :=
  List.countP_append

theorem openings_derivation {head : Nonterminal} {tree : ParseTree} (derivation : Derivation head tree) :
    openings tree.leaves = closings tree.leaves := by
  induction derivation <;> simp_all [leaves, leavesAll, openings, closings]

theorem openings_operator {head : Nonterminal} {left : ParseTree} {operator : Token} (derivation : Derivation head left)
    (kind : operator.kind ≠ .lparen ∧ operator.kind ≠ .rparen) :
    openings (left.leaves ++ [operator]) = closings (left.leaves ++ [operator]) := by
  rw [openings_append, closings_append, openings_derivation derivation]
  simp [openings, closings, kind]

theorem openings_pending {pending : Pending} (sound : pending.Sound) :
    openings pending.leaves = closings pending.leaves := by
  obtain ⟨sum, product⟩ := pending
  unfold Pending.leaves
  rw [openings_append, closings_append]
  congr 1
  · cases sum with
    | none => rfl
    | some held =>
      obtain ⟨rule, left, operator⟩ := held
      obtain ⟨derivation, kind⟩ := sound.sum rule left operator rfl
      apply openings_operator derivation
      rcases kind with ⟨_, plus⟩ | ⟨_, minus⟩
      · simp [plus]
      · simp [minus]
  · cases product with
    | none => rfl
    | some held =>
      obtain ⟨left, star⟩ := held
      obtain ⟨derivation, kind⟩ := sound.product left star rfl
      apply openings_operator derivation
      simp [kind]

-- The parentheses open around the expression being read.
def Enclosing.depth : Enclosing → Nat
  | .assign _ _ | .ret _ => 0
  | .group _ _ outer => outer.depth + 1

theorem openings_enclosing {enclosing : Enclosing} (sound : enclosing.Sound) :
    openings enclosing.leaves = closings enclosing.leaves + enclosing.depth := by
  induction enclosing with
  | assign target equals =>
    obtain ⟨named, assigned⟩ := sound
    simp [Enclosing.leaves, Enclosing.depth, openings, closings, named, assigned]
  | ret keyword =>
    have returned : keyword.kind = .ret := sound
    simp [Enclosing.leaves, Enclosing.depth, openings, closings, returned]
  | group paren pending outer ih =>
    obtain ⟨opens, waiting, outside⟩ := sound
    have around := ih outside
    have between := openings_pending waiting
    have one : openings [paren] = 1 ∧ closings [paren] = 0 := by simp [openings, closings, opens]
    simp only [Enclosing.leaves, Enclosing.depth, openings_append, closings_append]
    omega

theorem openings_finished {finished : List (ParseTree × Token)}
    (derived : ∀ pair ∈ finished, Derivation .stmt pair.1 ∧ pair.2.kind = .semicolon) :
    openings (Reader.finishedLeaves finished) = closings (Reader.finishedLeaves finished) := by
  induction finished with
  | nil => rfl
  | cons pair earlier ih =>
    obtain ⟨statement, semicolon⟩ := pair
    obtain ⟨⟨derivation, kind⟩, others⟩ := List.forall_mem_cons.mp derived
    have ends : semicolon.kind = .semicolon := kind
    have newest : openings (statement.leaves ++ [semicolon]) = closings (statement.leaves ++ [semicolon]) :=
      openings_operator derivation (by simp [ends])
    rw [Reader.finishedLeaves, List.append_assoc, openings_append, closings_append, ih others, newest]

variable {word : List Token} {reader : Reader}

theorem openings_of_operator {enclosing : Enclosing} {pending : Pending} {factor : ParseTree}
    (read : Reader.steps {} word = some reader) (position : reader.position = .operator enclosing pending factor) :
    openings word = closings word + enclosing.depth := by
  obtain ⟨finished, _⟩ := reader
  subst position
  obtain ⟨sound, consumed⟩ := Reader.sound_empty.steps read
  have same : Reader.finishedLeaves finished ++ (enclosing.leaves ++ pending.leaves ++ factor.leaves) = word := consumed
  obtain ⟨enclosed, waiting, derivation⟩ := sound.position
  have before : openings (Reader.finishedLeaves finished) = closings (Reader.finishedLeaves finished) :=
    openings_finished sound.finished
  have around := openings_enclosing enclosed
  have between := openings_pending waiting
  have last := openings_derivation derivation
  rw [← same]
  simp only [openings_append, closings_append]
  omega

-- A `)` with no parenthesis open, or a semicolon inside one, right behind a complete operand.
def Miscloses (word : List Token) (offender : Token) : Prop :=
  EndsOperand word ∧ (offender.kind = .rparen ∧ openings word = closings word ∨
    offender.kind = .semicolon ∧ closings word < openings word)

-- What may be listed behind a word: each kind that some sentence goes on with, once and in the order of all kinds,
-- less the `*` where the offending token miscloses.
structure Expects (word : List Token) (offender : Option Token) (expected : List Token.Kind) : Prop where
  ordered : expected.Sublist Token.Kind.all
  members : ∀ token : Token, token.kind ∈ expected ↔
    Viable (word ++ [token]) ∧ ¬ (token.kind = .star ∧ ∃ wrong ∈ offender, Miscloses word wrong)

namespace Reader

theorem expected_sublist (reader : Reader) (offender : Option Token.Kind) :
    (reader.expected offender).Sublist Token.Kind.all := by
  unfold expected
  split
  case h_6 | h_7 => split <;> decide
  all_goals decide

-- The offending kind closes the wrong thing for the expression that has just got a complete operand.
def Misclosed (reader : Reader) (offender : Option Token.Kind) : Prop :=
  match reader.position with
  | .operator enclosing _ _ =>
    offender = some .rparen ∧ enclosing.depth = 0 ∨ offender = some .semicolon ∧ 0 < enclosing.depth
  | _ => False

theorem mem_expected (reader : Reader) (offender : Option Token.Kind) (token : Token) :
    token.kind ∈ reader.expected offender ↔
      (reader.step token).isSome = true ∧ ¬ (token.kind = .star ∧ reader.Misclosed offender) := by
  obtain ⟨finished, position⟩ := reader
  obtain ⟨kind, text⟩ := token
  cases position with
  | operator enclosing pending factor =>
    cases enclosing with
    | group paren outside outer =>
      by_cases wrong : offender = some .semicolon
      · cases kind <;> simp [expected, step, Misclosed, Enclosing.depth, wrong]
      · cases kind <;> simp [expected, step, Misclosed, Enclosing.depth, wrong]
    | assign _ _ | ret _ =>
      by_cases wrong : offender = some .rparen
      · cases kind <;> simp [expected, step, Misclosed, Enclosing.depth, wrong]
      · cases kind <;> simp [expected, step, Misclosed, Enclosing.depth, wrong]
  | statement | declaration _ | declared _ | target _ | operand _ _ => cases kind <;> simp [expected, step, Misclosed]

theorem operator_of_star {token : Token} (moves : (reader.step token).isSome = true) (star : token.kind = .star) :
    ∃ enclosing pending factor, reader.position = .operator enclosing pending factor := by
  obtain ⟨finished, position⟩ := reader
  cases position with
  | operator enclosing pending factor => exact ⟨enclosing, pending, factor, rfl⟩
  | _ => simp [step, star] at moves

-- How far a failed run came, and why it stopped there.
theorem run_eq_error {position : Nat} {tokens : List Token} {error : ParseError}
    (failed : reader.run position tokens = .error error) :
    (∃ before token after last, tokens = before ++ token :: after ∧ reader.steps before = some last ∧
      last.step token = none ∧
      error = .unexpected token (position + before.length) (last.expected (some token.kind))) ∨
    ∃ last, reader.steps tokens = some last ∧
      error = .endOfInput (position + tokens.length) (last.expected none) := by
  induction tokens generalizing reader position with
  | nil =>
    unfold run at failed
    split at failed
    case h_1 => cases failed
    case h_2 =>
      cases failed
      exact .inr ⟨reader, rfl, rfl⟩
  | cons token rest ih =>
    cases moved : reader.step token with
    | none =>
      rw [run, moved] at failed
      cases failed
      exact .inl ⟨[], token, rest, reader, rfl, rfl, moved, rfl⟩
    | some next =>
      rw [run, moved] at failed
      rcases ih failed with ⟨before, wrong, after, last, split, stepped, stuck, same⟩ | ⟨last, stepped, same⟩
      · refine .inl ⟨token :: before, wrong, after, last, by rw [split, List.cons_append], steps_cons moved stepped, stuck, ?_⟩
        rw [same, List.length_cons, Nat.add_assoc, Nat.add_comm 1]
      · refine .inr ⟨last, steps_cons moved stepped, ?_⟩
        rw [same, List.length_cons, Nat.add_assoc, Nat.add_comm 1]

end Reader

theorem misclosed_iff_miscloses {enclosing : Enclosing} {pending : Pending} {factor : ParseTree}
    (read : Reader.steps {} word = some reader) (position : reader.position = .operator enclosing pending factor)
    (offender : Option Token) :
    reader.Misclosed (offender.map Token.kind) ↔ ∃ wrong ∈ offender, Miscloses word wrong := by
  have ends := endsOperand_of_operator read position
  have count := openings_of_operator read position
  have outside : openings word = closings word ↔ enclosing.depth = 0 := by omega
  have inside : closings word < openings word ↔ 0 < enclosing.depth := by omega
  unfold Reader.Misclosed
  rw [position]
  cases offender with
  | none => simp
  | some wrong => simp [Miscloses, ends, outside, inside]

theorem expects_expected (read : Reader.steps {} word = some reader) (offender : Option Token) :
    Expects word offender (reader.expected (offender.map Token.kind)) := by
  refine ⟨reader.expected_sublist _, ?_⟩
  intro token
  rw [Reader.mem_expected, viable_append_iff_step read]
  apply and_congr_right
  intro moves
  apply not_congr
  apply and_congr_right
  intro star
  obtain ⟨enclosing, pending, factor, position⟩ := Reader.operator_of_star moves star
  exact misclosed_iff_miscloses read position offender

theorem viable_take (read : Reader.steps {} word = some reader) (count : Nat) : Viable (word.take count) := by
  have viable : Viable (word.take count ++ word.drop count) := by
    rw [List.take_append_drop]
    exact viable_iff_steps.mpr ⟨reader, read⟩
  exact viable.of_append

theorem isLeast_of_stuck {before : List Token} {token : Token} (after : List Token)
    (read : Reader.steps {} before = some reader) (stuck : reader.step token = none) :
    IsLeast {i | i < (before ++ token :: after).length ∧ ¬ Viable ((before ++ token :: after).take (i + 1))}
      before.length := by
  refine ⟨⟨?_, ?_⟩, ?_⟩
  · rw [List.length_append, List.length_cons]
    omega
  · have through : (before ++ token :: after).take (before.length + 1) = before ++ [token] := by
      rw [List.take_length_add_append]
      rfl
    rw [through, viable_append_iff_step read, stuck]
    simp
  · intro j member
    obtain ⟨_, impossible⟩ := member
    apply Nat.le_of_not_lt
    intro earlier
    apply impossible
    rw [List.take_append_of_le_length earlier]
    exact viable_take read (j + 1)

-- A rejected list fails at the least index up to which its tokens begin no sentence, or else at its end.
theorem ofTokens_error_place {tokens : List Token} {error : ParseError} (rejected : ofTokens tokens = .error error) :
    let word := tokens.takeWhile fun token => token.kind ≠ .eof
    (∀ i, IsLeast {i | i < word.length ∧ ¬ Viable (word.take (i + 1))} i →
      ∃ token expected, word[i]? = some token ∧ error = .unexpected token i expected ∧
        error.message = "Unrecognized token `" ++ token.render ++ "` found at " ++ i.repr ++ ":" ++ (i + 1).repr ++
          "\nExpected one of " ++ ParseError.listing expected ∧
        ParseError.ofListing? (ParseError.listing expected) = some expected ∧
        Expects (word.take i) (some token) expected) ∧
    ((∀ i < word.length, Viable (word.take (i + 1))) →
      ∃ expected, error = .endOfInput word.length expected ∧
        error.message = "Unrecognized EOF found at " ++ word.length.repr ++
          "\nExpected one of " ++ ParseError.listing expected ∧
        ParseError.ofListing? (ParseError.listing expected) = some expected ∧
        Expects word none expected) := by
  intro word
  rcases Reader.run_eq_error rejected with ⟨before, token, after, last, split, read, stuck, same⟩ | ⟨last, read, same⟩
  · have whole : word = before ++ token :: after := split
    have first := isLeast_of_stuck after read stuck
    rw [← whole] at first
    rw [Nat.zero_add] at same
    constructor
    · intro i least
      obtain rfl := least.unique first
      refine ⟨token, _, by rw [whole]; simp, same, by rw [same]; rfl, ParseError.ofListing?_listing _, ?_⟩
      rw [whole, List.take_left]
      exact expects_expected read (some token)
    · intro all
      exact absurd (all before.length first.1.1) first.1.2
  · rw [Nat.zero_add] at same
    constructor
    · intro i least
      exact absurd (viable_take read (i + 1)) least.1.2
    · intro _
      exact ⟨_, same, by rw [same]; rfl, ParseError.ofListing?_listing _, expects_expected read none⟩

-- `x = ( a ;`, where a `*` could follow `a` and is not listed.
def unclosed : List Token :=
  [⟨.ident, "x"⟩, Token.ofKind .assign, Token.ofKind .lparen, ⟨.ident, "a"⟩, Token.ofKind .semicolon, Token.eof]

theorem ofTokens_error_place_unclosed :
    ofTokens unclosed = .error (.unexpected (Token.ofKind .semicolon) 4 [.plus, .minus, .rparen]) ∧
    ParseError.ofListing? "\"+\", \"-\" or \")\"" = some [.plus, .minus, .rparen] ∧
    Expects (unclosed.take 4) (some (Token.ofKind .semicolon)) [.plus, .minus, .rparen] ∧
    Viable (unclosed.take 4 ++ [Token.ofKind .star]) := by
  have rejected : ofTokens unclosed =
      .error (.unexpected (Token.ofKind .semicolon) 4 [.plus, .minus, .rparen]) := rfl
  have read : Reader.steps {} (unclosed.take 4) = some ⟨[], .operator
      (.group (Token.ofKind .lparen) {} (.assign ⟨.ident, "x"⟩ (Token.ofKind .assign))) {}
      (.node .ident [.leaf ⟨.ident, "a"⟩])⟩ := rfl
  have least := isLeast_of_stuck [] read (show Reader.step _ (Token.ofKind .semicolon) = none from rfl)
  obtain ⟨token, expected, found, same, _, listed, expects⟩ := (ofTokens_error_place rejected).1 4 least
  cases same
  exact ⟨rejected, listed, expects, viable_iff_steps.mpr ⟨_, rfl⟩⟩

end ParseTree
end StraightLine
