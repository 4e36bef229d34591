import Mathlib.Data.List.Induction
import Mathlib.Data.List.TakeWhile
import StraightLine.ParseTree.Reader
import StraightLine.Proofs.Derivation

namespace StraightLine.ParseTree

namespace Pending

def leaves (pending : Pending) : List Token :=
  (match pending.sum with
    | none => []
    | some (_, left, operator) => left.leaves ++ [operator]) ++
  match pending.product with
  | none => []
  | some (left, star) => left.leaves ++ [star]

structure Sound (pending : Pending) : Prop where
  sum : ∀ rule left operator, pending.sum = some (rule, left, operator) → Derivation .expr left ∧
    (rule = .add ∧ operator.kind = .plus ∨ rule = .sub ∧ operator.kind = .minus)
  product : ∀ left star, pending.product = some (left, star) → Derivation .term left ∧ star.kind = .star

theorem sound_empty : Sound {} := ⟨nofun, nofun⟩

variable {pending : Pending} {factor : ParseTree}

theorem Sound.term (sound : pending.Sound) (derived : Derivation .factor factor) :
    Derivation .term (pending.term factor) := by
  unfold Pending.term
  split
  case h_1 => exact .termFactor derived
  case h_2 left star held =>
    obtain ⟨first, kind⟩ := sound.product left star held
    exact .mul first kind derived

theorem Sound.expr (sound : pending.Sound) (derived : Derivation .factor factor) :
    Derivation .expr (pending.expr factor) := by
  have term := sound.term derived
  unfold Pending.expr
  split
  case h_1 => exact .exprTerm term
  case h_2 rule left operator held =>
    obtain ⟨first, ⟨rfl, plus⟩ | ⟨rfl, minus⟩⟩ := sound.sum rule left operator held
    · exact .add first plus term
    · exact .sub first minus term

@[simp] theorem leaves_empty : leaves {} = [] := rfl

@[simp] theorem leaves_expr (pending : Pending) (factor : ParseTree) :
    (pending.expr factor).leaves = pending.leaves ++ factor.leaves := by
  obtain ⟨_ | ⟨rule, left, operator⟩, _ | ⟨inner, star⟩⟩ := pending <;>
    simp [Pending.expr, Pending.term, Pending.leaves, ParseTree.leaves, leavesAll]

@[simp] theorem leaves_sum (rule : Rule) (left : ParseTree) (operator : Token) :
    leaves ⟨some (rule, left, operator), none⟩ = left.leaves ++ [operator] := by
  simp [leaves]

@[simp] theorem leaves_product (pending : Pending) (factor : ParseTree) (star : Token) :
    leaves { pending with product := some (pending.term factor, star) } =
      pending.leaves ++ factor.leaves ++ [star] := by
  obtain ⟨_ | ⟨rule, left, operator⟩, _ | ⟨inner, star⟩⟩ := pending <;>
    simp [Pending.term, Pending.leaves, ParseTree.leaves, leavesAll]

theorem sound_sum {rule : Rule} {left : ParseTree} {operator : Token} (expr : Derivation .expr left)
    (kind : rule = .add ∧ operator.kind = .plus ∨ rule = .sub ∧ operator.kind = .minus) :
    Sound ⟨some (rule, left, operator), none⟩ := by
  refine ⟨?_, nofun⟩
  intro _ _ _ held
  cases held
  exact ⟨expr, kind⟩

theorem Sound.withProduct (sound : pending.Sound) (derived : Derivation .factor factor) {star : Token}
    (kind : star.kind = .star) : Sound { pending with product := some (pending.term factor, star) } := by
  refine ⟨sound.sum, ?_⟩
  intro _ _ held
  cases held
  exact ⟨sound.term derived, kind⟩

end Pending

namespace Enclosing

def leaves : Enclosing → List Token
  | .assign target equals => [target, equals]
  | .ret keyword => [keyword]
  | .group paren pending outer => outer.leaves ++ pending.leaves ++ [paren]

def Sound : Enclosing → Prop
  | .assign target equals => target.kind = .ident ∧ equals.kind = .assign
  | .ret keyword => keyword.kind = .ret
  | .group paren pending outer => paren.kind = .lparen ∧ pending.Sound ∧ outer.Sound

end Enclosing

namespace Position

def leaves : Position → List Token
  | .statement => []
  | .declaration type => [type]
  | .declared tree => tree.leaves
  | .target name => [name]
  | .operand enclosing pending => enclosing.leaves ++ pending.leaves
  | .operator enclosing pending factor => enclosing.leaves ++ pending.leaves ++ factor.leaves

def Sound : Position → Prop
  | .statement => True
  | .declaration type => type.kind = .int
  | .declared tree => Derivation .stmt tree
  | .target name => name.kind = .ident
  | .operand enclosing pending => enclosing.Sound ∧ pending.Sound
  | .operator enclosing pending factor => enclosing.Sound ∧ pending.Sound ∧ Derivation .factor factor

end Position

namespace Reader

-- Finished statements stand newest first, their leaves in the order they were read.
def finishedLeaves : List (ParseTree × Token) → List Token
  | [] => []
  | (statement, semicolon) :: earlier => finishedLeaves earlier ++ statement.leaves ++ [semicolon]

def leaves (reader : Reader) : List Token := finishedLeaves reader.finished ++ reader.position.leaves

structure Sound (reader : Reader) : Prop where
  finished : ∀ pair ∈ reader.finished, Derivation .stmt pair.1 ∧ pair.2.kind = .semicolon
  position : reader.position.Sound

theorem sound_empty : Sound {} := ⟨nofun, trivial⟩

variable {reader next : Reader} {token semicolon : Token} {statement list : ParseTree}
  {finished : List (ParseTree × Token)}

theorem Sound.finish (sound : reader.Sound) (derived : Derivation .stmt statement)
    (ends : semicolon.kind = .semicolon) : (reader.finish statement semicolon).Sound := by
  refine ⟨?_, trivial⟩
  intro pair member
  rcases List.mem_cons.mp member with rfl | earlier
  · exact ⟨derived, ends⟩
  · exact sound.finished pair earlier

theorem leaves_moveTo (position : Position) :
    (reader.moveTo position).leaves = finishedLeaves reader.finished ++ position.leaves := rfl

theorem leaves_finish : (reader.finish statement semicolon).leaves =
    finishedLeaves reader.finished ++ statement.leaves ++ [semicolon] := by
  simp [Reader.finish, leaves, finishedLeaves, Position.leaves]

-- One case for each move of the reader: the trees it holds stay derivations and it forgets no token.
theorem Sound.step (sound : reader.Sound) (stepped : reader.step token = some next) :
    next.Sound ∧ next.leaves = reader.leaves ++ [token] := by
  have settled := sound.position
  have read : reader.leaves = finishedLeaves reader.finished ++ reader.position.leaves := rfl
  unfold Reader.step at stepped
  split at stepped
  case h_16 => cases stepped
  all_goals
    rename_i held kind
    cases stepped
    rw [held] at settled read
    rw [read]
    refine ⟨?_, by simp [leaves_moveTo, leaves_finish, Position.leaves, Enclosing.leaves, ParseTree.leaves, leavesAll]⟩
  case h_1 => exact ⟨sound.finished, kind⟩
  case h_2 => exact ⟨sound.finished, kind, Pending.sound_empty⟩
  case h_3 => exact ⟨sound.finished, kind⟩
  case h_4 type _ _ => exact ⟨sound.finished, .declare (.intType settled) kind⟩
  case h_5 => exact sound.finish settled kind
  case h_6 => exact ⟨sound.finished, ⟨settled, kind⟩, Pending.sound_empty⟩
  case h_7 => exact ⟨sound.finished, ⟨kind, settled.2, settled.1⟩, Pending.sound_empty⟩
  case h_8 => exact ⟨sound.finished, settled.1, settled.2, .ident kind⟩
  case h_9 => exact ⟨sound.finished, settled.1, settled.2, .intConst kind⟩
  all_goals obtain ⟨enclosed, waiting, factored⟩ := settled
  case h_10 => exact ⟨sound.finished, enclosed, waiting.withProduct factored kind⟩
  case h_11 => exact ⟨sound.finished, enclosed, Pending.sound_sum (waiting.expr factored) (.inl ⟨rfl, kind⟩)⟩
  case h_12 => exact ⟨sound.finished, enclosed, Pending.sound_sum (waiting.expr factored) (.inr ⟨rfl, kind⟩)⟩
  case h_13 =>
    obtain ⟨opens, outside, outer⟩ := enclosed
    exact ⟨sound.finished, outer, outside, .paren opens (waiting.expr factored) kind⟩
  case h_14 => exact sound.finish (.assign enclosed.1 enclosed.2 (waiting.expr factored)) kind
  case h_15 => exact sound.finish (.ret enclosed (waiting.expr factored)) kind

-- The reader's moves over a whole token list; `run` adds the error of the first impossible move.
def steps (reader : Reader) : List Token → Option Reader
  | [] => some reader
  | token :: rest => (reader.step token).bind fun next => next.steps rest

theorem steps_append (reader : Reader) (first second : List Token) :
    reader.steps (first ++ second) = (reader.steps first).bind fun next => next.steps second := by
  induction first generalizing reader with
  | nil => rfl
  | cons token rest ih => simp [steps, ih, Option.bind_assoc]

theorem steps_trans {first second : List Token} {middle : Reader} (before : reader.steps first = some middle)
    (after : middle.steps second = some next) : reader.steps (first ++ second) = some next := by
  rw [steps_append, before, Option.bind_some, after]

theorem steps_cons {rest : List Token} {middle : Reader} (moved : reader.step token = some middle)
    (after : middle.steps rest = some next) : reader.steps (token :: rest) = some next := by
  rw [steps, moved, Option.bind_some, after]

theorem steps_singleton (moved : reader.step token = some next) : reader.steps [token] = some next :=
  steps_cons moved rfl

theorem run_eq_ok_iff (reader : Reader) (position : Nat) (tokens : List Token) (tree : ParseTree) :
    reader.run position tokens = .ok tree ↔ ∃ final, reader.steps tokens = some final ∧ final.program? = some tree := by
  induction tokens generalizing reader position with
  | nil =>
    cases read : reader.program? <;> simp [run, steps, read]
  | cons token rest ih =>
    cases moved : reader.step token with
    | none => simp [run, steps, moved]
    | some next => simp [run, steps, moved, ih]

theorem Sound.steps (sound : reader.Sound) {tokens : List Token} (stepped : reader.steps tokens = some next) :
    next.Sound ∧ next.leaves = reader.leaves ++ tokens := by
  induction tokens generalizing reader with
  | nil =>
    cases stepped
    exact ⟨sound, (List.append_nil _).symm⟩
  | cons token rest ih =>
    obtain ⟨middle, moved, remaining⟩ := Option.bind_eq_some_iff.mp stepped
    obtain ⟨settled, read⟩ := sound.step moved
    obtain ⟨final, readRest⟩ := ih settled remaining
    refine ⟨final, ?_⟩
    rw [readRest, read, List.append_assoc, List.singleton_append]

theorem statements_cons (pair : ParseTree × Token) {later : List (ParseTree × Token)}
    (joined : statements later = some list) :
    statements (later ++ [pair]) = some (.node .stmtListCons [pair.1, .leaf pair.2, list]) := by
  cases later with
  | nil => cases joined
  | cons last earlier =>
    cases joined
    simp [statements, List.foldl_append]

theorem finishedLeaves_append (later : List (ParseTree × Token)) (pair : ParseTree × Token) :
    finishedLeaves (later ++ [pair]) = pair.1.leaves ++ pair.2 :: finishedLeaves later := by
  induction later with
  | nil => simp [finishedLeaves]
  | cons last rest ih => simp [finishedLeaves, ih]

theorem statements_sound (derived : ∀ pair ∈ finished, Derivation .stmt pair.1 ∧ pair.2.kind = .semicolon)
    (joined : statements finished = some list) :
    Derivation .stmtList list ∧ list.leaves = finishedLeaves finished := by
  -- The oldest statement, which stands last, is the head of the list.
  induction finished using List.reverseRecOn generalizing list with
  | nil => cases joined
  | append_singleton later pair ih =>
    obtain ⟨first, ends⟩ := derived pair (by simp)
    cases rest : statements later with
    | none =>
      obtain rfl : later = [] := by cases later with
        | nil => rfl
        | cons last earlier => cases rest
      cases joined
      refine ⟨.stmtListLast first ends, ?_⟩
      simp [finishedLeaves, ParseTree.leaves, leavesAll]
    | some others =>
      obtain ⟨restDerived, restLeaves⟩ := ih (fun pair member => derived pair (by simp [member])) rest
      rw [statements_cons pair rest] at joined
      cases joined
      refine ⟨.stmtListCons first ends restDerived, ?_⟩
      simp [finishedLeaves_append, ParseTree.leaves, leavesAll, restLeaves]

theorem Sound.program? (sound : reader.Sound) {tree : ParseTree} (read : reader.program? = some tree) :
    Derivation .program tree ∧ tree.leaves = reader.leaves := by
  unfold Reader.program? at read
  split at read
  case h_2 => cases read
  case h_1 held =>
    obtain ⟨list, joined, rfl⟩ := Option.map_eq_some_iff.mp read
    obtain ⟨derived, leaves⟩ := statements_sound sound.finished joined
    refine ⟨.program derived, ?_⟩
    simp [ParseTree.leaves, leavesAll, leaves, Reader.leaves, held, Position.leaves]

end Reader

-- How the reader takes in the leaves of a derivation, by what the derivation is rooted at. A factor may stand after
-- any pending operators; a term is read where no product is pending and an expression where nothing is.
def Reads : Nonterminal → ParseTree → Prop
  | .start, _ => True
  | .program, tree => ∃ final, Reader.steps {} tree.leaves = some final ∧ final.program? = some tree
  | .stmtList, tree => ∃ later, Reader.statements later = some tree ∧ ∀ finished,
      Reader.steps ⟨finished, .statement⟩ tree.leaves = some ⟨later ++ finished, .statement⟩
  | .stmt, tree => ∀ finished semicolon, semicolon.kind = .semicolon →
      Reader.steps ⟨finished, .statement⟩ (tree.leaves ++ [semicolon]) = some ⟨(tree, semicolon) :: finished, .statement⟩
  | .decl, tree => ∃ type, tree = .node .intType [.leaf type] ∧ ∀ finished,
      Reader.steps ⟨finished, .statement⟩ tree.leaves = some ⟨finished, .declaration type⟩
  | .expr, tree => ∀ enclosing, ∃ pending factor, pending.expr factor = tree ∧ ∀ finished,
      Reader.steps ⟨finished, .operand enclosing {}⟩ tree.leaves = some ⟨finished, .operator enclosing pending factor⟩
  | .term, tree => ∀ enclosing sum, ∃ product factor, Pending.term ⟨sum, product⟩ factor = tree ∧ ∀ finished,
      Reader.steps ⟨finished, .operand enclosing ⟨sum, none⟩⟩ tree.leaves =
        some ⟨finished, .operator enclosing ⟨sum, product⟩ factor⟩
  | .factor, tree => ∀ enclosing pending finished,
      Reader.steps ⟨finished, .operand enclosing pending⟩ tree.leaves =
        some ⟨finished, .operator enclosing pending tree⟩

variable {head : Nonterminal} {tree : ParseTree}

theorem reads_sum {rule : Rule} {left right : ParseTree} {operator : Token}
    (kind : rule = .add ∧ operator.kind = .plus ∨ rule = .sub ∧ operator.kind = .minus)
    (readsLeft : Reads .expr left) (readsRight : Reads .term right) :
    Reads .expr (.node rule [left, .leaf operator, right]) := by
  intro enclosing
  obtain ⟨pending, factor, rfl, readLeft⟩ := readsLeft enclosing
  obtain ⟨product, last, rfl, readRight⟩ := readsRight enclosing (some (rule, pending.expr factor, operator))
  refine ⟨⟨some (rule, pending.expr factor, operator), product⟩, last, rfl, ?_⟩
  intro finished
  have moved : Reader.step ⟨finished, .operator enclosing pending factor⟩ operator =
      some ⟨finished, .operand enclosing ⟨some (rule, pending.expr factor, operator), none⟩⟩ := by
    rcases kind with ⟨rfl, kind⟩ | ⟨rfl, kind⟩ <;> simp [Reader.step, kind, Reader.moveTo]
  have whole := Reader.steps_trans (readLeft finished) (Reader.steps_cons moved (readRight finished))
  simpa [leaves, leavesAll] using whole

theorem reads_of_derivation (derivation : Derivation head tree) : Reads head tree := by
  induction derivation with
  | program statements reads =>
    obtain ⟨later, joined, read⟩ := reads
    refine ⟨_, by simpa [leaves, leavesAll] using read [], ?_⟩
    simp [Reader.program?, joined]
  | stmtListCons first ends others readsFirst readsOthers =>
    obtain ⟨later, joined, read⟩ := readsOthers
    refine ⟨_, Reader.statements_cons (_, _) joined, ?_⟩
    intro finished
    have whole := Reader.steps_trans (readsFirst finished _ ends) (read _)
    simpa [leaves, leavesAll] using whole
  | stmtListLast only ends reads =>
    refine ⟨[(_, _)], rfl, ?_⟩
    intro finished
    simpa [leaves, leavesAll] using reads finished _ ends
  | @declare _ name typed named reads =>
    obtain ⟨type, rfl, read⟩ := reads
    intro finished semicolon ends
    have moved : Reader.step ⟨finished, .declaration type⟩ name =
        some ⟨finished, .declared (.node .declare [.node .intType [.leaf type], .leaf name])⟩ := by
      simp [Reader.step, named, Reader.moveTo]
    have closed : Reader.step ⟨finished, .declared (.node .declare [.node .intType [.leaf type], .leaf name])⟩
        semicolon = some ⟨(.node .declare [.node .intType [.leaf type], .leaf name], semicolon) :: finished,
          .statement⟩ := by
      simp [Reader.step, ends, Reader.finish]
    have whole := Reader.steps_trans (read finished) (Reader.steps_cons moved (Reader.steps_singleton closed))
    simpa [leaves, leavesAll] using whole
  | intType int =>
    refine ⟨_, rfl, ?_⟩
    intro finished
    exact Reader.steps_singleton (by simp [Reader.step, int, Reader.moveTo])
  | @assign target equals source named assigned expr reads =>
    intro finished semicolon ends
    obtain ⟨pending, factor, rfl, read⟩ := reads (.assign target equals)
    have started : Reader.step ⟨finished, .statement⟩ target = some ⟨finished, .target target⟩ := by
      simp [Reader.step, named, Reader.moveTo]
    have moved : Reader.step ⟨finished, .target target⟩ equals =
        some ⟨finished, .operand (.assign target equals) {}⟩ := by
      simp [Reader.step, assigned, Reader.moveTo]
    have closed : Reader.step ⟨finished, .operator (.assign target equals) pending factor⟩ semicolon =
        some ⟨(.node .assign [.leaf target, .leaf equals, pending.expr factor], semicolon) :: finished, .statement⟩ := by
      simp [Reader.step, ends, Reader.finish]
    have whole := Reader.steps_cons started (Reader.steps_cons moved
      (Reader.steps_trans (read finished) (Reader.steps_singleton closed)))
    simpa [leaves, leavesAll] using whole
  | @ret keyword source returned expr reads =>
    intro finished semicolon ends
    obtain ⟨pending, factor, rfl, read⟩ := reads (.ret keyword)
    have started : Reader.step ⟨finished, .statement⟩ keyword = some ⟨finished, .operand (.ret keyword) {}⟩ := by
      simp [Reader.step, returned, Reader.moveTo]
    have closed : Reader.step ⟨finished, .operator (.ret keyword) pending factor⟩ semicolon =
        some ⟨(.node .ret [.leaf keyword, pending.expr factor], semicolon) :: finished, .statement⟩ := by
      simp [Reader.step, ends, Reader.finish]
    have whole := Reader.steps_cons started (Reader.steps_trans (read finished) (Reader.steps_singleton closed))
    simpa [leaves, leavesAll] using whole
  | add expr plus term readsExpr readsTerm => exact reads_sum (.inl ⟨rfl, plus⟩) readsExpr readsTerm
  | sub expr minus term readsExpr readsTerm => exact reads_sum (.inr ⟨rfl, minus⟩) readsExpr readsTerm
  | exprTerm term reads =>
    intro enclosing
    obtain ⟨product, factor, rfl, read⟩ := reads enclosing none
    refine ⟨⟨none, product⟩, factor, rfl, ?_⟩
    intro finished
    simpa [leaves, leavesAll] using read finished
  | @mul left right operator term star factor readsTerm readsFactor =>
    intro enclosing sum
    obtain ⟨product, last, rfl, read⟩ := readsTerm enclosing sum
    refine ⟨some (Pending.term ⟨sum, product⟩ last, operator), right, rfl, ?_⟩
    intro finished
    have moved : Reader.step ⟨finished, .operator enclosing ⟨sum, product⟩ last⟩ operator =
        some ⟨finished, .operand enclosing ⟨sum, some (Pending.term ⟨sum, product⟩ last, operator)⟩⟩ := by
      simp [Reader.step, star, Reader.moveTo]
    have whole := Reader.steps_trans (read finished) (Reader.steps_cons moved (readsFactor _ _ finished))
    simpa [leaves, leavesAll] using whole
  | @termFactor inner factor reads =>
    intro enclosing sum
    refine ⟨none, inner, rfl, ?_⟩
    intro finished
    simpa [leaves, leavesAll] using reads enclosing ⟨sum, none⟩ finished
  | @paren opening closing inner opens expr closes reads =>
    intro enclosing pending finished
    obtain ⟨inside, last, rfl, read⟩ := reads (.group opening pending enclosing)
    have opened : Reader.step ⟨finished, .operand enclosing pending⟩ opening =
        some ⟨finished, .operand (.group opening pending enclosing) {}⟩ := by
      simp [Reader.step, opens, Reader.moveTo]
    have closed : Reader.step ⟨finished, .operator (.group opening pending enclosing) inside last⟩ closing =
        some ⟨finished, .operator enclosing pending
          (.node .paren [.leaf opening, inside.expr last, .leaf closing])⟩ := by
      simp [Reader.step, closes, Reader.moveTo]
    have whole := Reader.steps_cons opened (Reader.steps_trans (read finished) (Reader.steps_singleton closed))
    simpa [leaves, leavesAll] using whole
  | ident named =>
    intro enclosing pending finished
    exact Reader.steps_singleton (by simp [Reader.step, named, Reader.moveTo])
  | intConst constant =>
    intro enclosing pending finished
    exact Reader.steps_singleton (by simp [Reader.step, constant, Reader.moveTo])

theorem ofTokens_eq_ok_iff (tokens : List Token) (tree : ParseTree) : ofTokens tokens = .ok tree ↔
    Derivation .program tree ∧ tree.leaves = tokens.takeWhile fun token => token.kind ≠ .eof := by
  rw [ofTokens, Reader.run_eq_ok_iff]
  constructor
  · rintro ⟨final, stepped, read⟩
    obtain ⟨sound, consumed⟩ := Reader.sound_empty.steps stepped
    obtain ⟨derived, leaves⟩ := sound.program? read
    exact ⟨derived, leaves.trans consumed⟩
  · rintro ⟨derived, leaves⟩
    obtain ⟨final, stepped, read⟩ := reads_of_derivation derived
    exact ⟨final, leaves ▸ stepped, read⟩

theorem ofTokens_leaves (derivation : Derivation .program tree) : ofTokens tree.leaves = .ok tree := by
  rw [ofTokens_eq_ok_iff]
  refine ⟨derivation, Eq.symm (List.takeWhile_eq_self_iff.mpr ?_)⟩
  -- The end marker is no terminal of the grammar, so nothing is cut off.
  simpa using derivation.leaf_kind

theorem leaves_injective {left right : ParseTree} (first : Derivation .program left)
    (second : Derivation .program right) (same : left.leaves = right.leaves) : left = right := by
  have read := ofTokens_leaves first
  rw [same, ofTokens_leaves second] at read
  cases read
  rfl

-- The language: what the derivation trees of a program read, left to right.
def Sentence (word : List Token) : Prop :=
  ∃ tree : ParseTree, tree.Derives (.nonterminal .program) ∧ tree.leaves = word

theorem ofTokens_exact (tokens : List Token) :
    (∀ tree, ofTokens tokens = .ok tree ↔ tree.Derives (.nonterminal .program) ∧
      tree.leaves = tokens.takeWhile fun token => token.kind ≠ .eof) ∧
    ((∃ tree, ofTokens tokens = .ok tree) ↔ Sentence (tokens.takeWhile fun token => token.kind ≠ .eof)) ∧
    ∀ left right : ParseTree, left.Derives (.nonterminal .program) → right.Derives (.nonterminal .program) →
      left.leaves = right.leaves → left = right := by
  have exactly : ∀ tree, ofTokens tokens = .ok tree ↔ tree.Derives (.nonterminal .program) ∧
      tree.leaves = tokens.takeWhile fun token => token.kind ≠ .eof := by
    intro tree
    rw [ofTokens_eq_ok_iff, Derivation.program_iff_derives]
  refine ⟨exactly, exists_congr exactly, ?_⟩
  intro left right first second same
  exact leaves_injective (Derivation.program_iff_derives.mpr first) (Derivation.program_iff_derives.mpr second) same

def identTerm (name : String) : ParseTree := .node .termFactor [.node .ident [.leaf ⟨.ident, name⟩]]

-- `return a - b - c ;` and a token behind the end marker: the differences are grouped from the left, and no other
-- derivation has these leaves.
theorem ofTokens_exact_differences :
    let minus := Token.ofKind .minus
    let word := [Token.ofKind .ret, ⟨.ident, "a"⟩, minus, ⟨.ident, "b"⟩, minus, ⟨.ident, "c"⟩, Token.ofKind .semicolon]
    let onLeft := ParseTree.node .sub [.node .exprTerm [identTerm "a"], .leaf minus, identTerm "b"]
    let tree := ParseTree.node .program [.node .stmtListLast
      [.node .ret [.leaf (Token.ofKind .ret), .node .sub [onLeft, .leaf minus, identTerm "c"]], .leaf (Token.ofKind .semicolon)]]
    ofTokens (word ++ [Token.eof, minus]) = .ok tree ∧
      ∀ other : ParseTree, other.Derives (.nonterminal .program) → other.leaves = word → other = tree := by
  intro minus word onLeft tree
  have parsed : ofTokens (word ++ [Token.eof, minus]) = .ok tree := rfl
  obtain ⟨exactly, _, unique⟩ := ofTokens_exact (word ++ [Token.eof, minus])
  obtain ⟨derived, leaves⟩ := (exactly tree).mp parsed
  refine ⟨parsed, ?_⟩
  intro other derives same
  exact unique other tree derives derived (same.trans leaves.symm)

end StraightLine.ParseTree
