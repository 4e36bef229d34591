import StraightLine.Proofs.Compilation
import StraightLine.Proofs.Lexemes
import StraightLine.Proofs.RegisterPressure

namespace StraightLine

namespace Code

theorem literalsFit_eq_error_iff {tokens : List Token} {error : GenerateError} :
    literalsFit tokens = .error error ↔ ∃ before token after, tokens = before ++ token :: after ∧
      token.oversized = true ∧ (∀ earlier ∈ before, earlier.oversized = false) ∧ error = .literalOutOfRange token.text := by
  induction tokens with
  | nil => simp [literalsFit]
  | cons first rest ih =>
    cases large : first.oversized with
    | true =>
      rw [literalsFit, large, if_pos rfl]
      constructor
      · intro same
        cases same
        exact ⟨[], first, rest, rfl, large, List.forall_mem_nil _, rfl⟩
      · intro found
        obtain ⟨before, token, after, split, _, fit, same⟩ := found
        cases before with
        | nil =>
          cases split
          rw [same]
        | cons head before =>
          cases split
          rw [fit first List.mem_cons_self] at large
          cases large
    | false =>
      rw [literalsFit, large, if_neg (by decide), ih]
      constructor
      · intro found
        obtain ⟨before, token, after, split, oversized, fit, same⟩ := found
        refine ⟨first :: before, token, after, by rw [split, List.cons_append], oversized, ?_, same⟩
        exact List.forall_mem_cons.mpr ⟨large, fit⟩
      · intro found
        obtain ⟨before, token, after, split, oversized, fit, same⟩ := found
        cases before with
        | nil =>
          cases split
          rw [large] at oversized
          cases oversized
        | cons head before =>
          cases split
          exact ⟨before, token, after, rfl, oversized, (List.forall_mem_cons.mp fit).2, same⟩

theorem exists_literalsFit_error_iff {tokens : List Token} :
    (∃ error, literalsFit tokens = .error error) ↔ ∃ token ∈ tokens, token.oversized = true := by
  induction tokens with
  | nil => simp [literalsFit]
  | cons first rest ih =>
    cases large : first.oversized <;> simp [literalsFit, large, ih]

-- Nothing at or above the limit is mentioned, and only so many immediates go through a temporary.
structure Within (limit loads : Nat) (code : List Instr) : Prop where
  mentioned : ∀ instr ∈ code, ∀ v ∈ instr.mentioned, v.bound ≤ limit
  loaded : (code.flatMap Instr.loads).length ≤ loads

namespace Within

variable {limit wider loads more : Nat} {first second : List Instr}

theorem nil : Within limit loads [] := ⟨nofun, Nat.zero_le _⟩

theorem append (here : Within limit loads first) (there : Within wider more second) (grows : limit ≤ wider) :
    Within wider (loads + more) (first ++ second) := by
  constructor
  · intro instr member v used
    rcases List.mem_append.mp member with earlier | later
    · exact Nat.le_trans (here.mentioned instr earlier v used) grows
    · exact there.mentioned instr later v used
  · have sum := Nat.add_le_add here.loaded there.loaded
    rwa [← List.length_append, ← List.flatMap_append] at sum

theorem singleton {instr : Instr} (bounded : ∀ v ∈ instr.mentioned, v.bound ≤ limit) (loaded : instr.loads.length ≤ loads) :
    Within limit loads [instr] := by
  constructor
  · intro other member
    rw [List.mem_singleton.mp member]
    exact bounded
  · simpa using loaded

theorem leavesRoom {code : List Instr} (within : Within limit loads code) (room : limit + loads < countLimit) :
    LeavesRoom code := by
  have unused : firstUnused code ≤ limit := by
    apply firstUnused_le_iff.mpr
    intro v listed
    obtain ⟨instr, member, used⟩ := List.mem_flatMap.mp listed
    exact within.mentioned instr member v used
  have loaded := within.loaded
  unfold LeavesRoom
  omega

end Within
end Code

namespace ParseTree

open Code (Within Instr)

variable {head : Nonterminal} {tree left right : ParseTree}

theorem within_operands {op : ArithOp} {temps : Nat} {first second : Nonterminal} (leftDerived : Derivation first left)
    (rightDerived : Derivation second right) (leftValued : first.valued = true) (rightValued : second.valued = true)
    (onLeft : Within (temps + left.operations) (2 * left.operations) (left.code temps))
    (onRight : Within (temps + left.operations + right.operations) (2 * right.operations)
      (right.code (temps + left.operations))) :
    Within (temps + (left.operations + right.operations + 1)) (2 * (left.operations + right.operations + 1))
      (left.code temps ++ right.code (temps + left.operations) ++ [operation op temps left right]) := by
  have last : Within (temps + (left.operations + right.operations + 1)) 2 [operation op temps left right] := by
    apply Within.singleton _ (Code.length_loads_le _)
    intro v used
    rcases List.mem_append.mp used with result | source
    · cases List.mem_singleton.mp result
      rw [Code.Variable.bound]
      omega
    · rcases Code.mem_reads_arith.mp source with here | here
      · have bound := (computes_derivation leftDerived leftValued temps).bounded v here
        omega
      · have bound := (computes_derivation rightDerived rightValued _).bounded v here
        omega
  have all := (onLeft.append onRight (by omega)).append last (by omega)
  rwa [show 2 * left.operations + 2 * right.operations + 2 = 2 * (left.operations + right.operations + 1) by omega]
    at all

-- A statement adds one instruction, which loads nothing.
theorem within_then {temps : Nat} {instr : Instr} (derivation : Derivation .expr tree)
    (inner : Within (temps + tree.operations) (2 * tree.operations) (tree.code temps))
    (sources : instr.sources = [tree.operand temps]) (named : ∀ v ∈ instr.result?, v.bound = 0)
    (loads : instr.loads = []) :
    Within (temps + tree.operations) (2 * tree.operations) (tree.code temps ++ [instr]) := by
  have last : Within (temps + tree.operations) 0 [instr] := by
    apply Within.singleton _ (by rw [loads]; exact Nat.le_refl 0)
    intro v used
    rcases List.mem_append.mp used with result | source
    · rw [named v (Option.mem_toList.mp result)]
      exact Nat.zero_le _
    · rw [Instr.reads, sources] at source
      obtain ⟨operand, member, same⟩ := List.mem_filterMap.mp source
      cases List.mem_singleton.mp member
      exact (computes_derivation derivation rfl temps).bounded v same
  exact inner.append last (Nat.le_refl _)

theorem within_code (derivation : Derivation head tree) (temps : Nat) :
    Within (temps + tree.operations) (2 * tree.operations) (tree.code temps) := by
  induction derivation generalizing temps with
  | program statements inner => exact inner temps
  | @stmtListCons statement rest _ first ends others one more =>
    have both := (one temps).append (more (temps + statement.operations)) (by omega)
    rw [Nat.add_assoc, ← Nat.mul_add] at both
    exact both
  | stmtListLast only ends one => exact one temps
  | declare typed named _ => exact .nil
  | intType int => exact .nil
  | assign named assigned expr inner =>
    apply within_then expr (inner temps) rfl _ rfl
    intro v result
    cases result
    rfl
  | ret returned expr inner => exact within_then expr (inner temps) rfl nofun rfl
  | add expr plus term one two => exact within_operands expr term rfl rfl (one temps) (two _)
  | sub expr minus term one two => exact within_operands expr term rfl rfl (one temps) (two _)
  | exprTerm term inner => exact inner temps
  | mul term star factor one two => exact within_operands term factor rfl rfl (one temps) (two _)
  | termFactor factor inner => exact inner temps
  | paren opens expr closes inner => exact inner temps
  | ident named => exact .nil
  | intConst constant => exact .nil

-- Every operation stands between two operands.
theorem operations_lt_leaves (derivation : Derivation head tree) : 2 * tree.operations < tree.leaves.length := by
  induction derivation <;> simp_all [operations, leaves, leavesAll] <;> omega

end ParseTree

namespace Assembly

theorem lower_eq_error {code : List Code.Instr} {error : LowerError} (failed : (lower code).outcome = .error error) :
    (∃ v, error = .registerExhausted v) ∨ error = .temporariesExhausted ∧ ¬ Code.LeavesRoom code := by
  cases done : Code.normalize? code with
  | none =>
    have short : (lower code).outcome = .error .temporariesExhausted := by
      simp only [lower, normalize, done, Logged.outcome_bind, Logged.outcome_fail]
      rfl
    rw [short] at failed
    cases failed
    refine .inr ⟨rfl, ?_⟩
    intro room
    obtain ⟨normal, normalized⟩ := Code.normalize?_of_room room
    rw [done] at normalized
    cases normalized
  | some normal =>
    have shapes := Code.normalizeFrom?_isNormal (Code.normalize?_from done)
    rw [lower_outcome done] at failed
    obtain ⟨next, _, same⟩ := (selectAll_error_iff_overfull shapes).mp failed
    exact .inl ⟨next.v, same⟩

end Assembly

-- What a user may be told: the text does not scan or parse, a literal is too large, or the registers do not suffice.
def CompileError.visible : CompileError → Bool
  | .source (.scan _) | .source (.parse _) => true
  | .object (.generate (.literalOutOfRange _)) => true
  | .object (.lower (.registerExhausted _)) => true
  | _ => false

-- Two to the power of 63: no text in memory has as many characters.
def Text.memoryLimit : Nat := 9223372036854775808

namespace Source

theorem leavesRoom_code {text : String} {source : Source} (analysed : (analyse text).outcome = .ok source)
    (held : text.length < Text.memoryLimit) : Code.LeavesRoom (source.tree.code 0) := by
  obtain ⟨scanned, derivation, _⟩ := analyse_eq_ok analysed
  have characters := Scan.length_le_of_result scanned
  have operands := ParseTree.operations_lt_leaves derivation
  apply (ParseTree.within_code derivation 0).leavesRoom
  unfold Text.memoryLimit at held
  unfold Code.countLimit
  omega

-- The end marker is no literal.
theorem generate_outcome {text : String} {source : Source} (analysed : (analyse text).outcome = .ok source) :
    (Code.ofEvents source.symbols source.tree.events).outcome =
      Code.literalsFit source.tokens >>= fun _ => .ok (source.tree.code 0) := by
  obtain ⟨_, derivation, lexical⟩ := analyse_eq_ok analysed
  rw [analyse_tokens analysed, Code.literalsFit_append, Code.ofEvents_derivation derivation lexical, bind_assoc]
  rfl

theorem generate_eq_error_iff {text : String} {source : Source} (analysed : (analyse text).outcome = .ok source)
    {error : Code.GenerateError} :
    (Code.ofEvents source.symbols source.tree.events).outcome = .error error ↔
      Code.literalsFit source.tokens = .error error := by
  rw [generate_outcome analysed, Logged.bind_eq_error_iff]
  constructor
  · intro failed
    rcases failed with large | ⟨_, _, returned⟩
    · exact large
    · cases returned
  · exact .inl

end Source

-- One case for each stage that may fail.
theorem compile_eq_error {text : String} {error : CompileError} (failed : (compile text).outcome = .error error) :
    error.visible = true ∨ error = .object (.lower .temporariesExhausted) ∧ Text.memoryLimit ≤ text.length := by
  simp only [compile, Object.ofEvents, Logged.outcome_bind, Logged.outcome_mapError, Logged.outcome_pure,
    Logged.bind_eq_error_iff, Logged.mapError_eq_error_iff, Logged.mapError_eq_ok_iff] at failed
  rcases failed with ⟨cause, _, same⟩ | ⟨source, analysed, ⟨_, stage, same⟩ | ⟨_, _, returned⟩⟩
  · subst same
    cases cause <;> exact .inl rfl
  · rcases stage with ⟨cause, generated, same'⟩ | ⟨code, generated, ⟨cause, lowered, same'⟩ | ⟨_, _, returned⟩⟩
    · obtain ⟨_, token, _, _, _, _, large⟩ :=
        Code.literalsFit_eq_error_iff.mp ((Source.generate_eq_error_iff analysed).mp generated)
      subst same' same large
      exact .inl rfl
    · obtain ⟨_, derivation, lexical⟩ := Source.analyse_eq_ok analysed
      have translated := code_of_ofEvents derivation lexical generated
      subst same' same
      rcases Assembly.lower_eq_error lowered with ⟨v, exhausted⟩ | ⟨exhausted, full⟩
      · subst exhausted
        exact .inl rfl
      · subst exhausted
        refine .inr ⟨rfl, Nat.le_of_not_lt ?_⟩
        intro held
        exact full (translated ▸ Source.leavesRoom_code analysed held)
    · cases returned
  · cases returned

-- Whatever fits in memory compiles or fails visibly, and the generator fails only at the leftmost oversized literal.
theorem compile_failures (text : String) :
    ((∃ compilation, (compile text).outcome = .ok compilation) ∨
      ∃ error, (compile text).outcome = .error error ∧ (error.visible = true ∨
        error = .object (.lower .temporariesExhausted) ∧ Text.memoryLimit ≤ text.length)) ∧
    ∀ source, (Source.analyse text).outcome = .ok source →
      ((∃ error, (Code.ofEvents source.symbols source.tree.events).outcome = .error error) ↔
        ∃ token ∈ source.tokens, token.oversized = true) ∧
      ∀ error, (Code.ofEvents source.symbols source.tree.events).outcome = .error error →
        ∃ before token after, source.tokens = before ++ token :: after ∧ token.oversized = true ∧
          (∀ earlier ∈ before, earlier.oversized = false) ∧ error = .literalOutOfRange token.text := by
  constructor
  · cases outcome : (compile text).outcome with
    | ok compilation => exact .inl ⟨compilation, rfl⟩
    | error error => exact .inr ⟨error, rfl, compile_eq_error outcome⟩
  · intro source analysed
    simp only [Source.generate_eq_error_iff analysed]
    exact ⟨Code.exists_literalsFit_error_iff, fun _ => Code.literalsFit_eq_error_iff.mp⟩

-- The largest literal that fits, then two that do not.
def oversizedLiterals : String := "a = 2147483647 ; return a * ( 2147483648 - 99999999999 ) ;"

theorem compile_failures_oversizedLiterals : ∃ source, (Source.analyse oversizedLiterals).outcome = .ok source ∧
    (Code.ofEvents source.symbols source.tree.events).outcome = .error (.literalOutOfRange "2147483648") ∧
    ∃ error, (compile oversizedLiterals).outcome = .error error ∧ error.visible = true := by
  have evaluated : (Source.analyse oversizedLiterals).outcome.toOption.any (fun source =>
      decide (source.tokens.find? Token.oversized = some ⟨.intConst, "2147483648"⟩)) = true := by
    decide +kernel
  have refused : (compile oversizedLiterals).outcome.toOption.isNone = true := by decide +kernel
  obtain ⟨source, analysed, holds⟩ := Logged.any_toOption evaluated
  have leftmost := of_decide_eq_true holds
  obtain ⟨outcomes, generated⟩ := compile_failures oversizedLiterals
  obtain ⟨fails, places⟩ := generated source analysed
  refine ⟨source, analysed, ?_, ?_⟩
  · obtain ⟨error, failed⟩ := fails.mpr ⟨_, List.mem_of_find?_eq_some leftmost, List.find?_some leftmost⟩
    obtain ⟨before, token, after, split, large, fit, same⟩ := places error failed
    have found : source.tokens.find? Token.oversized = some token := by
      rw [split]
      exact List.find?_eq_some_iff_append.mpr ⟨large, before, after, rfl, fun earlier member => by simp [fit earlier member]⟩
    rw [leftmost] at found
    cases found
    rw [failed, same]
  · rcases outcomes with ⟨compilation, compiled⟩ | ⟨error, failed, visible | ⟨_, huge⟩⟩
    · rw [compiled] at refused
      cases refused
    · exact ⟨error, failed, visible⟩
    · exact absurd huge (by decide +kernel)

end StraightLine
