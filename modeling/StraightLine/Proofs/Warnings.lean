import StraightLine.Proofs.Declarations
import StraightLine.Proofs.Replay

namespace StraightLine

namespace Log

def quiet (log : List Entry) : Bool := log.all fun entry => decide (entry.level ≠ .warn)

theorem quiet_append {first second : List Entry} :
    quiet (first ++ second) = true ↔ quiet first = true ∧ quiet second = true := by
  rw [quiet, List.all_append, Bool.and_eq_true]
  rfl

theorem quiet_map {α : Type} {report : α → Entry} (calm : ∀ a, quiet [report a] = true) (items : List α) :
    quiet (items.map report) = true := by
  induction items with
  | nil => rfl
  | cons first rest ih => exact quiet_append.mpr ⟨calm first, ih⟩

end Log

open Log (quiet)

namespace Logged

variable {ε α β : Type}

theorem quiet_bind {x : Logged ε α} {f : α → Logged ε β} (first : quiet x.log = true)
    (rest : ∀ a, x.outcome = .ok a → quiet (f a).log = true) : quiet (x >>= f).log = true := by
  cases done : x.outcome with
  | error e => rwa [log_bind_error x f done]
  | ok a =>
    rw [log_bind_ok x f done]
    exact Log.quiet_append.mpr ⟨first, rest a done⟩

end Logged

namespace Assembly

open Code (Variable Operand)

theorem quiet_acquire (file : RegisterFile) (v : Variable) (evictable : Variable → Bool) :
    quiet (file.acquire v evictable).log = true := by
  unfold RegisterFile.acquire
  split
  case h_1 => rfl
  case h_2 placement _ => cases placement <;> rfl

theorem quiet_sourceRegister (instr : Code.Instr) (rest : List Code.Instr) (file : RegisterFile) (operand : Operand) :
    quiet (sourceRegister instr rest file operand).log = true := by
  cases operand with
  | imm value => rfl
  | var v => exact quiet_acquire file v _

theorem quiet_resultRegister (rest : List Code.Instr) (file : RegisterFile) (result : Variable) :
    quiet (resultRegister rest file result).log = true :=
  quiet_acquire file result _

theorem quiet_select (file : RegisterFile) (instr : Code.Instr) (rest : List Code.Instr) :
    quiet (select file instr rest).log = true := by
  unfold select
  split
  case h_1 => exact Logged.quiet_bind (quiet_resultRegister rest file _) fun _ _ => rfl
  case h_2 | h_3 =>
    refine Logged.quiet_bind (quiet_sourceRegister _ rest file _) fun source _ => ?_
    exact Logged.quiet_bind (quiet_resultRegister rest source.2 _) fun _ _ => rfl
  case h_4 =>
    refine Logged.quiet_bind (quiet_sourceRegister _ rest file _) fun first _ => ?_
    refine Logged.quiet_bind (quiet_sourceRegister _ rest first.2 _) fun second _ => ?_
    exact Logged.quiet_bind (quiet_resultRegister rest second.2 _) fun _ _ => rfl
  case h_5 => rfl
  case h_6 => exact Logged.quiet_bind (quiet_sourceRegister _ rest file _) fun _ _ => rfl

theorem quiet_selectAll (file : RegisterFile) (code : List Code.Instr) : quiet (selectAll file code).log = true := by
  induction code generalizing file with
  | nil => rfl
  | cons instr rest ih =>
    refine Logged.quiet_bind (quiet_select file instr rest) fun pair _ => ?_
    refine Logged.quiet_bind rfl fun _ _ => ?_
    exact Logged.quiet_bind (ih pair.2) fun _ _ => rfl

theorem quiet_lower (code : List Code.Instr) : quiet (lower code).log = true := by
  have normalized : quiet (normalize code).log = true := by
    unfold normalize
    split <;> rfl
  refine Logged.quiet_bind normalized fun normal _ => ?_
  refine Logged.quiet_bind (quiet_selectAll .empty normal) fun program _ => ?_
  exact Logged.quiet_bind rfl fun _ _ => rfl

end Assembly

namespace ParseTree

mutual

theorem shift_mem_walk (tree : ParseTree) {token : Token} (member : .shift token ∈ tree.walk) : token ∈ tree.leaves := by
  match tree with
  | .leaf other =>
    cases List.mem_singleton.mp member
    exact List.mem_singleton_self _
  | .node rule children =>
    rcases List.mem_append.mp member with inside | last
    · exact shift_mem_walkAll children inside
    · cases List.mem_singleton.mp last

theorem shift_mem_walkAll (trees : List ParseTree) {token : Token} (member : .shift token ∈ walkAll trees) :
    token ∈ leavesAll trees := by
  match trees with
  | [] => cases member
  | tree :: rest =>
    rcases List.mem_append.mp member with first | later
    · exact List.mem_append_left _ (shift_mem_walk tree first)
    · exact List.mem_append_right _ (shift_mem_walkAll rest later)

end

-- The only accept comes last.
theorem walk_of_accept {tree : ParseTree} {before after : List Event}
    (split : tree.events = before ++ .accept :: after) : before = tree.walk := by
  rcases List.eq_nil_or_concat after with rfl | ⟨others, last, rfl⟩
  · exact (List.append_cancel_right split).symm
  · rw [List.concat_eq_append, ← List.cons_append, ← List.append_assoc] at split
    obtain ⟨walked, _⟩ := List.append_inj' split rfl
    have inside : .accept ∈ tree.walk := by
      rw [walked]
      exact List.mem_append_right _ List.mem_cons_self
    rcases Event.mem_walk tree inside with ⟨_, same⟩ | ⟨_, same⟩ <;> cases same

end ParseTree

namespace Source

theorem quiet_analyse (text : String) : quiet (analyse text).log = true := by
  refine Logged.quiet_bind (Log.quiet_map (fun _ => rfl) _) fun _ _ => ?_
  refine Logged.quiet_bind rfl fun tokens _ => ?_
  refine Logged.quiet_bind rfl fun _ _ => ?_
  refine Logged.quiet_bind rfl fun tree _ => ?_
  exact Logged.quiet_bind rfl fun _ _ => rfl

theorem has_leaf {text : String} {source : Source} (analysed : (analyse text).outcome = .ok source) {token : Token}
    (leaf : token ∈ source.tree.leaves) (named : token.kind = .ident) : source.symbols.has token.text = true := by
  apply (has_analyse analysed token.text).mpr
  rw [analyse_tokens analysed, ← named]
  exact List.mem_append_left _ leaf

end Source

namespace Code.Generator

variable {generator : Generator} {symbols : SymbolTable}

theorem quiet_shift {token : Token} (known : token.kind = .ident → symbols.has token.text = true) :
    quiet (generator.shift symbols token).log = true := by
  unfold shift
  split
  case h_1 => rfl
  case h_2 =>
    split
    case isTrue => rfl
    case isFalse =>
      have registered : ¬ (token.kind = .ident ∧ symbols.has token.text = false) := by
        intro missing
        rw [known missing.1] at missing
        cases missing.2
      dsimp only
      rw [if_neg registered]
      rfl

theorem quiet_reduce {production : Production} {rule : Rule} (known : production.rule? = some rule) :
    quiet (generator.reduce production).log = true := by
  unfold reduce
  simp only [known]
  split
  case isFalse => rfl
  case isTrue =>
    unfold reduceBody
    split
    case isTrue => rfl
    case isFalse =>
      dsimp only
      split
      case h_1 => rfl
      case h_2 reduction _ =>
        exact Log.quiet_append.mpr ⟨Log.quiet_map (fun _ => rfl) reduction.code, rfl⟩

theorem quiet_accept (single : generator.stack.length = 1) : quiet generator.accept.log = true := by
  unfold accept
  simp only [single, if_true, List.nil_append]
  split <;> rfl

-- What the events may hold and how many symbols an accept may find, for the generator to have nothing to warn of.
structure Calm (generator : Generator) (symbols : SymbolTable) (events : List Event) : Prop where
  shifted : ∀ token, .shift token ∈ events → token.kind = .ident → symbols.has token.text = true
  reduced : ∀ production, .reduce production ∈ events → ∃ rule, production.rule? = some rule
  accepted : ∀ before after reached, events = before ++ .accept :: after →
    (generator.feed symbols before).outcome = .ok reached → reached.stack.length = 1

theorem Calm.quiet_handle {event : Event} {rest : List Event} (calm : generator.Calm symbols (event :: rest)) :
    quiet (generator.handle symbols event).log = true := by
  unfold handle
  split
  case isTrue => rfl
  case isFalse =>
    cases event with
    | shift token => exact quiet_shift (calm.shifted token List.mem_cons_self)
    | reduce production =>
      obtain ⟨rule, known⟩ := calm.reduced production List.mem_cons_self
      exact quiet_reduce known
    | accept => exact quiet_accept (calm.accepted [] rest generator rfl rfl)

theorem Calm.rest {event : Event} {rest : List Event} (calm : generator.Calm symbols (event :: rest))
    (handled : (generator.handle symbols event).result = .ok ()) :
    (generator.handle symbols event).after.Calm symbols rest := by
  refine ⟨?_, ?_, ?_⟩
  · intro token member
    exact calm.shifted token (List.mem_cons_of_mem _ member)
  · intro production member
    exact calm.reduced production (List.mem_cons_of_mem _ member)
  · intro before after reached split fed
    refine calm.accepted (event :: before) after reached (by rw [split, List.cons_append]) ?_
    rw [feed_cons, handled]
    exact fed

theorem Calm.quiet_feed {events : List Event} (calm : generator.Calm symbols events) :
    quiet (generator.feed symbols events).log = true := by
  induction events generalizing generator with
  | nil => rfl
  | cons event rest ih =>
    refine Logged.quiet_bind calm.quiet_handle fun _ _ => ?_
    refine Logged.quiet_bind rfl fun _ handled => ?_
    exact ih (calm.rest handled)

-- A program has no value, so the symbol that stands for it carries none.
theorem stack_of_walk {tree : ParseTree} (derivation : Derivation .program tree)
    (lexical : ∀ token ∈ tree.leaves, token.Lexical) {reached : Generator}
    (fed : (feed {} symbols tree.walk).outcome = .ok reached) : reached.stack = [.nonterminal .program none] := by
  have taken := takes_derivation derivation {} symbols [] rfl lexical
  rw [List.append_nil, fed] at taken
  obtain ⟨_, _, final⟩ := Logged.bind_eq_ok_iff.mp taken.symm
  cases final
  exact congrArg (fun symbol => [symbol]) (symbol_derivation derivation 0)

end Code.Generator

namespace Source

open Code (Generator)

-- The scanner registers every name it hands on, a walk reduces by rules only, and one symbol is left of a program.
theorem calm_events {text : String} {source : Source} (analysed : (analyse text).outcome = .ok source) :
    Generator.Calm {} source.symbols source.tree.events := by
  obtain ⟨_, derivation, lexical⟩ := analyse_eq_ok analysed
  refine ⟨?_, ?_, ?_⟩
  · intro token member named
    rcases List.mem_append.mp member with walked | last
    · exact has_leaf analysed (ParseTree.shift_mem_walk source.tree walked) named
    · cases List.mem_singleton.mp last
  · intro production member
    obtain ⟨rule, rfl⟩ := (Event.reported_events source.tree).reduced production member
    exact ⟨rule, Production.rule?_production rule⟩
  · intro before after reached split fed
    rw [ParseTree.walk_of_accept split] at fed
    rw [Generator.stack_of_walk derivation lexical fed]
    rfl

theorem quiet_generate {text : String} {source : Source} (analysed : (analyse text).outcome = .ok source) :
    quiet (Code.ofEvents source.symbols source.tree.events).log = true :=
  Logged.quiet_bind (calm_events analysed).quiet_feed fun _ _ => rfl

end Source

theorem quiet_compile (text : String) : quiet (compile text).log = true := by
  refine Logged.quiet_bind (Source.quiet_analyse text) fun source analysed => ?_
  have generated := Source.quiet_generate (Logged.mapError_eq_ok_iff.mp analysed)
  have object : quiet (Object.ofEvents source.symbols source.tree.events).log = true :=
    Logged.quiet_bind generated fun code _ => Logged.quiet_bind (Assembly.quiet_lower code) fun _ _ => rfl
  exact Logged.quiet_bind object fun _ _ => rfl

theorem compile_never_warns (text : String) :
    (∀ entry ∈ (compile text).log, entry.level ≠ .warn) ∧
    ∀ source, (Source.analyse text).outcome = .ok source →
      (∀ token, .shift token ∈ source.tree.events → token.kind = .ident → source.symbols.has token.text = true) ∧
      (∀ production, .reduce production ∈ source.tree.events → ∃ rule, production.rule? = some rule) ∧
      ∀ before after reached, source.tree.events = before ++ .accept :: after →
        (Code.Generator.feed {} source.symbols before).outcome = .ok reached →
        reached.stack = [.nonterminal .program none] := by
  constructor
  · intro entry member
    exact of_decide_eq_true (List.all_eq_true.mp (quiet_compile text) entry member)
  · intro source analysed
    have calm := Source.calm_events analysed
    refine ⟨calm.shifted, calm.reduced, ?_⟩
    intro before after reached split fed
    obtain ⟨_, derivation, lexical⟩ := Source.analyse_eq_ok analysed
    rw [ParseTree.walk_of_accept split] at fed
    exact Code.Generator.stack_of_walk derivation lexical fed

-- One name declared and never used, one used and never declared.
def undeclared : String := "int a ; b = c + 1 ; return b ;"

theorem compile_never_warns_undeclared :
    ∃ source reached, (Source.analyse undeclared).outcome = .ok source ∧
      (Code.Generator.feed {} source.symbols source.tree.walk).outcome = .ok reached ∧
      reached.stack = [.nonterminal .program none] ∧ source.symbols.has "c" = true ∧
      ∀ entry ∈ (compile undeclared).log, entry.level ≠ .warn := by
  have evaluated : (Source.analyse undeclared).outcome.toOption.any (fun source =>
      (Code.Generator.feed {} source.symbols source.tree.walk).outcome.toOption.isSome &&
        decide (.shift ⟨.ident, "c"⟩ ∈ source.tree.events)) = true := by
    decide +kernel
  obtain ⟨source, analysed, holds⟩ := Logged.any_toOption evaluated
  obtain ⟨completes, shifted⟩ := Bool.and_eq_true_iff.mp holds
  obtain ⟨silent, facts⟩ := compile_never_warns undeclared
  obtain ⟨registered, _, accepted⟩ := facts source analysed
  cases fed : (Code.Generator.feed {} source.symbols source.tree.walk).outcome with
  | error failure =>
    rw [fed] at completes
    cases completes
  | ok reached =>
    refine ⟨source, reached, analysed, fed, accepted source.tree.walk [] reached rfl fed, ?_, silent⟩
    exact registered ⟨.ident, "c"⟩ (of_decide_eq_true shifted) rfl

end StraightLine
