import StraightLine.Assembly.Basic
import StraightLine.Grammar
import StraightLine.Text.Lines
import StraightLine.Text.Quoted

namespace StraightLine

namespace Log

inductive Level where
  | trace | debug | info | warn | error
  deriving DecidableEq

inductive Entry where
  | scanned (token : Token)
  | scannedAll (count : Nat)
  | parsed (tokens symbols : Nat)
  | unknownName (name : String)
  | shifted (token : Token) (value : Code.Operand)
  | unknownProduction (production : Production)
  | emitted (instr : Code.Instr)
  | reduced (production : Production) (value : Option Code.Operand)
  | surplus (symbols : Nat)
  | accepted (head : Nonterminal)
  | normalized (before after : Nat)
  | evicted (v : Code.Variable) (slot : Assembly.Slot)
  | bound (v : Code.Variable) (slot : Assembly.Slot)
  | selected (instr : Code.Instr) (selection : Assembly.Instr)
  | lowered (before after : Nat)
  | wrote (artifacts : Nat) (directory : String)
  deriving DecidableEq

namespace Level

def severity : Level → Nat
  | .trace => 0
  | .debug => 1
  | .info => 2
  | .warn => 3
  | .error => 4

def name : Level → String
  | .trace => "TRACE"
  | .debug => "DEBUG"
  | .info => "INFO"
  | .warn => "WARN"
  | .error => "ERROR"

-- All names at one width.
def padded : Level → String
  | .info => "INFO "
  | .warn => "WARN "
  | level => level.name

end Level

def renderVariable : Code.Variable → String
  | .named name => "Named(" ++ Text.quote name ++ ")"
  | .temp number => "Temp(" ++ number.repr ++ ")"

def renderValue : Option Code.Operand → String
  | none => "None"
  | some (.imm value) => "Some(Imm(" ++ Text.showInt32 value ++ "))"
  | some (.var v) => "Some(Var(" ++ renderVariable v ++ "))"

namespace Entry

def level : Entry → Level
  | .scanned _ | .shifted _ _ | .emitted _ | .reduced _ _ | .accepted _ | .evicted _ _ | .bound _ _ => .trace
  | .scannedAll _ | .normalized _ _ | .selected _ _ => .debug
  | .parsed _ _ | .lowered _ _ | .wrote _ _ => .info
  | .unknownName _ | .unknownProduction _ | .surplus _ => .warn

def origin : Entry → String
  | .scanned _ => "frontend::scanner"
  | .scannedAll _ | .parsed _ _ => "frontend"
  | .unknownName _ | .shifted _ _ | .unknownProduction _ | .emitted _ | .reduced _ _ | .surplus _
  | .accepted _ => "backend::tacky::generator"
  | .normalized _ _ => "backend::asm::normalize"
  | .evicted _ _ | .bound _ _ => "backend::asm::regalloc"
  | .selected _ _ => "backend::asm::tacky_to_asm"
  | .lowered _ _ => "backend::asm"
  | .wrote _ _ => "driver"

def message : Entry → String
  | .scanned token => "scanned " ++ token.render
  | .scannedAll count => "scanned " ++ count.repr ++ " tokens"
  | .parsed tokens symbols =>
    "front end done: " ++ tokens.repr ++ " tokens, " ++ symbols.repr ++ " symbols"
  | .unknownName name => "identifier `" ++ name ++ "` is not in the symbol table"
  | .shifted token value => "shift " ++ token.render ++ " => " ++ value.render
  | .unknownProduction production =>
    "no action for production " ++ production.render ++ ", discarding its children"
  | .emitted instr => "emit " ++ instr.render
  | .reduced production value => "reduce " ++ production.render ++ " => " ++ renderValue value
  | .surplus symbols => "accepted with " ++ symbols.repr ++ " symbols on the value stack"
  | .accepted head => "accept " ++ head.name
  | .normalized before after =>
    "normalized " ++ before.repr ++ " IR instructions into " ++ after.repr
  | .evicted v slot => "evict " ++ v.render ++ " from " ++ (Assembly.Register.t slot).name
  | .bound v slot => "bind " ++ v.render ++ " to " ++ (Assembly.Register.t slot).name
  | .selected instr selection => instr.render ++ " => " ++ selection.render
  | .lowered before after =>
    "lowered " ++ before.repr ++ " IR instructions to " ++ after.repr ++ " assembly instructions"
  | .wrote artifacts directory => "wrote " ++ artifacts.repr ++ " artifacts to " ++ directory

def render (entry : Entry) : String :=
  entry.level.name ++ " " ++ entry.origin ++ ": " ++ entry.message

-- As a line on the terminal; a message of several lines hangs.
def terminalLine (entry : Entry) : String :=
  "[" ++ entry.level.padded ++ " " ++ entry.origin ++ "] " ++ Text.hang "    " entry.message

end Entry

-- Without a threshold nothing is shown.
def atLeast (threshold : Option Level) (log : List Entry) : List Entry :=
  match threshold with
  | none => []
  | some level => log.filter fun entry => level.severity ≤ entry.level.severity

end Log

-- The reports stay whether the computation fails or not.
structure Logged (ε α : Type) where
  log : List Log.Entry
  outcome : Except ε α

namespace Logged

variable {ε ε' α β : Type}

protected def pure (a : α) : Logged ε α := ⟨[], .ok a⟩

protected def bind (x : Logged ε α) (f : α → Logged ε β) : Logged ε β :=
  match x.outcome with
  | .error e => ⟨x.log, .error e⟩
  | .ok a => ⟨x.log ++ (f a).log, (f a).outcome⟩

instance : Monad (Logged ε) where
  pure := Logged.pure
  bind := Logged.bind

def record (entries : List Log.Entry) : Logged ε Unit := ⟨entries, .ok ()⟩

def fail (error : ε) : Logged ε α := ⟨[], .error error⟩

def ofExcept (outcome : Except ε α) : Logged ε α := ⟨[], outcome⟩

def mapError (f : ε → ε') (x : Logged ε α) : Logged ε' α := ⟨x.log, x.outcome.mapError f⟩

@[simp] theorem outcome_pure (a : α) : (pure a : Logged ε α).outcome = .ok a := rfl

@[simp] theorem log_pure (a : α) : (pure a : Logged ε α).log = [] := rfl

@[simp] theorem outcome_record (entries : List Log.Entry) :
    (record entries : Logged ε Unit).outcome = .ok () := rfl

@[simp] theorem log_record (entries : List Log.Entry) : (record entries : Logged ε Unit).log = entries := rfl

@[simp] theorem outcome_fail (error : ε) : (fail error : Logged ε α).outcome = .error error := rfl

@[simp] theorem log_fail (error : ε) : (fail error : Logged ε α).log = [] := rfl

@[simp] theorem outcome_ofExcept (outcome : Except ε α) : (ofExcept outcome).outcome = outcome := rfl

@[simp] theorem log_ofExcept (outcome : Except ε α) : (ofExcept outcome).log = [] := rfl

@[simp] theorem outcome_mapError (f : ε → ε') (x : Logged ε α) :
    (x.mapError f).outcome = x.outcome.mapError f := rfl

@[simp] theorem log_mapError (f : ε → ε') (x : Logged ε α) : (x.mapError f).log = x.log := rfl

@[simp] theorem outcome_bind (x : Logged ε α) (f : α → Logged ε β) :
    (x >>= f).outcome = x.outcome >>= fun a => (f a).outcome := by
  change (Logged.bind x f).outcome = _
  unfold Logged.bind
  cases h : x.outcome <;> rfl

theorem log_bind_ok (x : Logged ε α) (f : α → Logged ε β) {a : α} (h : x.outcome = .ok a) :
    (x >>= f).log = x.log ++ (f a).log := by
  change (Logged.bind x f).log = _
  simp [Logged.bind, h]

theorem log_bind_error (x : Logged ε α) (f : α → Logged ε β) {e : ε} (h : x.outcome = .error e) :
    (x >>= f).log = x.log := by
  change (Logged.bind x f).log = _
  simp [Logged.bind, h]

theorem bind_eq_ok_iff {x : Except ε α} {f : α → Except ε β} {b : β} :
    x >>= f = .ok b ↔ ∃ a, x = .ok a ∧ f a = .ok b := by
  cases x with
  | error e => exact ⟨nofun, nofun⟩
  | ok a =>
    constructor
    · intro h
      exact ⟨a, rfl, h⟩
    · rintro ⟨_, same, h⟩
      cases same
      exact h

theorem bind_eq_error_iff {x : Except ε α} {f : α → Except ε β} {e : ε} :
    x >>= f = .error e ↔ x = .error e ∨ ∃ a, x = .ok a ∧ f a = .error e := by
  cases x with
  | error e' =>
    constructor
    · intro h
      exact .inl (congrArg Except.error (Except.error.inj h))
    · rintro (same | ⟨_, other, _⟩)
      · cases same
        rfl
      · cases other
  | ok a =>
    constructor
    · intro h
      exact .inr ⟨a, rfl, h⟩
    · rintro (other | ⟨_, same, h⟩)
      · cases other
      · cases same
        exact h

theorem mapError_eq_ok_iff {x : Except ε α} {f : ε → ε'} {a : α} : x.mapError f = .ok a ↔ x = .ok a := by
  cases x with
  | error e => exact ⟨nofun, nofun⟩
  | ok b =>
    constructor
    · intro h
      cases h
      rfl
    · intro h
      cases h
      rfl

theorem mapError_eq_error_iff {x : Except ε α} {f : ε → ε'} {e : ε'} :
    x.mapError f = .error e ↔ ∃ cause, x = .error cause ∧ f cause = e := by
  cases x with
  | error cause =>
    constructor
    · intro h
      exact ⟨cause, rfl, Except.error.inj h⟩
    · rintro ⟨_, same, h⟩
      cases same
      exact congrArg Except.error h
  | ok a => exact ⟨nofun, nofun⟩

theorem any_toOption {x : Except ε α} {p : α → Bool} (h : x.toOption.any p = true) : ∃ a, x = .ok a ∧ p a = true := by
  cases x with
  | error e => cases h
  | ok a => exact ⟨a, rfl, h⟩

end Logged
end StraightLine
