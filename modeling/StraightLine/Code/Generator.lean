import StraightLine.Log
import StraightLine.ParseTree

namespace StraightLine.Code

inductive GenerateError where
  | stackUnderflow (production : Production)
  | shapeMismatch (production : Production)
  | missingValue (production : Production) (position : Nat)
  | literalOutOfRange (literal : String)
  | notAVariable (value : Operand)
  | notAccepted
  | alreadyAccepted
  deriving DecidableEq

def GenerateError.message : GenerateError → String
  | .stackUnderflow production => "symbol stack underflow reducing " ++ production.render
  | .shapeMismatch production => "production " ++ production.render ++ " does not match its grammar rule"
  | .missingValue production position =>
    "child " ++ position.repr ++ " of " ++ production.render ++ " carries no value"
  | .literalOutOfRange literal => "integer literal `" ++ literal ++ "` does not fit in 32 bits"
  | .notAVariable value => "assignment target `" ++ value.render ++ "` is not a variable"
  | .notAccepted => "instructions requested before the parse was accepted"
  | .alreadyAccepted => "parse event received after accept"

inductive StackSymbol where
  | terminal (token : Token) (value : Operand)
  | nonterminal (head : Nonterminal) (value : Option Operand)
  deriving DecidableEq

def StackSymbol.value? : StackSymbol → Option Operand
  | .terminal _ value => some value
  | .nonterminal _ value => value

-- The newest symbol stands first; `temps` counts the temporaries given out.
structure Generator where
  stack : List StackSymbol := []
  code : List Instr := []
  temps : Nat := 0
  accepted : Bool := false
  deriving DecidableEq

structure Step where
  result : Except GenerateError Unit
  after : Generator
  log : List Log.Entry := []

-- What a reduce puts in place of the body: a value, the code to append and the count of temporaries then.
structure Reduction where
  value : Option Operand
  code : List Instr
  temps : Nat

namespace Reduction

def valueOf (production : Production) (children : List StackSymbol) (position : Nat) :
    Except GenerateError Operand :=
  match children[position]?.bind StackSymbol.value? with
  | some value => .ok value
  | none => .error (.missingValue production position)

def target : Operand → Except GenerateError Variable
  | .var v => .ok v
  | .imm value => .error (.notAVariable (.imm value))

def arith (op : ArithOp) (production : Production) (children : List StackSymbol) (temps : Nat) :
    Except GenerateError Reduction := do
  let left ← valueOf production children 0
  let right ← valueOf production children 2
  return ⟨some (.var (.temp temps)), [.arith op (.temp temps) left right], temps + 1⟩

-- A production of no known rule drops its children. A program's only child may lack a value.
def ofRule (rule? : Option Rule) (production : Production) (children : List StackSymbol) (temps : Nat) :
    Except GenerateError Reduction :=
  match rule? with
  | some .assign => do
    let result ← target (← valueOf production children 0)
    let source ← valueOf production children 2
    return ⟨none, [.mov result source], temps⟩
  | some .ret => do
    let value ← valueOf production children 1
    return ⟨none, [.ret value], temps⟩
  | some .add => arith .add production children temps
  | some .sub => arith .sub production children temps
  | some .mul => arith .mul production children temps
  | some .paren => do
    let value ← valueOf production children 1
    return ⟨some value, [], temps⟩
  | some .program => return ⟨children[0]?.bind StackSymbol.value?, [], temps⟩
  | some .exprTerm | some .termFactor | some .ident | some .intConst => do
    let value ← valueOf production children 0
    return ⟨some value, [], temps⟩
  | some .start | some .stmtListCons | some .stmtListLast | some .declare | some .intType | none =>
    return ⟨none, [], temps⟩

def log (rule? : Option Rule) (production : Production) (reduction : Reduction) : List Log.Entry :=
  (if rule?.isNone then [.unknownProduction production] else []) ++
    reduction.code.map .emitted ++ [.reduced production reduction.value]

end Reduction

namespace Generator

def refuse (generator : Generator) (error : GenerateError) : Step := ⟨.error error, generator, []⟩

def push (generator : Generator) (symbol : StackSymbol) : Generator :=
  { generator with stack := symbol :: generator.stack }

-- Any text that reads as a 32-bit numeral is one, whatever the token's kind.
def shift (generator : Generator) (symbols : SymbolTable) (token : Token) : Step :=
  match Text.readInt32? token.text with
  | some value =>
    ⟨.ok (), generator.push (.terminal token (.imm value)), [.shifted token (.imm value)]⟩
  | none =>
    if token.kind = .intConst then generator.refuse (.literalOutOfRange token.text)
    else
      let value : Operand := .var (.named token.text)
      let unknown : List Log.Entry :=
        if token.kind = .ident ∧ symbols.has token.text = false then [.unknownName token.text] else []
      ⟨.ok (), generator.push (.terminal token value), unknown ++ [.shifted token value]⟩

-- The body's symbols are off the stack before their values are looked at, and a failure leaves them off.
def reduceBody (generator : Generator) (rule? : Option Rule) (production : Production) : Step :=
  if generator.stack.length < production.bodyLength then generator.refuse (.stackUnderflow production)
  else
    let children := (generator.stack.take production.bodyLength).reverse
    let below := generator.stack.drop production.bodyLength
    match Reduction.ofRule rule? production children generator.temps with
    | .error error => ⟨.error error, { generator with stack := below }, []⟩
    | .ok reduction =>
      ⟨.ok (),
        { generator with
          stack := .nonterminal production.head reduction.value :: below
          code := generator.code ++ reduction.code
          temps := reduction.temps },
        Reduction.log rule? production reduction⟩

def reduce (generator : Generator) (production : Production) : Step :=
  match production.rule? with
  | none => generator.reduceBody none production
  | some rule =>
    if rule.bodyLength = production.bodyLength then generator.reduceBody (some rule) production
    else generator.refuse (.shapeMismatch production)

def accept (generator : Generator) : Step :=
  let surplus : List Log.Entry :=
    if generator.stack.length = 1 then [] else [.surplus generator.stack.length]
  let top : List Log.Entry := match generator.stack with
    | .nonterminal head _ :: _ => [.accepted head]
    | _ => []
  ⟨.ok (), { generator with accepted := true }, surplus ++ top⟩

def handle (generator : Generator) (symbols : SymbolTable) (event : Event) : Step :=
  if generator.accepted then generator.refuse .alreadyAccepted
  else match event with
    | .shift token => generator.shift symbols token
    | .reduce production => generator.reduce production
    | .accept => generator.accept

def finish (generator : Generator) : Except GenerateError (List Instr) :=
  if generator.accepted then .ok generator.code else .error .notAccepted

def feed (generator : Generator) (symbols : SymbolTable) : List Event → Logged GenerateError Generator
  | [] => return generator
  | event :: rest => do
    let step := generator.handle symbols event
    Logged.record step.log
    Logged.ofExcept step.result
    step.after.feed symbols rest

end Generator

def ofEvents (symbols : SymbolTable) (events : List Event) : Logged GenerateError (List Instr) := do
  let generator ← Generator.feed {} symbols events
  Logged.ofExcept generator.finish

end StraightLine.Code
