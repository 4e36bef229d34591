import StraightLine.Code.Generator

namespace StraightLine.Code

-- The events of a parse reach the generator through `handle`, but its actions may also be called directly, in any order and
-- after an accept.
inductive Call where
  | shift (token : Token)
  | reduce (production : Production)
  | accept
  | handle (event : Event)

-- What a rule may make of the values of its children, given the number of the next temporary. A rule that uses two of
-- the values uses them in the order of its children.
inductive Reduces (values : List Operand) (temps : Nat) : Reduction → Prop where
  | nothing : Reduces values temps ⟨none, [], temps⟩
  | value {value : Operand} (child : value ∈ values) : Reduces values temps ⟨some value, [], temps⟩
  | move {target : Variable} {source : Operand} (children : [.var target, source].Sublist values) :
      Reduces values temps ⟨none, [.mov target source], temps⟩
  | ret {value : Operand} (child : value ∈ values) : Reduces values temps ⟨none, [.ret value], temps⟩
  | arith {op : ArithOp} {left right : Operand} (children : [left, right].Sublist values) :
      Reduces values temps ⟨some (.var (.temp temps)), [.arith op (.temp temps) left right], temps + 1⟩

-- The errors that are met once the body's symbols are off the stack.
def GenerateError.late : GenerateError → Bool
  | .missingValue _ _ | .notAVariable _ => true
  | .stackUnderflow _ | .shapeMismatch _ | .literalOutOfRange _ | .notAccepted | .alreadyAccepted => false

namespace Reduction

variable {production : Production} {children : List StackSymbol} {value first second : Operand} {temps : Nat}
  {error : GenerateError}

theorem valueOf_eq_ok {position : Nat} (found : valueOf production children position = .ok value) :
    ∃ symbol, children[position]? = some symbol ∧ symbol.value? = some value := by
  unfold valueOf at found
  split at found
  case h_1 held =>
    cases found
    exact Option.bind_eq_some_iff.mp held
  case h_2 => cases found

theorem mem_values {position : Nat} (found : valueOf production children position = .ok value) :
    value ∈ children.filterMap StackSymbol.value? := by
  obtain ⟨symbol, here, held⟩ := valueOf_eq_ok found
  exact List.mem_filterMap.mpr ⟨symbol, List.mem_of_getElem? here, held⟩

theorem sublist_values (left : valueOf production children 0 = .ok first)
    (right : valueOf production children 2 = .ok second) :
    [first, second].Sublist (children.filterMap StackSymbol.value?) := by
  obtain ⟨symbol, here, held⟩ := valueOf_eq_ok left
  obtain ⟨other, there, alsoHeld⟩ := valueOf_eq_ok right
  cases children with
  | nil => cases here
  | cons head rest =>
    cases here
    rw [List.filterMap_cons_some held]
    apply List.Sublist.cons_cons
    have later : rest[1]? = some other := there
    exact List.singleton_sublist.mpr (List.mem_filterMap.mpr ⟨other, List.mem_of_getElem? later, alsoHeld⟩)

theorem arith_reduces {op : ArithOp} {reduction : Reduction}
    (done : arith op production children temps = .ok reduction) :
    Reduces (children.filterMap StackSymbol.value?) temps reduction := by
  simp only [arith, Logged.bind_eq_ok_iff] at done
  obtain ⟨left, onLeft, right, onRight, built⟩ := done
  cases built
  exact .arith (sublist_values onLeft onRight)

-- One case for each rule, and one for a production of no rule.
theorem ofRule_reduces {rule? : Option Rule} {reduction : Reduction}
    (done : ofRule rule? production children temps = .ok reduction) :
    Reduces (children.filterMap StackSymbol.value?) temps reduction := by
  have single {position : Nat} {make : Operand → Reduction}
      (done : (valueOf production children position >>= fun value => pure (make value)) = .ok reduction) :
      ∃ value ∈ children.filterMap StackSymbol.value?, reduction = make value := by
    obtain ⟨value, found, built⟩ := Logged.bind_eq_ok_iff.mp done
    cases built
    exact ⟨value, mem_values found, rfl⟩
  unfold ofRule at done
  split at done
  case h_1 =>
    simp only [Logged.bind_eq_ok_iff] at done
    obtain ⟨left, onLeft, result, targeted, source, onRight, built⟩ := done
    cases built
    cases left with
    | imm value => cases targeted
    | var v =>
      cases targeted
      exact .move (sublist_values onLeft onRight)
  case h_2 =>
    obtain ⟨value, child, rfl⟩ := single done
    exact .ret child
  case h_3 | h_4 | h_5 => exact arith_reduces done
  case h_6 =>
    obtain ⟨value, child, rfl⟩ := single done
    exact .value child
  case h_7 =>
    cases done
    cases held : children[0]?.bind StackSymbol.value? with
    | none => exact .nothing
    | some value =>
      obtain ⟨symbol, here, same⟩ := Option.bind_eq_some_iff.mp held
      exact .value (List.mem_filterMap.mpr ⟨symbol, List.mem_of_getElem? here, same⟩)
  case h_8 | h_9 | h_10 | h_11 =>
    obtain ⟨value, child, rfl⟩ := single done
    exact .value child
  case h_12 | h_13 | h_14 | h_15 | h_16 | h_17 =>
    cases done
    exact .nothing

theorem valueOf_late {position : Nat} (failed : valueOf production children position = .error error) : error.late = true := by
  unfold valueOf at failed
  split at failed
  case h_1 => cases failed
  case h_2 =>
    cases failed
    rfl

theorem target_late (failed : target value = .error error) : error.late = true := by
  cases value with
  | var v => cases failed
  | imm value =>
    cases failed
    rfl

theorem arith_late {op : ArithOp} (failed : arith op production children temps = .error error) : error.late = true := by
  simp only [arith, Logged.bind_eq_error_iff] at failed
  rcases failed with left | ⟨_, _, right | ⟨_, _, built⟩⟩
  · exact valueOf_late left
  · exact valueOf_late right
  · cases built

theorem ofRule_late {rule? : Option Rule} (failed : ofRule rule? production children temps = .error error) :
    error.late = true := by
  have single {position : Nat} {make : Operand → Reduction}
      (failed : (valueOf production children position >>= fun value => pure (make value)) = .error error) :
      error.late = true := by
    rcases Logged.bind_eq_error_iff.mp failed with missing | ⟨_, _, built⟩
    · exact valueOf_late missing
    · cases built
  unfold ofRule at failed
  split at failed
  case h_1 =>
    simp only [Logged.bind_eq_error_iff] at failed
    rcases failed with left | ⟨_, _, constant | ⟨_, _, right | ⟨_, _, built⟩⟩⟩
    · exact valueOf_late left
    · exact target_late constant
    · exact valueOf_late right
    · cases built
  case h_2 | h_6 | h_8 | h_9 | h_10 | h_11 => exact single failed
  case h_3 | h_4 | h_5 => exact arith_late failed
  case h_7 | h_12 | h_13 | h_14 | h_15 | h_16 | h_17 => cases failed

end Reduction

namespace Generator

def call (generator : Generator) (symbols : SymbolTable) : Call → Step
  | .shift token => generator.shift symbols token
  | .reduce production => generator.reduce production
  | .accept => generator.accept
  | .handle event => generator.handle symbols event

-- The calls go on after an error.
def callAll (generator : Generator) (symbols : SymbolTable) : List Call → Generator
  | [] => generator
  | next :: rest => (generator.call symbols next).after.callAll symbols rest

-- What handling an event may come to: the result and the state left behind.
inductive Responds (generator : Generator) : Event → Except GenerateError Unit → Generator → Prop where
  | refused (event : Event) {error : GenerateError} (early : error.late = false) :
      Responds generator event (.error error) generator
  | dropped {production : Production} {error : GenerateError} (enough : production.bodyLength ≤ generator.stack.length)
      (late : error.late = true) :
      Responds generator (.reduce production) (.error error)
        { generator with stack := generator.stack.drop production.bodyLength }
  | shifted (token : Token) {value : Operand} (plain : ∀ number, value ≠ .var (.temp number)) :
      Responds generator (.shift token) (.ok ()) (generator.push (.terminal token value))
  | reduced {production : Production} {reduction : Reduction} (enough : production.bodyLength ≤ generator.stack.length)
      (reduces : Reduces ((generator.stack.take production.bodyLength).reverse.filterMap StackSymbol.value?)
        generator.temps reduction) :
      Responds generator (.reduce production) (.ok ())
        { generator with
          stack := .nonterminal production.head reduction.value :: generator.stack.drop production.bodyLength
          code := generator.code ++ reduction.code
          temps := reduction.temps }
  | accepted : Responds generator .accept (.ok ()) { generator with accepted := true }

inductive Advances (generator : Generator) : Generator → Prop where
  | drop (count : Nat) : Advances generator { generator with stack := generator.stack.drop count }
  | push (token : Token) {value : Operand} (plain : ∀ number, value ≠ .var (.temp number)) :
      Advances generator (generator.push (.terminal token value))
  | reduce (head : Nonterminal) (count : Nat) {reduction : Reduction}
      (reduces : Reduces ((generator.stack.take count).reverse.filterMap StackSymbol.value?) generator.temps reduction) :
      Advances generator
        { generator with
          stack := .nonterminal head reduction.value :: generator.stack.drop count
          code := generator.code ++ reduction.code
          temps := reduction.temps }
  | accept : Advances generator { generator with accepted := true }

theorem Responds.advances {generator after : Generator} {event : Event} {result : Except GenerateError Unit}
    (responds : generator.Responds event result after) : generator.Advances after := by
  cases responds with
  | refused => exact .drop 0
  | dropped => exact .drop _
  | shifted token plain => exact .push token plain
  | reduced _ reduces => exact .reduce _ _ reduces
  | accepted => exact .accept

variable (generator : Generator) (symbols : SymbolTable)

theorem responds_shift (token : Token) :
    generator.Responds (.shift token) (generator.shift symbols token).result (generator.shift symbols token).after := by
  unfold shift
  split
  case h_1 value _ =>
    apply Responds.shifted token
    intro number same
    cases same
  case h_2 =>
    split
    case isTrue => exact .refused _ rfl
    case isFalse =>
      apply Responds.shifted token
      intro number same
      cases same

theorem responds_reduceBody (rule? : Option Rule) (production : Production) :
    generator.Responds (.reduce production) (generator.reduceBody rule? production).result
      (generator.reduceBody rule? production).after := by
  unfold reduceBody
  split
  case isTrue => exact .refused _ rfl
  case isFalse enough =>
    dsimp only
    split
    case h_1 error failed => exact .dropped (Nat.le_of_not_lt enough) (Reduction.ofRule_late failed)
    case h_2 reduction done => exact .reduced (Nat.le_of_not_lt enough) (Reduction.ofRule_reduces done)

theorem responds_reduce (production : Production) :
    generator.Responds (.reduce production) (generator.reduce production).result (generator.reduce production).after := by
  unfold reduce
  split
  case h_1 => exact generator.responds_reduceBody none production
  case h_2 rule _ =>
    split
    case isTrue => exact generator.responds_reduceBody (some rule) production
    case isFalse => exact .refused _ rfl

theorem responds_handle (event : Event) :
    generator.Responds event (generator.handle symbols event).result (generator.handle symbols event).after := by
  unfold handle
  split
  case isTrue => exact .refused _ rfl
  case isFalse =>
    cases event with
    | shift token => exact generator.responds_shift symbols token
    | reduce production => exact generator.responds_reduce production
    | accept => exact .accepted

theorem advances_call (next : Call) : generator.Advances (generator.call symbols next).after := by
  cases next with
  | shift token => exact (generator.responds_shift symbols token).advances
  | reduce production => exact (generator.responds_reduce production).advances
  | accept => exact .accept
  | handle event => exact (generator.responds_handle symbols event).advances

-- What holds at first and is kept by whatever a call may do holds after any sequence of calls.
theorem callAll_induction {invariant : Generator → Prop}
    (kept : ∀ before after : Generator, before.Advances after → invariant before → invariant after)
    {generator : Generator} (start : invariant generator) (calls : List Call) :
    invariant (generator.callAll symbols calls) := by
  induction calls generalizing generator with
  | nil => exact start
  | cons next rest ih => exact ih (kept _ _ (generator.advances_call symbols next) start)

end Generator
end StraightLine.Code
