import Mathlib.Data.List.Flatten
import Mathlib.Data.List.Nodup
import StraightLine.Proofs.Calls
import StraightLine.Proofs.Compilation

namespace StraightLine.Code

namespace Instr

-- The result of an arithmetic instruction.
def computed? : Instr → Option Variable
  | .arith _ result _ _ => some result
  | _ => none

-- The variables read and, for a move, its target.
def uses (instr : Instr) : List Variable :=
  match instr with
  | .mov result _ => result :: instr.reads
  | _ => instr.reads

theorem reads_sublist_uses (instr : Instr) : instr.reads.Sublist instr.uses := by
  cases instr with
  | mov result source => exact List.sublist_cons_self result _
  | arith op result left right => exact List.Sublist.refl _
  | ret value => exact List.Sublist.refl _

end Instr

def computed (code : List Instr) : List Variable := code.filterMap Instr.computed?

theorem computed_append (first second : List Instr) : computed (first ++ second) = computed first ++ computed second :=
  List.filterMap_append

namespace Reduces

variable {values : List Operand} {temps : Nat} {reduction : Reduction}

theorem code_single (reduces : Reduces values temps reduction) :
    reduction.code = [] ∨
      ∃ instr, reduction.code = [instr] ∧ instr.uses.Sublist (values.filterMap Operand.asVar?) := by
  cases reduces with
  | nothing => exact .inl rfl
  | value child => exact .inl rfl
  | move children => exact .inr ⟨_, rfl, children.filterMap Operand.asVar?⟩
  | ret child => exact .inr ⟨_, rfl, (List.singleton_sublist.mpr child).filterMap Operand.asVar?⟩
  | arith children => exact .inr ⟨_, rfl, children.filterMap Operand.asVar?⟩

theorem computed_range (reduces : Reduces values temps reduction) :
    (List.range temps).map Variable.temp ++ computed reduction.code = (List.range reduction.temps).map Variable.temp := by
  cases reduces with
  | nothing | value child | move children | ret child => exact List.append_nil _
  | arith children =>
    rw [List.range_succ, List.map_append]
    rfl

-- What a rule leaves mentioned, on the stack and in the code, is the temporary it defines and what it found among the values.
theorem leaves (reduces : Reduces values temps reduction) :
    ∃ used, used.Sublist (values.filterMap Operand.asVar?) ∧
      reduction.value.toList.filterMap Operand.asVar? ++ reduction.code.flatMap Instr.uses =
        computed reduction.code ++ used := by
  cases reduces with
  | nothing => exact ⟨[], List.nil_sublist _, rfl⟩
  | value child =>
    exact ⟨_, (List.singleton_sublist.mpr child).filterMap Operand.asVar?, List.append_nil _⟩
  | move children => exact ⟨_, children.filterMap Operand.asVar?, List.append_nil _⟩
  | ret child =>
    exact ⟨_, (List.singleton_sublist.mpr child).filterMap Operand.asVar?, List.append_nil _⟩
  | arith children =>
    refine ⟨_, children.filterMap Operand.asVar?, ?_⟩
    exact congrArg (Variable.temp temps :: ·) (List.append_nil _)

end Reduces

namespace Generator

-- The variables among the values of symbols.
def held (symbols : List StackSymbol) : List Variable :=
  (symbols.filterMap StackSymbol.value?).filterMap Operand.asVar?

-- The variables that a generator mentions, on its stack and in its code, other than as the result of an arithmetic
-- instruction.
def occurrences (generator : Generator) : List Variable :=
  held generator.stack ++ generator.code.flatMap Instr.uses

-- A rule consumes the values of distinct children, and a child's value leaves the stack with it. So a temporary is mentioned
-- at most once more after its definition, whatever calls are made and fail.
structure Linear (generator : Generator) : Prop where
  numbered : computed generator.code = (List.range generator.temps).map Variable.temp
  once : ∀ number, generator.occurrences.count (.temp number) ≤ (computed generator.code).count (.temp number)
  later : ∀ before instr, before ++ [instr] <+: generator.code → ∀ number, .temp number ∈ instr.uses →
    .temp number ∈ computed before

namespace Linear

variable {generator after : Generator}

theorem mem_computed (linear : generator.Linear) {number : Nat} (member : .temp number ∈ generator.occurrences) :
    .temp number ∈ computed generator.code := by
  have present := List.count_pos_iff.mpr member
  exact List.count_pos_iff.mp (Nat.lt_of_lt_of_le present (linear.once number))

theorem count_computed (linear : generator.Linear) (v : Variable) : (computed generator.code).count v ≤ 1 := by
  rw [linear.numbered]
  exact List.nodup_iff_count_le_one.mp (List.nodup_range.map fun _ _ => Variable.temp.inj) v

theorem initial : Linear {} := by
  refine ⟨rfl, fun number => Nat.zero_le _, ?_⟩
  intro before instr ahead
  simp at ahead

-- Of a stack in two parts, the top counts with its values in the order of the children.
theorem count_occurrences (generator : Generator) (count : Nat) (v : Variable) :
    generator.occurrences.count v = (held (generator.stack.take count).reverse).count v +
      (held (generator.stack.drop count)).count v + (generator.code.flatMap Instr.uses).count v := by
  have parts : held generator.stack = held (generator.stack.take count) ++ held (generator.stack.drop count) := by
    rw [held, held, held, ← List.filterMap_append, ← List.filterMap_append, List.take_append_drop]
  have turned : (held (generator.stack.take count).reverse).count v = (held (generator.stack.take count)).count v := by
    rw [held, held, List.filterMap_reverse, List.filterMap_reverse, List.count_reverse]
  rw [occurrences, parts, turned, List.count_append, List.count_append]

theorem drop (linear : generator.Linear) (count : Nat) :
    Linear { generator with stack := generator.stack.drop count } := by
  refine ⟨linear.numbered, ?_, linear.later⟩
  intro number
  have bound := linear.once number
  rw [count_occurrences generator count] at bound
  simp only [occurrences, List.count_append]
  omega

theorem push (linear : generator.Linear) (token : Token) {value : Operand} (plain : ∀ number, value ≠ .var (.temp number)) :
    (generator.push (.terminal token value)).Linear := by
  refine ⟨linear.numbered, ?_, linear.later⟩
  intro number
  have kept : (generator.push (.terminal token value)).occurrences.count (.temp number) =
      generator.occurrences.count (.temp number) := by
    cases value with
    | imm constant => rfl
    | var v =>
      have apart : v ≠ .temp number := fun same => plain number (same ▸ rfl)
      exact List.count_cons_of_ne apart
  rw [kept]
  exact linear.once number

-- A value among the children's is held by a symbol of the stack.
theorem mem_occurrences {count : Nat} {v : Variable}
    (member : v ∈ held (generator.stack.take count).reverse) : v ∈ generator.occurrences := by
  apply List.count_pos_iff.mp
  have present := List.count_pos_iff.mpr member
  rw [count_occurrences generator count]
  omega

theorem reduce (linear : generator.Linear) (head : Nonterminal) (count : Nat) {reduction : Reduction}
    (reduces : Reduces ((generator.stack.take count).reverse.filterMap StackSymbol.value?) generator.temps reduction) :
    Linear
      { generator with
        stack := .nonterminal head reduction.value :: generator.stack.drop count
        code := generator.code ++ reduction.code
        temps := reduction.temps } := by
  constructor
  · change computed (generator.code ++ reduction.code) = _
    rw [computed_append, linear.numbered, reduces.computed_range]
  · intro number
    have before := linear.once number
    rw [count_occurrences generator count] at before
    obtain ⟨used, consumed, left⟩ := reduces.leaves
    have added := congrArg (List.count (Variable.temp number)) left
    have found : used.count (.temp number) ≤ (held (generator.stack.take count).reverse).count (.temp number) :=
      consumed.count_le _
    have pushed : held (.nonterminal head reduction.value :: generator.stack.drop count) =
        reduction.value.toList.filterMap Operand.asVar? ++ held (generator.stack.drop count) := by
      rw [held, held, ← List.filterMap_append]
      cases reduction.value <;> rfl
    simp only [occurrences, pushed, computed_append, List.flatMap_append, List.count_append] at added ⊢
    omega
  · intro before instr ahead number used
    rcases reduces.code_single with none | ⟨last, single, consumed⟩
    · simp only [none, List.append_nil] at ahead
      exact linear.later before instr ahead number used
    · simp only [single] at ahead
      rcases List.prefix_concat_iff.mp ahead with whole | earlier
      · obtain ⟨rfl, same⟩ := List.append_inj' whole rfl
        cases same
        exact linear.mem_computed (mem_occurrences (consumed.subset used))
      · exact linear.later before instr earlier number used

theorem advances (linear : generator.Linear) (moved : generator.Advances after) : after.Linear := by
  cases moved with
  | drop count => exact linear.drop count
  | push token plain => exact linear.push token plain
  | reduce head count reduces => exact linear.reduce head count reduces
  | accept => exact ⟨linear.numbered, linear.once, linear.later⟩

end Linear

theorem linear_callAll (symbols : SymbolTable) (calls : List Call) : (callAll {} symbols calls).Linear :=
  callAll_induction symbols (fun _ _ moved linear => linear.advances moved) Linear.initial calls

-- A feed that does not fail hands every event over.
theorem feed_eq_callAll {generator final : Generator} {symbols : SymbolTable} {events : List Event}
    (done : (generator.feed symbols events).outcome = .ok final) :
    final = generator.callAll symbols (events.map .handle) := by
  induction events generalizing generator with
  | nil =>
    cases done
    rfl
  | cons event rest ih =>
    rw [feed_cons, Logged.bind_eq_ok_iff] at done
    obtain ⟨_, _, later⟩ := done
    exact ih later

end Generator
end Code

namespace ParseTree

open Code (Instr Variable)

variable {head : Nonterminal} {tree left right : ParseTree}

-- The number is that of a temporary of the tree: it is read by the tree's code or left as the tree's value.
def Consumes (head : Nonterminal) (tree : ParseTree) (temps number : Nat) : Prop :=
  .temp number ∈ (tree.code temps).flatMap Instr.reads ∨ head.valued = true ∧ tree.operand temps = .var (.temp number)

theorem consumes_operands {op : ArithOp} {temps number : Nat} {first second : Nonterminal}
    (onLeft : number < temps + left.operations → Consumes first left temps number)
    (onRight : temps + left.operations ≤ number → Consumes second right (temps + left.operations) number) :
    .temp number ∈ (left.code temps ++ right.code (temps + left.operations) ++ [operation op temps left right]).flatMap
      Instr.reads := by
  simp only [List.flatMap_append, List.mem_append, List.flatMap_singleton]
  rcases Nat.lt_or_ge number (temps + left.operations) with here | there
  · rcases onLeft here with read | ⟨_, value⟩
    · exact .inl (.inl read)
    · exact .inr (List.mem_filterMap.mpr ⟨_, List.mem_cons_self, by rw [value]; rfl⟩)
  · rcases onRight there with read | ⟨_, value⟩
    · exact .inl (.inr read)
    · exact .inr (List.mem_filterMap.mpr ⟨_, List.mem_cons_of_mem _ List.mem_cons_self, by rw [value]; rfl⟩)

-- A statement's own instruction takes the value of its expression.
theorem consumes_then {temps number : Nat} {instr : Instr} (inner : Consumes .expr tree temps number)
    (sources : instr.sources = [tree.operand temps]) :
    .temp number ∈ (tree.code temps ++ [instr]).flatMap Instr.reads := by
  simp only [List.flatMap_append, List.mem_append, List.flatMap_singleton]
  rcases inner with read | ⟨_, value⟩
  · exact .inl read
  · refine .inr (List.mem_filterMap.mpr ⟨tree.operand temps, ?_, by rw [value]; rfl⟩)
    rw [sources]
    exact List.mem_singleton_self _

theorem Consumes.read {temps number : Nat} (consumes : Consumes head tree temps number) (unvalued : head.valued = false) :
    .temp number ∈ (tree.code temps).flatMap Instr.reads := by
  rcases consumes with read | ⟨valued, _⟩
  · exact read
  · rw [unvalued] at valued
    cases valued

theorem consumes_arith {op : ArithOp} {temps number : Nat} {first second : Nonterminal} (valued : head.valued = true)
    (code : tree.code temps =
      left.code temps ++ right.code (temps + left.operations) ++ [operation op temps left right])
    (operand : tree.operand temps = .var (.temp (temps + left.operations + right.operations)))
    (operations : tree.operations = left.operations + right.operations + 1) (high : number < temps + tree.operations)
    (onLeft : number < temps + left.operations → Consumes first left temps number)
    (onRight : temps + left.operations ≤ number → number < temps + left.operations + right.operations →
      Consumes second right (temps + left.operations) number) : Consumes head tree temps number := by
  by_cases last : number = temps + left.operations + right.operations
  · exact .inr ⟨valued, by rw [operand, last]⟩
  · left
    rw [code]
    refine consumes_operands onLeft fun there => onRight there ?_
    omega

theorem consumes_derivation (derivation : Derivation head tree) {temps number : Nat} (low : temps ≤ number)
    (high : number < temps + tree.operations) : Consumes head tree temps number := by
  induction derivation generalizing temps with
  | program statements inner => exact .inl ((inner low high).read rfl)
  | @stmtListCons statement rest _ first ends others one more =>
    left
    change _ ∈ (statement.code temps ++ rest.code (temps + statement.operations)).flatMap Instr.reads
    rw [List.flatMap_append, List.mem_append]
    simp only [operations] at high
    rcases Nat.lt_or_ge number (temps + statement.operations) with here | there
    · exact .inl ((one low here).read rfl)
    · exact .inr ((more there (by omega)).read rfl)
  | stmtListLast only ends inner => exact .inl ((inner low high).read rfl)
  | declare typed named _ =>
    cases typed
    simp only [operations] at high
    omega
  | intType int =>
    simp only [operations] at high
    omega
  | assign named assigned expr inner => exact .inl (consumes_then (inner low high) rfl)
  | ret returned expr inner => exact .inl (consumes_then (inner low high) rfl)
  | add expr plus term one two | sub expr minus term one two | mul term star factor one two =>
    exact consumes_arith rfl rfl rfl rfl high (one low) two
  | exprTerm term inner | termFactor factor inner | paren opens expr closes inner => exact inner low high
  | ident named =>
    simp only [operations] at high
    omega
  | intConst constant =>
    simp only [operations] at high
    omega

end ParseTree

namespace Code

variable {tree : ParseTree}

theorem feed_events (symbols : SymbolTable) (derivation : Derivation .program tree) (lexical : ∀ token ∈ tree.leaves, token.Lexical)
    (fit : ∀ token ∈ tree.leaves, token.oversized = false) :
    (Generator.feed {} symbols tree.events).outcome = .ok { Generator.after {} tree with accepted := true } := by
  rw [ParseTree.events, Generator.takes_derivation derivation {} symbols [.accept] rfl lexical, literalsFit_eq_ok fit]
  rfl

theorem linear_events (derivation : Derivation .program tree) (lexical : ∀ token ∈ tree.leaves, token.Lexical)
    (fit : ∀ token ∈ tree.leaves, token.oversized = false) :
    Generator.Linear { Generator.after {} tree with accepted := true } := by
  rw [Generator.feed_eq_callAll (feed_events .empty derivation lexical fit)]
  exact Generator.linear_callAll .empty _

theorem computed_code (derivation : Derivation .program tree) (lexical : ∀ token ∈ tree.leaves, token.Lexical)
    (fit : ∀ token ∈ tree.leaves, token.oversized = false) :
    computed (tree.code 0) = (List.range tree.operations).map Variable.temp := by
  have numbered := (linear_events derivation lexical fit).numbered
  rwa [show Generator.temps _ = 0 + tree.operations from rfl, Nat.zero_add] at numbered

-- A program leaves no value, so each temporary of its code is read; the generator's linearity bounds the reads by one.
theorem count_reads_code (derivation : Derivation .program tree) (lexical : ∀ token ∈ tree.leaves, token.Lexical)
    (fit : ∀ token ∈ tree.leaves, token.oversized = false) {number : Nat}
    (defined : number < (computed (tree.code 0)).length) :
    ((tree.code 0).flatMap Instr.reads).count (.temp number) = 1 := by
  have linear := linear_events derivation lexical fit
  rw [computed_code derivation lexical fit, List.length_map, List.length_range, ← Nat.zero_add tree.operations] at defined
  have read := (ParseTree.consumes_derivation derivation (Nat.zero_le number) defined).read rfl
  apply Nat.le_antisymm _ (List.count_pos_iff.mpr read)
  calc ((tree.code 0).flatMap Instr.reads).count (.temp number)
      ≤ ((tree.code 0).flatMap Instr.uses).count (.temp number) :=
        (List.Sublist.flatMap_right _ fun instr _ => instr.reads_sublist_uses).count_le _
    _ ≤ (Generator.occurrences { Generator.after {} tree with accepted := true }).count (.temp number) :=
        (List.sublist_append_right _ _).count_le _
    _ ≤ (computed (tree.code 0)).count (.temp number) := linear.once number
    _ ≤ 1 := linear.count_computed _

theorem temporaries_linear (symbols : SymbolTable) :
    (∀ calls final, Generator.callAll {} symbols calls = final →
      (∀ (position : Nat) (v : Variable), (computed final.code)[position]? = some v → v = .temp position) ∧
      (∀ number, .temp number ∈ final.occurrences → number < (computed final.code).length) ∧
      (∀ number, final.occurrences.count (.temp number) ≤ 1) ∧
      ∀ before instr after, final.code = before ++ instr :: after → ∀ number, .temp number ∈ instr.uses →
        .temp number ∈ computed before) ∧
    ∀ table text tokens tree, (Scan.ofText table text).result = .ok tokens → ParseTree.ofTokens tokens = .ok tree →
      (∀ token ∈ tokens, token.oversized = false) →
      ∃ code, (ofEvents symbols tree.events).outcome = .ok code ∧
        ∀ number < (computed code).length, (code.flatMap Instr.reads).count (.temp number) = 1 := by
  constructor
  · intro calls final reached
    have linear : final.Linear := reached ▸ Generator.linear_callAll symbols calls
    refine ⟨?_, ?_, ?_, ?_⟩
    · intro position v found
      rw [linear.numbered, List.getElem?_map, Option.map_eq_some_iff] at found
      obtain ⟨number, here, rfl⟩ := found
      obtain ⟨_, rfl⟩ := List.getElem?_eq_some_iff.mp here
      rw [List.getElem_range]
    · intro number mentioned
      have defined := linear.mem_computed mentioned
      rw [linear.numbered] at defined ⊢
      simpa using defined
    · intro number
      exact Nat.le_trans (linear.once number) (linear.count_computed _)
    · intro before instr after split
      apply linear.later before instr
      exact ⟨after, by rw [split, List.append_assoc, List.singleton_append]⟩
  · intro table text tokens tree scanned parsed fit
    obtain ⟨rfl, derivation, lexical⟩ := ParseTree.derivation_of_scan scanned parsed
    have small := fun token member => fit token (List.mem_append_left _ member)
    refine ⟨tree.code 0, ?_, fun number => count_reads_code derivation lexical small⟩
    rw [ofEvents_derivation derivation lexical, literalsFit_eq_ok small]
    rfl

-- No parser would send these: a sum becomes the target of a move after an accept, and two reductions fail on the way.
def stray : List Call :=
  [.shift ⟨.ident, "a"⟩, .handle (.shift ⟨.plus, "+"⟩), .shift ⟨.intConst, "3"⟩, .reduce Rule.add.production, .accept,
   .handle (.reduce Rule.exprTerm.production), .reduce Rule.mul.production, .shift ⟨.assign, "="⟩, .shift ⟨.ident, "7"⟩,
   .reduce Rule.assign.production]

def nested : String := "x = ( a + 1 ) * ( a - 2 ) ; return x * x - 4096 ;"

theorem temporaries_linear_nested :
    (Generator.callAll {} .empty stray).code =
      [.arith .add (.temp 0) (.var (.named "a")) (.imm 3), .mov (.temp 0) (.imm 7)] ∧
    (Generator.callAll {} .empty stray).occurrences.count (.temp 0) ≤ 1 ∧
    ∃ tokens tree code, (Scan.ofText .empty nested).result = .ok tokens ∧ ParseTree.ofTokens tokens = .ok tree ∧
      (∀ token ∈ tokens, token.oversized = false) ∧ (ofEvents .empty tree.events).outcome = .ok code ∧
      (computed code).length = 5 ∧ ∀ number < 5, (code.flatMap Instr.reads).count (.temp number) = 1 := by
  obtain ⟨calls, texts⟩ := temporaries_linear .empty
  refine ⟨by decide, (calls stray _ rfl).2.2.1 0, ?_⟩
  have evaluated : (Scan.ofText .empty nested).result.toOption.any (fun tokens =>
      (tokens.all fun token => !token.oversized) && (ParseTree.ofTokens tokens).toOption.any fun tree =>
        (ofEvents .empty tree.events).outcome.toOption.any fun code => decide ((computed code).length = 5)) = true := by
    decide +kernel
  obtain ⟨tokens, scanned, holds⟩ := Logged.any_toOption evaluated
  obtain ⟨fits, holds⟩ := Bool.and_eq_true_iff.mp holds
  obtain ⟨tree, parsed, holds⟩ := Logged.any_toOption holds
  obtain ⟨code, generated, five⟩ := Logged.any_toOption holds
  have small : ∀ token ∈ tokens, token.oversized = false := by simpa using fits
  obtain ⟨other, same, once⟩ := texts .empty nested tokens tree scanned parsed small
  cases generated.symm.trans same
  have count := of_decide_eq_true five
  refine ⟨tokens, tree, code, scanned, parsed, small, generated, count, ?_⟩
  rwa [count] at once

end Code
end StraightLine
