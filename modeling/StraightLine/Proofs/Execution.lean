import StraightLine.Code.Semantics

namespace StraightLine.Code

theorem Store.set_same (store : Store) (v : Variable) (value : Int32) : store.set v value v = value := by
  simp [Store.set]

theorem Store.set_other (store : Store) {v other : Variable} (value : Int32) (apart : other ≠ v) :
    store.set v value other = store other := by
  simp [Store.set, apart]

theorem Operand.eval_congr {store other : Store} {operand : Operand}
    (same : ∀ v, operand.asVar? = some v → store v = other v) : operand.eval store = operand.eval other := by
  cases operand with
  | imm value => rfl
  | var v => exact same v rfl

namespace Instr

-- What the instruction stores in its result or, without a result, returns.
def value (store : Store) : Instr → Int32
  | .mov _ source => source.eval store
  | .arith op _ left right => op.eval (left.eval store) (right.eval store)
  | .ret value => value.eval store

theorem exec_of_result {instr : Instr} {v : Variable} (result : instr.result? = some v) (store : Store) :
    instr.exec store = store.set v (instr.value store) := by
  cases instr with
  | mov target source => cases Option.some.inj result; rfl
  | arith op target left right => cases Option.some.inj result; rfl
  | ret operand => cases result

theorem returned_of_result {instr : Instr} {v : Variable} (result : instr.result? = some v) (store : Store) :
    instr.returned store = [] := by
  cases instr with
  | mov target source => rfl
  | arith op target left right => rfl
  | ret operand => cases result

theorem exec_of_return {instr : Instr} (result : instr.result? = none) (store : Store) :
    instr.exec store = store := by
  cases instr with
  | mov target source => cases result
  | arith op target left right => cases result
  | ret operand => rfl

theorem returned_of_return {instr : Instr} (result : instr.result? = none) (store : Store) :
    instr.returned store = [instr.value store] := by
  cases instr with
  | mov target source => cases result
  | arith op target left right => cases result
  | ret operand => rfl

theorem exec_other {instr : Instr} {v : Variable} (apart : instr.result? ≠ some v) (store : Store) :
    instr.exec store v = store v := by
  cases result : instr.result? with
  | none => rw [exec_of_return result]
  | some target =>
    rw [exec_of_result result]
    refine Store.set_other _ _ ?_
    rintro rfl
    exact apart result

theorem value_congr {store other : Store} {instr : Instr} (same : ∀ v ∈ instr.reads, store v = other v) :
    instr.value store = instr.value other := by
  have operand : ∀ source ∈ instr.sources, source.eval store = source.eval other := by
    intro source member
    refine Operand.eval_congr ?_
    intro v name
    exact same v (List.mem_filterMap.mpr ⟨source, member, name⟩)
  cases instr with
  | mov target source => exact operand source List.mem_cons_self
  | arith op target left right =>
    have first := operand left List.mem_cons_self
    have second := operand right (List.mem_cons_of_mem _ List.mem_cons_self)
    simp [value, first, second]
  | ret source => exact operand source List.mem_cons_self

theorem read_mentioned {instr : Instr} {v : Variable} (read : v ∈ instr.reads) : v ∈ instr.mentioned :=
  List.mem_append_right _ read

end Instr

theorem exec_append (store : Store) (first second : List Instr) :
    exec store (first ++ second) = exec (exec store first) second := by
  induction first generalizing store with
  | nil => rfl
  | cons instr rest ih => exact ih (instr.exec store)

theorem returned_append (store : Store) (first second : List Instr) :
    returned store (first ++ second) = returned store first ++ returned (exec store first) second := by
  induction first generalizing store with
  | nil => rfl
  | cons instr rest ih => simp [returned, exec, ih]

def results (code : List Instr) : List Variable := code.filterMap Instr.result?

-- Every variable that is read stands in `known` or is the result of an earlier instruction.
def DefinedFirst (known : List Variable) : List Instr → Prop
  | [] => True
  | instr :: rest => (∀ v ∈ instr.reads, v ∈ known) ∧ DefinedFirst (instr.result?.toList ++ known) rest

instance decidableDefinedFirst (known : List Variable) : (code : List Instr) → Decidable (DefinedFirst known code)
  | [] => isTrue trivial
  | instr :: rest =>
    have := decidableDefinedFirst (instr.result?.toList ++ known) rest
    inferInstanceAs (Decidable (_ ∧ _))

theorem DefinedFirst.mono {known more : List Variable} {code : List Instr} (defined : DefinedFirst known code)
    (subset : known ⊆ more) : DefinedFirst more code := by
  induction code generalizing known more with
  | nil => trivial
  | cons instr rest ih =>
    refine ⟨fun v read => subset (defined.1 v read), ih defined.2 ?_⟩
    exact List.append_subset.mpr ⟨List.subset_append_left _ _, fun v member => List.mem_append_right _ (subset member)⟩

theorem definedFirst_append {known : List Variable} {first second : List Instr} :
    DefinedFirst known (first ++ second) ↔ DefinedFirst known first ∧ DefinedFirst (results first ++ known) second := by
  induction first generalizing known with
  | nil => simp [DefinedFirst, results]
  | cons instr rest ih =>
    have order : DefinedFirst (results rest ++ (instr.result?.toList ++ known)) second ↔
        DefinedFirst (results (instr :: rest) ++ known) second := by
      have same : ∀ v, v ∈ results rest ++ (instr.result?.toList ++ known) ↔ v ∈ results (instr :: rest) ++ known := by
        intro v
        cases result : instr.result? with
        | none => simp [results, result]
        | some target =>
          simp only [results, result, List.filterMap_cons, List.mem_append, List.mem_cons, Option.toList_some,
            List.not_mem_nil, or_false]
          rw [or_left_comm, or_assoc]
      exact ⟨fun defined => defined.mono fun v => (same v).mp, fun defined => defined.mono fun v => (same v).mpr⟩
    simp only [List.cons_append, DefinedFirst, ih, order, and_assoc]

end StraightLine.Code
