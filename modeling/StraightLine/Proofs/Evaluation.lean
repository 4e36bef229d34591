import StraightLine.Code.TempSupply
import StraightLine.ParseTree.Meaning
import StraightLine.Proofs.Execution
import StraightLine.Proofs.Translation

namespace StraightLine.ParseTree

open Code (Variable Operand Instr Store DefinedFirst results)

def namesOf (store : Store) : Names := fun name => store (.named name)

-- What the code of an expression, a term or a factor does from its first temporary on.
structure Computes (tree : ParseTree) (temps : Nat) : Prop where
  silent : ∀ store, Code.returned store (tree.code temps) = []
  frame : ∀ store v, v.bound ≤ temps → Code.exec store (tree.code temps) v = store v
  value : ∀ store, (tree.operand temps).eval (Code.exec store (tree.code temps)) = tree.value (namesOf store)
  bounded : ∀ v, (tree.operand temps).asVar? = some v → v.bound ≤ temps + tree.operations
  defined : ∀ known, (∀ name ∈ tree.reads, Variable.named name ∈ known) →
    DefinedFirst known (tree.code temps) ∧
      ∀ v, (tree.operand temps).asVar? = some v → v ∈ results (tree.code temps) ++ known

namespace Computes

variable {tree inner left right : ParseTree} {temps : Nat}

theorem names (computes : tree.Computes temps) (store : Store) :
    namesOf (Code.exec store (tree.code temps)) = namesOf store := by
  funext name
  exact computes.frame store (.named name) (Nat.zero_le _)

theorem of_inner (computes : inner.Computes temps) (code : tree.code temps = inner.code temps)
    (operand : tree.operand temps = inner.operand temps) (value : ∀ names, tree.value names = inner.value names)
    (reads : tree.reads = inner.reads) (operations : tree.operations = inner.operations) : tree.Computes temps := by
  constructor
  · rw [code]
    exact computes.silent
  · rw [code]
    exact computes.frame
  · intro store
    rw [code, operand, value, computes.value]
  · rw [operand, operations]
    exact computes.bounded
  · rw [code, operand, reads]
    exact computes.defined

-- The right operand's code only writes temporaries that the left operand does not use.
theorem left_value (first : left.Computes temps) (second : right.Computes (temps + left.operations)) (store : Store) :
    (left.operand temps).eval
      (Code.exec (Code.exec store (left.code temps)) (right.code (temps + left.operations))) =
        left.value (namesOf store) := by
  rw [← first.value store]
  refine Operand.eval_congr ?_
  intro v used
  exact second.frame _ v (first.bounded v used)

theorem right_value (first : left.Computes temps) (second : right.Computes (temps + left.operations)) (store : Store) :
    (right.operand (temps + left.operations)).eval
      (Code.exec (Code.exec store (left.code temps)) (right.code (temps + left.operations))) =
        right.value (namesOf store) := by
  rw [second.value, first.names]

theorem definedFirst_operands (first : left.Computes temps) (second : right.Computes (temps + left.operations))
    (op : ArithOp) {known : List Variable} (read : ∀ name ∈ left.reads ++ right.reads, Variable.named name ∈ known) :
    DefinedFirst known
      (left.code temps ++ right.code (temps + left.operations) ++ [operation op temps left right]) := by
  obtain ⟨leftRead, rightRead⟩ := List.forall_mem_append.mp read
  obtain ⟨leftDefined, leftSettled⟩ := first.defined known leftRead
  obtain ⟨rightDefined, rightSettled⟩ := second.defined (results (left.code temps) ++ known)
    fun name member => List.mem_append_right _ (rightRead name member)
  have both : ∀ v, v ∈ results (left.code temps ++ right.code (temps + left.operations)) ++ known ↔
      v ∈ results (right.code (temps + left.operations)) ++ (results (left.code temps) ++ known) := by
    intro v
    simp only [results, List.filterMap_append, List.mem_append]
    rw [or_assoc, or_left_comm]
  rw [Code.definedFirst_append, Code.definedFirst_append]
  refine ⟨⟨leftDefined, rightDefined⟩, ?_, trivial⟩
  intro v used
  rw [both]
  obtain ⟨source, member, name⟩ := List.mem_filterMap.mp used
  rcases List.mem_cons.mp member with rfl | member
  · exact List.mem_append_right _ (leftSettled v name)
  · cases List.mem_singleton.mp member
    exact rightSettled v name

theorem of_operands {op : ArithOp} (first : left.Computes temps) (second : right.Computes (temps + left.operations))
    (code : tree.code temps =
      left.code temps ++ right.code (temps + left.operations) ++ [operation op temps left right])
    (operand : tree.operand temps = .var (.temp (temps + left.operations + right.operations)))
    (value : ∀ names, tree.value names = op.eval (left.value names) (right.value names))
    (reads : tree.reads = left.reads ++ right.reads)
    (operations : tree.operations = left.operations + right.operations + 1) : tree.Computes temps := by
  constructor
  · intro store
    rw [code, Code.returned_append, Code.returned_append, first.silent, second.silent]
    rfl
  · intro store v old
    have apart : (operation op temps left right).result? ≠ some v := by
      intro same
      cases same
      simp only [Variable.bound] at old
      omega
    rw [code, Code.exec_append, Code.exec_append]
    refine (Instr.exec_other apart _).trans ?_
    rw [second.frame _ v (by omega), first.frame _ v old]
  · intro store
    rw [code, Code.exec_append, Code.exec_append, operand, value]
    refine (Store.set_same _ _ _).trans ?_
    rw [left_value first second, right_value first second]
  · intro v used
    rw [operand] at used
    cases used
    rw [operations]
    simp only [Variable.bound]
    omega
  · intro known read
    rw [reads] at read
    rw [code, operand]
    refine ⟨definedFirst_operands first second op read, ?_⟩
    intro v used
    cases used
    simp [results, operation, Instr.result?]

theorem definedFirst_then (computes : tree.Computes temps) {instr : Instr} (only : instr.sources = [tree.operand temps])
    {known : List Variable} (read : ∀ name ∈ tree.reads, Variable.named name ∈ known) :
    DefinedFirst known (tree.code temps ++ [instr]) := by
  obtain ⟨defined, settled⟩ := computes.defined known read
  rw [Code.definedFirst_append]
  refine ⟨defined, ?_, trivial⟩
  intro v used
  rw [Instr.reads, only] at used
  obtain ⟨source, member, name⟩ := List.mem_filterMap.mp used
  cases List.mem_singleton.mp member
  exact settled v name

end Computes

variable {head : Nonterminal} {tree : ParseTree}

theorem computes_derivation (derivation : Derivation head tree) (valued : head.valued = true) (temps : Nat) :
    tree.Computes temps := by
  induction derivation generalizing temps with
  | program | stmtListCons | stmtListLast | declare | intType | assign | ret => cases valued
  | add expr plus term left right =>
    exact (left rfl temps).of_operands (right rfl _) rfl rfl (fun _ => rfl) rfl rfl
  | sub expr minus term left right =>
    exact (left rfl temps).of_operands (right rfl _) rfl rfl (fun _ => rfl) rfl rfl
  | mul term star factor left right =>
    exact (left rfl temps).of_operands (right rfl _) rfl rfl (fun _ => rfl) rfl rfl
  | exprTerm term inner | termFactor factor inner => exact (inner rfl temps).of_inner rfl rfl (fun _ => rfl) rfl rfl
  | paren opens expr closes inner => exact (inner rfl temps).of_inner rfl rfl (fun _ => rfl) rfl rfl
  | @ident name named =>
    refine ⟨fun _ => rfl, fun _ _ _ => rfl, fun _ => rfl, ?_, ?_⟩
    · intro v used
      cases used
      exact Nat.zero_le _
    · intro known read
      refine ⟨trivial, ?_⟩
      intro v used
      cases used
      exact read name.text List.mem_cons_self
  | intConst constant =>
    exact ⟨fun _ => rfl, fun _ _ _ => rfl, fun _ => rfl, nofun, fun _ _ => ⟨trivial, nofun⟩⟩

-- What the code of a statement does, over the names alone.
structure Performs (statement : ParseTree) (temps : Nat) : Prop where
  returned : ∀ store, Code.returned store (statement.code temps) = Statement.returned (namesOf store) statement
  exec : ∀ store, namesOf (Code.exec store (statement.code temps)) = Statement.exec (namesOf store) statement
  defined : ∀ known, (∀ name ∈ Statement.reads statement, Variable.named name ∈ known) →
    DefinedFirst known (statement.code temps)
  assigned : ∀ name ∈ Statement.assigned statement, Variable.named name ∈ results (statement.code temps)

theorem performs_derivation {statement : ParseTree} (derivation : Derivation .stmt statement) (temps : Nat) :
    statement.Performs temps := by
  cases derivation with
  | declare typed named =>
    cases typed
    refine ⟨fun _ => rfl, fun _ => rfl, fun _ _ => trivial, ?_⟩
    intro name member
    cases member
  | @assign target equals source named assigned expr =>
    have computes := computes_derivation expr rfl temps
    have code : ParseTree.code temps (.node .assign [.leaf target, .leaf equals, source]) =
      source.code temps ++ [.mov (.named target.text) (source.operand temps)] := rfl
    constructor
    · intro store
      rw [code, Code.returned_append, computes.silent]
      rfl
    · intro store
      rw [code, Code.exec_append]
      funext name
      change Store.set _ _ _ (.named name) = Names.set _ _ _ name
      rw [computes.value, Store.set, Names.set, ← computes.names store]
      simp [namesOf]
    · intro known read
      exact computes.definedFirst_then rfl read
    · intro name member
      cases List.mem_singleton.mp member
      simp [code, results, Instr.result?]
  | @ret keyword source returned expr =>
    have computes := computes_derivation expr rfl temps
    have code : ParseTree.code temps (.node .ret [.leaf keyword, source]) =
      source.code temps ++ [.ret (source.operand temps)] := rfl
    constructor
    · intro store
      rw [code, Code.returned_append, computes.silent]
      exact congrArg (fun value => [value]) (computes.value store)
    · intro store
      rw [code, Code.exec_append]
      exact computes.names store
    · intro known read
      exact computes.definedFirst_then rfl read
    · intro name member
      cases member

theorem returned_stmtList {list : ParseTree} (derivation : Derivation .stmtList list) (temps : Nat) (store : Store) :
    Code.returned store (list.code temps) = returnedBy (namesOf store) list.statements := by
  generalize same : Nonterminal.stmtList = head at derivation
  induction derivation generalizing temps store with
  | stmtListCons first ends others _ rest =>
    have performs := performs_derivation first temps
    change Code.returned store (_ ++ _) = _ ++ returnedBy _ _
    rw [Code.returned_append, performs.returned, rest _ _ rfl, performs.exec]
  | stmtListLast only ends _ =>
    have performs := performs_derivation only temps
    exact (performs.returned store).trans (List.append_nil _).symm
  | _ => cases same

theorem definedFirst_stmtList {list : ParseTree} (derivation : Derivation .stmtList list) (temps : Nat)
    {names : List String} {known : List Variable} (covered : ∀ name ∈ names, Variable.named name ∈ known)
    (assigned : AssignedFirst names list.statements) : DefinedFirst known (list.code temps) := by
  generalize same : Nonterminal.stmtList = head at derivation
  induction derivation generalizing temps names known with
  | stmtListCons first ends others _ rest =>
    have performs := performs_derivation first temps
    obtain ⟨read, later⟩ := assigned
    change DefinedFirst known (_ ++ _)
    rw [Code.definedFirst_append]
    refine ⟨performs.defined known fun name member => covered name (read name member), ?_⟩
    refine rest _ ?_ later rfl
    intro name member
    rcases List.mem_append.mp member with here | earlier
    · exact List.mem_append_left _ (performs.assigned name here)
    · exact List.mem_append_right _ (covered name earlier)
  | stmtListLast only ends _ =>
    obtain ⟨read, _⟩ := assigned
    exact (performs_derivation only temps).defined known fun name member => covered name (read name member)
  | _ => cases same

-- A program is its list of statements.
theorem returned_code (derivation : Derivation .program tree) (temps : Nat) (store : Store) :
    Code.returned store (tree.code temps) = returnedBy (namesOf store) tree.statements := by
  cases derivation with
  | program statements => exact returned_stmtList statements temps store

instance decidableAssignedFirst (known : List String) :
    (statements : List ParseTree) → Decidable (AssignedFirst known statements)
  | [] => isTrue trivial
  | statement :: rest =>
    have := decidableAssignedFirst (Statement.assigned statement ++ known) rest
    inferInstanceAs (Decidable (_ ∧ _))

theorem definedFirst_code (derivation : Derivation .program tree) (temps : Nat) {names : List String}
    {known : List Variable} (covered : ∀ name ∈ names, Variable.named name ∈ known)
    (assigned : AssignedFirst names tree.statements) : DefinedFirst known (tree.code temps) := by
  cases derivation with
  | program statements => exact definedFirst_stmtList statements temps covered assigned

end StraightLine.ParseTree
