import StraightLine.Assembly.Machine
import StraightLine.Proofs.Selection

namespace StraightLine.Assembly

open Code (Variable Operand Store)

theorem Registers.set_same (registers : Registers) (target : Register) (value : Int32) :
    registers.set target value target = value := by
  simp [Registers.set]

theorem Registers.set_other (registers : Registers) {target other : Register} (value : Int32) (apart : other ≠ target) :
    registers.set target value other = registers other := by
  simp [Registers.set, apart]

section OneInstruction

variable {file after : RegisterFile} {instr : Code.Instr} {rest : List Code.Instr} {registers : Registers} {store : Store}

-- Sources that are bound leave the file alone.
theorem acquireAll_bound (instr : Code.Instr) (rest : List Code.Instr) {wanted : List Variable}
    (bound : ∀ v ∈ wanted, ∃ slot, file.lookup? v = some slot ∧ registers (.t slot) = store v) :
    ∃ slots, file.acquireAll (wanted.map (sourceRequest instr rest)) = .ok (slots, file) ∧
      slots.map (fun slot => registers (.t slot)) = wanted.map store := by
  induction wanted with
  | nil => exact ⟨[], rfl, rfl⟩
  | cons v others ih =>
    obtain ⟨slot, found, value⟩ := bound v List.mem_cons_self
    obtain ⟨slots, acquired, values⟩ := ih fun u member => bound u (List.mem_cons_of_mem _ member)
    refine ⟨slot :: slots, ?_, by simp [value, values]⟩
    simp only [List.map_cons, RegisterFile.acquireAll]
    rw [show (file.acquire (sourceRequest instr rest v).v _).outcome = _ from RegisterFile.acquire_held found]
    change (file.acquireAll (others.map (sourceRequest instr rest)) >>= _) = _
    rw [acquired]
    rfl

theorem assemble_value {slots : List Slot} (targets : List Slot) (normal : instr.IsNormal)
    (values : slots.map (fun slot => registers (.t slot)) = instr.reads.map store)
    (count : targets.length = instr.result?.toList.length) :
    (assemble instr (slots ++ targets)).value registers = instr.value store ∧
      (assemble instr (slots ++ targets)).target = (targets.head?.map Register.t).getD .a0 := by
  cases instr with
  | mov result source =>
    obtain ⟨target, rfl⟩ := List.length_eq_one_iff.mp count
    cases source with
    | imm value =>
      obtain rfl := List.map_eq_nil_iff.mp values
      exact ⟨rfl, rfl⟩
    | var v =>
      obtain ⟨source, rfl, same⟩ := List.map_eq_singleton_iff.mp values
      exact ⟨same, rfl⟩
  | arith op result left right =>
    obtain ⟨target, rfl⟩ := List.length_eq_one_iff.mp count
    cases left with
    | imm value => cases normal.1
    | var first =>
      cases right with
      | imm value =>
        obtain rfl := normal.adds
        obtain ⟨source, rfl, same⟩ := List.map_eq_singleton_iff.mp values
        exact ⟨congrArg (· + value) same, rfl⟩
      | var second =>
        obtain ⟨left, others, rfl, leftSame, values⟩ := List.map_eq_cons_iff.mp values
        obtain ⟨right, rfl, rightSame⟩ := List.map_eq_singleton_iff.mp values
        exact ⟨congr (congrArg op.eval leftSame) rightSame, rfl⟩
  | ret operand =>
    obtain rfl := List.length_eq_zero_iff.mp count
    cases operand with
    | imm value =>
      obtain rfl := List.map_eq_nil_iff.mp values
      exact ⟨rfl, rfl⟩
    | var v =>
      obtain ⟨source, rfl, same⟩ := List.map_eq_singleton_iff.mp values
      exact ⟨same, rfl⟩

theorem select_bound {selection : Instr} (normal : instr.IsNormal)
    (bound : ∀ v ∈ instr.reads, ∃ slot, file.lookup? v = some slot ∧ registers (.t slot) = store v)
    (selected : (select file instr rest).outcome = .ok (selection, after)) :
    selection.value registers = instr.value store ∧
      ((instr.result? = none ∧ selection.target = .a0 ∧ after = file) ∨
        ∃ v slot, instr.result? = some v ∧ selection.target = .t slot ∧
          (file.acquire v fun held => !readIn rest held).outcome = .ok (slot, after)) := by
  obtain ⟨slots, acquired, values⟩ := acquireAll_bound instr rest bound
  rw [select_eq file rest normal, requests, RegisterFile.acquireAll_append, acquired] at selected
  simp only [bind_assoc, pure_bind, Logged.bind_eq_ok_iff] at selected
  obtain ⟨_, same, ⟨targets, last⟩, own, built⟩ := selected
  cases same
  cases built
  cases result : instr.result? with
  | none =>
    rw [result] at own
    cases own
    obtain ⟨value, target⟩ := assemble_value [] normal values (by simp [result])
    exact ⟨value, .inl ⟨rfl, target, rfl⟩⟩
  | some v =>
    rw [result] at own
    simp only [Option.toList_some, List.map_cons, List.map_nil, RegisterFile.acquireAll, pure_bind,
      Logged.bind_eq_ok_iff] at own
    obtain ⟨⟨slot, after⟩, got, built⟩ := own
    cases built
    obtain ⟨value, target⟩ := assemble_value [slot] normal values (by simp [result])
    exact ⟨value, .inr ⟨v, slot, rfl, target, got⟩⟩

-- Every known variable that is still to be read sits in the register the file records.
def Agrees (known : List Variable) (rest : List Code.Instr) (file : RegisterFile) (registers : Registers)
    (store : Store) : Prop :=
  ∀ v ∈ known, readIn rest v = true → ∃ slot, file.lookup? v = some slot ∧ registers (.t slot) = store v

variable {known : List Variable} {selection : Instr}

theorem agrees_after_return (agrees : Agrees known (instr :: rest) file registers store) (value : Int32) :
    Agrees known rest file (registers.set .a0 value) store := by
  intro v member read
  obtain ⟨slot, found, same⟩ := agrees v member (readIn_cons.mpr (.inr read))
  have apart : Register.t slot ≠ .a0 := nofun
  exact ⟨slot, found, (Registers.set_other _ _ apart).trans same⟩

-- The result takes the register of a source only when that source dies in the same instruction.
theorem agrees_after_result {target : Variable} {slot : Slot} (consistent : file.Consistent)
    (agrees : Agrees known (instr :: rest) file registers store)
    (acquired : (file.acquire target fun held => !readIn rest held).outcome = .ok (slot, after)) (value : Int32) :
    Agrees (target :: known) rest after (registers.set (.t slot) value) (store.set target value) := by
  have bound := RegisterFile.acquire_bound acquired
  intro v member read
  by_cases same : v = target
  · subst same
    exact ⟨slot, bound, by rw [Registers.set_same, Store.set_same]⟩
  · have old := (List.mem_cons.mp member).resolve_left same
    obtain ⟨home, found, value⟩ := agrees v old (readIn_cons.mpr (.inr read))
    have kept := RegisterFile.acquire_kept consistent acquired found (by simp [read])
    have apart : Register.t home ≠ .t slot := by
      intro equal
      cases equal
      exact same ((RegisterFile.acquire_consistent consistent acquired).unique kept bound)
    exact ⟨home, kept, by rw [Registers.set_other _ _ apart, Store.set_other _ _ same, value]⟩

theorem select_agrees (normal : instr.IsNormal) (consistent : file.Consistent)
    (agrees : Agrees known (instr :: rest) file registers store) (reads : ∀ v ∈ instr.reads, v ∈ known)
    (selected : (select file instr rest).outcome = .ok (selection, after)) :
    selection.returned registers = instr.returned store ∧ after.Consistent ∧
      Agrees (instr.result?.toList ++ known) rest after (selection.exec registers) (instr.exec store) := by
  have bound : ∀ v ∈ instr.reads, ∃ slot, file.lookup? v = some slot ∧ registers (.t slot) = store v :=
    fun v read => agrees v (reads v read) (readIn_cons.mpr (.inl read))
  obtain ⟨value, ⟨result, target, rfl⟩ | ⟨v, slot, result, target, acquired⟩⟩ := select_bound normal bound selected
  · rw [Code.Instr.returned_of_return result, Code.Instr.exec_of_return result, result]
    refine ⟨by simp [Instr.returned, target, value], consistent, ?_⟩
    rw [Instr.exec, target]
    exact agrees_after_return agrees _
  · rw [Code.Instr.returned_of_result result, Code.Instr.exec_of_result result, result]
    refine ⟨by simp [Instr.returned, target], RegisterFile.acquire_consistent consistent acquired, ?_⟩
    rw [Instr.exec, target, value]
    exact agrees_after_result consistent agrees acquired _

end OneInstruction

theorem selectAll_returned {known : List Variable} {file : RegisterFile} {code : List Code.Instr} {program : List Instr}
    {registers : Registers} {store : Store} (normal : ∀ instr ∈ code, instr.IsNormal) (consistent : file.Consistent)
    (agrees : Agrees known code file registers store) (defined : Code.DefinedFirst known code)
    (selected : (selectAll file code).outcome = .ok program) : returned registers program = Code.returned store code := by
  induction code generalizing known file program registers store with
  | nil =>
    cases selected
    rfl
  | cons instr rest ih =>
    rw [selectAll_cons] at selected
    simp only [Logged.bind_eq_ok_iff] at selected
    obtain ⟨⟨selection, after⟩, one, others, later, built⟩ := selected
    cases built
    obtain ⟨here, consistent, agrees⟩ := select_agrees (normal instr List.mem_cons_self) consistent agrees defined.1 one
    have there := ih (fun instr member => normal instr (List.mem_cons_of_mem _ member)) consistent agrees defined.2 later
    simp only [returned, Code.returned, here, there]

theorem lower_eq_ok {code : List Code.Instr} {program : List Instr} (lowered : (lower code).outcome = .ok program) :
    ∃ normal, Code.normalize? code = some normal ∧ (selectAll .empty normal).outcome = .ok program := by
  cases done : Code.normalize? code with
  | none => simp [lower, normalize, done, Logged.bind_eq_ok_iff] at lowered
  | some normal =>
    rw [lower_outcome done] at lowered
    exact ⟨normal, rfl, lowered⟩

-- From any registers the program writes to `a0` what the code returns from any store.
def Realizes (program : List Instr) (code : List Code.Instr) : Prop :=
  ∀ registers store, returned registers program = Code.returned store code

theorem selectAll_realizes {code : List Code.Instr} {program : List Instr} (normal : ∀ instr ∈ code, instr.IsNormal)
    (defined : Code.DefinedFirst [] code) (selected : (selectAll .empty code).outcome = .ok program) :
    Realizes program code := by
  intro registers store
  have start : Agrees [] code .empty registers store := nofun
  exact selectAll_returned normal RegisterFile.empty_consistent start defined selected

theorem Realizes.of_normal {code normal : List Code.Instr} {program : List Instr} (realizes : Realizes program normal)
    (done : Code.normalize? code = some normal) : Realizes program code := by
  intro registers store
  rw [realizes registers store, Code.returned_normalize? done store]

theorem lower_realizes {code : List Code.Instr} {program : List Instr} (defined : Code.DefinedFirst [] code)
    (lowered : (lower code).outcome = .ok program) : Realizes program code := by
  obtain ⟨normal, done, selected⟩ := lower_eq_ok lowered
  have steps := Code.normalize?_from done
  have realizes := selectAll_realizes (Code.normalizeFrom?_isNormal steps)
    (Code.normalizeFrom?_definedFirst steps defined) selected
  exact realizes.of_normal done

theorem returned_lower {code : List Code.Instr} {program : List Instr} (defined : Code.DefinedFirst [] code)
    (lowered : (lower code).outcome = .ok program) (registers : Registers) (store : Store) :
    returned registers program = Code.returned store code := by
  have realizes := lower_realizes defined lowered
  exact realizes registers store

-- Five names leave two registers: `$0` is evicted, `$2` takes the register of a source that dies with it, and
-- `$1` is assigned three times.
def crowded : List Code.Instr :=
  [.mov (.named "a") (.imm 1), .mov (.named "b") (.imm 2), .mov (.named "c") (.imm 3), .mov (.named "d") (.imm 4),
   .mov (.named "e") (.imm 5), .arith .sub (.temp 0) (.var (.named "a")) (.var (.named "b")),
   .arith .mul (.temp 1) (.var (.named "c")) (.var (.temp 0)), .arith .add (.temp 2) (.imm 5000) (.var (.named "d")),
   .mov (.temp 1) (.var (.temp 2)), .arith .sub (.temp 1) (.var (.temp 1)) (.var (.named "e")),
   .ret (.var (.temp 1)), .ret (.var (.named "e"))]

theorem returned_lower_crowded :
    Code.DefinedFirst [] crowded ∧ ∃ program, (lower crowded).outcome = .ok program ∧
      ∀ registers, returned registers program = [4999, 5] := by
  have defined : Code.DefinedFirst [] crowded := by decide
  refine ⟨defined, _, rfl, ?_⟩
  intro registers
  exact (returned_lower defined rfl registers fun _ => 0).trans (by decide)

end StraightLine.Assembly
