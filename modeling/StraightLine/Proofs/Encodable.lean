import Mathlib.Data.List.Forall2
import StraightLine.Proofs.Failures

namespace StraightLine.Assembly

open Code (Variable)

-- What may be selected for an instruction of normal code.
inductive Selected : Code.Instr → Instr → Prop where
  | load (result : Variable) (value : Int32) (target : Slot) :
      Selected (.mov result (.imm value)) (.li (.t target) value)
  | move (result v : Variable) (target source : Slot) : Selected (.mov result (.var v)) (.mv (.t target) (.t source))
  | addImmediate (result v : Variable) {value : Int32} (target source : Slot) (fits : Code.fitsAddi value = true) :
      Selected (.arith .add result (.var v) (.imm value)) (.addi (.t target) (.t source) value)
  | operate (op : ArithOp) (result u v : Variable) (target first second : Slot) :
      Selected (.arith op result (.var u) (.var v)) (.arith op (.t target) (.t first) (.t second))
  | returnImmediate (value : Int32) : Selected (.ret (.imm value)) (.li .a0 value)
  | returnVariable (v : Variable) (source : Slot) : Selected (.ret (.var v)) (.mv .a0 (.t source))

variable {file after : RegisterFile} {instr : Code.Instr} {rest code : List Code.Instr} {selection : Instr}
  {acquired : List Slot}

theorem RegisterFile.length_acquireAll {requests : List Request} (served : file.acquireAll requests = .ok (acquired, after)) :
    acquired.length = requests.length := by
  induction requests generalizing file acquired with
  | nil =>
    cases served
    rfl
  | cons request requests ih =>
    simp only [acquireAll, Logged.bind_eq_ok_iff] at served
    obtain ⟨_, _, _, later, built⟩ := served
    cases built
    rw [List.length_cons, List.length_cons, ih later]

-- Normal code gives every operand that has to be in a register as a variable, so none is ill-shaped.
theorem Selected.assemble (normal : instr.IsNormal)
    (count : acquired.length = instr.reads.length + instr.result?.toList.length) :
    Selected instr (assemble instr acquired) := by
  cases instr with
  | mov result source =>
    cases source with
    | imm value =>
      obtain ⟨target, rfl⟩ := List.length_eq_one_iff.mp count
      exact .load result value target
    | var v =>
      obtain ⟨source, target, rfl⟩ := List.length_eq_two.mp count
      exact .move result v target source
  | arith op result left right =>
    obtain ⟨onLeft, onRight⟩ := normal
    cases left with
    | imm value => cases onLeft
    | var u =>
      cases right with
      | imm value =>
        obtain ⟨source, target, rfl⟩ := List.length_eq_two.mp count
        rcases onRight with loaded | taken
        · cases loaded
        · cases op with
          | add => exact .addImmediate result u target source taken
          | sub => cases taken
          | mul => cases taken
      | var v =>
        obtain ⟨first, second, target, rfl⟩ := List.length_eq_three.mp count
        exact .operate op result u v target first second
  | ret value =>
    cases value with
    | imm value => exact .returnImmediate value
    | var v =>
      obtain ⟨source, rfl⟩ := List.length_eq_one_iff.mp count
      exact .returnVariable v source

theorem select_selected (normal : instr.IsNormal) (selected : (select file instr rest).outcome = .ok (selection, after)) :
    Selected instr selection := by
  rw [select_eq file rest normal, Logged.bind_eq_ok_iff] at selected
  obtain ⟨pair, served, built⟩ := selected
  cases built
  apply Selected.assemble normal
  rw [RegisterFile.length_acquireAll served, requests, List.length_append, List.length_map, List.length_map]

theorem selectAll_selected {program : List Instr} (normal : ∀ instr ∈ code, instr.IsNormal)
    (selected : (selectAll file code).outcome = .ok program) : List.Forall₂ Selected code program := by
  induction code generalizing file program with
  | nil =>
    cases selected
    exact .nil
  | cons instr rest ih =>
    rw [selectAll_cons, Logged.bind_eq_ok_iff] at selected
    obtain ⟨pair, one, more⟩ := selected
    obtain ⟨others, later, built⟩ := Logged.bind_eq_ok_iff.mp more
    cases built
    obtain ⟨here, there⟩ := List.forall_mem_cons.mp normal
    exact .cons (select_selected here one) (ih there later)

def Register.scratch : List Register := slots.map .t

-- An instruction of the program can be encoded, and it writes to `a0` only to return.
structure Encodes (instr : Code.Instr) (selection : Instr) : Prop where
  immediate : ∀ target source value, selection = .addi target source value → -2048 ≤ value.toInt ∧ value.toInt ≤ 2047
  returns : selection.target = .a0 ↔ ∃ value, instr = .ret value
  target : (∀ value, instr ≠ .ret value) → selection.target ∈ Register.scratch
  sources : ∀ source ∈ selection.sources, source ≠ .a0 ∧ source ∈ Register.scratch

theorem Register.mem_scratch_iff {register : Register} : register ∈ scratch ↔ register ≠ .a0 := by
  cases register with
  | a0 => exact iff_of_false (by decide) (not_not_intro rfl)
  | t slot => exact iff_of_true (List.mem_map_of_mem (RegisterFile.mem_slots slot)) nofun

theorem Selected.encodes (selected : Selected instr selection) : Encodes instr selection := by
  cases selected with
  | addImmediate result v target source fits =>
    refine ⟨?_, ?_, ?_, ?_⟩
    · intro _ _ _ same
      cases same
      exact of_decide_eq_true fits
    all_goals simp [Instr.target, Instr.sources, Register.mem_scratch_iff]
  | load | move | operate | returnImmediate | returnVariable =>
    constructor <;> simp [Instr.target, Instr.sources, Register.mem_scratch_iff]

theorem lower_encodable {code : List Code.Instr} (room : Code.LeavesRoom code) :
    ∃ normal, Code.normalize? code = some normal ∧
      (∀ instr operand, (lower code).outcome ≠ .error (.illShapedOperand instr operand)) ∧
      ∀ program, (lower code).outcome = .ok program → List.Forall₂ Encodes normal program := by
  obtain ⟨normal, done⟩ := Code.normalize?_of_room room
  refine ⟨normal, done, ?_, ?_⟩
  · intro instr operand failed
    rcases lower_eq_error failed with ⟨v, exhausted⟩ | ⟨exhausted, _⟩
    · cases exhausted
    · cases exhausted
  · intro program lowered
    have shapes := Code.normalizeFrom?_isNormal (Code.normalize?_from done)
    rw [lower_outcome done] at lowered
    exact (selectAll_selected shapes lowered).imp fun _ _ => Selected.encodes

-- Both operands immediate, the least immediate that fits and the first that does not, each operation with an immediate on
-- the side where it needs a register, and both forms of return.
def edges : List Code.Instr :=
  [.arith .add (.temp 0) (.imm 2047) (.imm (-2048)), .arith .add (.named "x") (.imm 2048) (.var (.temp 0)),
   .arith .sub (.temp 1) (.imm 5) (.var (.named "x")), .arith .mul (.temp 2) (.imm 3) (.var (.temp 1)), .ret (.imm 7),
   .ret (.var (.temp 2))]

theorem lower_encodable_edges :
    Code.LeavesRoom edges ∧ ∃ normal, Code.normalize? edges = some normal ∧
      ∃ program, (lower edges).outcome = .ok program ∧ List.Forall₂ Encodes normal program ∧
        program = [.li (.t 0) 2047, .addi (.t 1) (.t 0) (-2048), .li (.t 2) 2048, .arith .add (.t 3) (.t 1) (.t 2),
          .li (.t 4) 5, .arith .sub (.t 5) (.t 4) (.t 3), .li (.t 6) 3, .arith .mul (.t 0) (.t 5) (.t 6), .li .a0 7,
          .mv .a0 (.t 0)] := by
  have room : Code.LeavesRoom edges := by decide
  obtain ⟨normal, done, _, encodes⟩ := lower_encodable room
  exact ⟨room, normal, done, _, rfl, encodes _ rfl, by decide⟩

end StraightLine.Assembly
