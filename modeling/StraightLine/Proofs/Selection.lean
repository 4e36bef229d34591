import StraightLine.Proofs.NormalForm
import StraightLine.Proofs.RegisterFile

namespace StraightLine.Assembly

open Code (Variable Operand)

structure Request where
  v : Variable
  evictable : Variable → Bool

def sourceRequest (instr : Code.Instr) (rest : List Code.Instr) (v : Variable) : Request :=
  ⟨v, fun held => !readIn (instr :: rest) held⟩

def resultRequest (rest : List Code.Instr) (v : Variable) : Request := ⟨v, fun held => !readIn rest held⟩

def requests (instr : Code.Instr) (rest : List Code.Instr) : List Request :=
  instr.reads.map (sourceRequest instr rest) ++ instr.result?.toList.map (resultRequest rest)

def allRequests : List Code.Instr → List Request
  | [] => []
  | instr :: rest => requests instr rest ++ allRequests rest

def RegisterFile.acquireAll (file : RegisterFile) : List Request → Except LowerError (List Slot × RegisterFile)
  | [] => return ([], file)
  | request :: rest => do
    let (slot, next) ← (file.acquire request.v request.evictable).outcome
    let (slots, last) ← next.acquireAll rest
    return (slot :: slots, last)

-- The instruction for the registers of the variables read and of the result, in this order. Other lists of
-- registers do not arise.
def assemble : Code.Instr → List Slot → Instr
  | .mov _ (.imm value), [target] => .li (.t target) value
  | .mov _ (.var _), [source, target] => .mv (.t target) (.t source)
  | .arith _ _ _ (.imm value), [source, target] => .addi (.t target) (.t source) value
  | .arith op _ _ (.var _), [first, second, target] => .arith op (.t target) (.t first) (.t second)
  | .ret (.var _), [source] => .mv .a0 (.t source)
  | .ret (.imm value), _ => .li .a0 value
  | _, _ => .li .a0 0

theorem readIn_cons {instr : Code.Instr} {rest : List Code.Instr} {v : Variable} :
    readIn (instr :: rest) v = true ↔ v ∈ instr.reads ∨ readIn rest v = true := by
  simp [readIn]

theorem RegisterFile.acquireAll_append (file : RegisterFile) (first second : List Request) :
    file.acquireAll (first ++ second) = do
      let (slots, next) ← file.acquireAll first
      let (more, last) ← next.acquireAll second
      return (slots ++ more, last) := by
  induction first generalizing file with
  | nil => simp [acquireAll]
  | cons request rest ih => simp [acquireAll, ih]

theorem select_eq (file : RegisterFile) {instr : Code.Instr} (rest : List Code.Instr) (normal : instr.IsNormal) :
    (select file instr rest).outcome = do
      let (slots, after) ← file.acquireAll (requests instr rest)
      return (assemble instr slots, after) := by
  cases instr with
  | mov result source =>
    cases source with
    | imm value =>
      rw [show requests _ rest = [resultRequest rest result] from rfl]
      simp only [select, Logged.outcome_bind, RegisterFile.acquireAll, bind_assoc, pure_bind]
      rfl
    | var v =>
      rw [show requests _ rest = [sourceRequest _ rest v, resultRequest rest result] from rfl]
      simp only [select, Logged.outcome_bind, RegisterFile.acquireAll, bind_assoc, pure_bind]
      rfl
  | arith op result left right =>
    cases left with
    | imm value => cases normal.1
    | var first =>
      cases right with
      | imm value =>
        obtain rfl := normal.adds
        rw [show requests _ rest = [sourceRequest _ rest first, resultRequest rest result] from rfl]
        simp only [select, Logged.outcome_bind, RegisterFile.acquireAll, bind_assoc, pure_bind]
        rfl
      | var second =>
        rw [show requests _ rest =
          [sourceRequest _ rest first, sourceRequest _ rest second, resultRequest rest result] from rfl]
        cases op <;>
          simp only [select, Logged.outcome_bind, RegisterFile.acquireAll, bind_assoc, pure_bind] <;> rfl
  | ret value =>
    cases value with
    | imm value => rfl
    | var v =>
      rw [show requests _ rest = [sourceRequest _ rest v] from rfl]
      simp only [select, Logged.outcome_bind, RegisterFile.acquireAll, bind_assoc, pure_bind]
      rfl

theorem selectAll_cons (file : RegisterFile) (instr : Code.Instr) (rest : List Code.Instr) :
    (selectAll file (instr :: rest)).outcome = do
      let (selection, after) ← (select file instr rest).outcome
      let others ← (selectAll after rest).outcome
      return selection :: others := by
  simp only [selectAll, Logged.outcome_bind, Logged.outcome_record]
  rfl

-- Selection fails exactly where one of the acquisitions does.
theorem selectAll_error_iff {file : RegisterFile} {code : List Code.Instr} {error : LowerError}
    (normal : ∀ instr ∈ code, instr.IsNormal) :
    (selectAll file code).outcome = .error error ↔ file.acquireAll (allRequests code) = .error error := by
  induction code generalizing file with
  | nil => exact ⟨nofun, nofun⟩
  | cons instr rest ih =>
    have others := fun instr member => normal instr (List.mem_cons_of_mem _ member)
    rw [selectAll_cons, select_eq file rest (normal instr List.mem_cons_self), allRequests,
      RegisterFile.acquireAll_append]
    simp only [bind_assoc, pure_bind, Logged.bind_eq_error_iff]
    have returns : ∀ {α : Type} (a : α), (pure a : Except LowerError α) ≠ .error error := nofun
    refine or_congr Iff.rfl (exists_congr fun pair => and_congr_right fun _ => ?_)
    simp [ih others, returns]

theorem lower_outcome {code normal : List Code.Instr} (done : Code.normalize? code = some normal) :
    (lower code).outcome = (selectAll .empty normal).outcome := by
  simp only [lower, normalize, done, Logged.outcome_bind, Logged.outcome_record]
  change ((selectAll .empty normal).outcome >>= fun program => pure program) = _
  exact bind_pure _

end StraightLine.Assembly
