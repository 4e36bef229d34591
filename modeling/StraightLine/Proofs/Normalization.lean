import StraightLine.Proofs.NormalForm

namespace StraightLine.Code

-- The same operation into the same result; only the operands of an arithmetic instruction may differ.
inductive Instr.Restates : Instr → Instr → Prop where
  | mov (result : Variable) (source : Operand) : Restates (.mov result source) (.mov result source)
  | arith (op : ArithOp) (result : Variable) (left right first second : Operand) :
      Restates (.arith op result left right) (.arith op result first second)
  | ret (value : Operand) : Restates (.ret value) (.ret value)

-- The instructions of the code in their order, each behind at most two moves of immediates into the next temporaries.
inductive Prefaced : Nat → List Instr → List Instr → Prop where
  | nil (next : Nat) : Prefaced next [] []
  | cons {next : Nat} {instr last : Instr} {values : List Int32} {code rest : List Instr} (few : values.length ≤ 2)
      (restates : instr.Restates last) (others : Prefaced (next + values.length) code rest) :
      Prefaced next (instr :: code) (loadAll next values ++ last :: rest)

theorem Instr.restates_settled (instr : Instr) (next : Nat) : instr.Restates (instr.settled next) := by
  cases instr with
  | mov result source => exact .mov result source
  | arith op result left right => exact .arith op result left right _ _
  | ret value => exact .ret value

theorem prefaced_expand (next : Nat) (code : List Instr) : Prefaced next code (expand next code) := by
  induction code generalizing next with
  | nil => exact .nil next
  | cons instr code ih => exact .cons (length_loads_le instr) (instr.restates_settled next) (ih _)

theorem lt_firstUnused {code : List Instr} {number : Nat} (mentioned : .temp number ∈ code.flatMap Instr.mentioned) :
    number < firstUnused code := by
  obtain ⟨instr, member, here⟩ := List.mem_flatMap.mp mentioned
  exact bound_le_firstUnused member here

theorem after?_of_normalize? {code normal : List Instr} (done : normalize? code = some normal) :
    TempSupply.after? code = some ⟨firstUnused code⟩ := by
  obtain ⟨supply, first, _⟩ := Option.bind_eq_some_iff.mp done
  unfold TempSupply.after? at first ⊢
  split at first
  case isTrue fits => rw [if_pos fits]
  case isFalse => cases first

theorem normalize?_preserves {code : List Instr} (room : LeavesRoom code) :
    ∃ supply normal, TempSupply.after? code = some supply ∧ normalize? code = some normal ∧
      (∀ number, .temp number ∈ code.flatMap Instr.mentioned → number < supply.next) ∧
      Prefaced supply.next code normal ∧
      ∀ store, returned store normal = returned store code ∧
        (∀ name, exec store normal (.named name) = exec store code (.named name)) ∧
        ∀ number < supply.next, exec store normal (.temp number) = exec store code (.temp number) := by
  obtain ⟨normal, done⟩ := normalize?_of_room room
  refine ⟨_, normal, after?_of_normalize? done, done, fun number => lt_firstUnused, ?_, ?_⟩
  · rw [normalize?_eq_expand done]
    exact prefaced_expand _ code
  · intro store
    obtain ⟨values, agree⟩ := normalize?_agrees done store
    refine ⟨values, ?_, ?_⟩
    · intro name
      exact (agree (.named name) (Nat.zero_le _)).symm
    · intro number below
      exact (agree (.temp number) below).symm

-- Every way an instruction may change: turned around, with one immediate loaded or with both. The temporaries are
-- numbered out of order, `$7` is assigned twice, and `$9` is read but never assigned.
def mixed : List Instr :=
  [.arith .add (.temp 7) (.imm 5000) (.imm 3), .arith .mul (.named "x") (.imm 4) (.var (.temp 7)),
   .arith .sub (.temp 2) (.imm 10) (.imm 20), .arith .add (.named "y") (.imm 2048) (.var (.temp 9)),
   .arith .sub (.temp 7) (.var (.temp 2)) (.imm 1), .ret (.var (.temp 7)), .ret (.var (.named "x")),
   .ret (.var (.named "y"))]

theorem normalize?_preserves_mixed :
    LeavesRoom mixed ∧ ∃ normal, normalize? mixed = some normal ∧ normal.length = 14 ∧
      returned (fun _ => 1) normal = [-11, 20012, 2049] ∧ exec (fun _ => 1) normal (.temp 9) = 1 := by
  have room : LeavesRoom mixed := by decide
  obtain ⟨supply, normal, first, done, _, _, same⟩ := normalize?_preserves room
  obtain ⟨values, _, temps⟩ := same fun _ => 1
  have ten : supply.next = 10 := by
    cases first
    rfl
  refine ⟨room, normal, done, ?_, values.trans (by decide), temps 9 (by omega)⟩
  rw [normalize?_eq_expand done]
  rfl

end StraightLine.Code
