import StraightLine.Proofs.NormalForm

namespace StraightLine.Code

namespace Instr

-- Arithmetic on two variables or, for additions only, on a variable and an immediate of twelve signed bits.
inductive InNormalForm : Instr → Prop where
  | mov (result : Variable) (source : Operand) : InNormalForm (.mov result source)
  | ret (value : Operand) : InNormalForm (.ret value)
  | onVariables (op : ArithOp) (result left right : Variable) :
      InNormalForm (.arith op result (.var left) (.var right))
  | addImmediate (result left : Variable) {value : Int32} (low : -2048 ≤ value.toInt) (high : value.toInt ≤ 2047) :
      InNormalForm (.arith .add result (.var left) (.imm value))

-- The immediate operands of an arithmetic instruction.
def immediates : Instr → List Int32
  | .arith _ _ left right => left.immediate?.toList ++ right.immediate?.toList
  | _ => []

-- An addition takes one short immediate as it is: that on the right or, across from a variable, that on the left.
def keepsImmediate : Instr → Bool
  | .arith .add _ _ (.imm value) => fitsAddi value
  | .arith .add _ (.imm value) (.var _) => fitsAddi value
  | _ => false

end Instr

theorem fitsAddi_iff {value : Int32} : fitsAddi value = true ↔ -2048 ≤ value.toInt ∧ value.toInt ≤ 2047 :=
  decide_eq_true_iff

theorem takesRight_iff {op : ArithOp} {value : Int32} :
    takesRight op (.imm value) = true ↔ op = .add ∧ fitsAddi value = true := by
  cases op <;> simp [takesRight]

variable {instr : Instr} {code : List Instr}

theorem Instr.inNormalForm_iff : instr.InNormalForm ↔ instr.IsNormal := by
  constructor
  · intro normal
    cases normal with
    | mov result source => trivial
    | ret value => trivial
    | onVariables op result left right => exact ⟨rfl, .inl rfl⟩
    | addImmediate result left low high => exact ⟨rfl, .inr (fitsAddi_iff.mpr ⟨low, high⟩)⟩
  · intro normal
    cases instr with
    | mov result source => exact .mov result source
    | ret value => exact .ret value
    | arith op result left right =>
      obtain ⟨onLeft, onRight⟩ := normal
      cases left with
      | imm value => cases onLeft
      | var left =>
        cases right with
        | var right => exact .onVariables op result left right
        | imm value =>
          obtain ⟨rfl, fits⟩ := takesRight_iff.mp (onRight.resolve_left nofun)
          obtain ⟨low, high⟩ := fitsAddi_iff.mp fits
          exact .addImmediate result left low high

theorem Instr.InNormalForm.unchanged (normal : instr.InNormalForm) (next : Nat) :
    instr.loads = [] ∧ instr.settled next = instr := by
  cases normal with
  | mov result source => exact ⟨rfl, rfl⟩
  | ret value => exact ⟨rfl, rfl⟩
  | onVariables op result left right =>
    have refused : takesRight op (.var right) = false := by cases op <;> rfl
    simp [loads, settled, orient, refused, Operand.immediate?, Operand.loaded]
  | addImmediate result left low high =>
    have taken := takesRight_iff.mpr ⟨rfl, fitsAddi_iff.mpr ⟨low, high⟩⟩
    simp [loads, settled, orient, taken, Operand.immediate?, Operand.loaded]

theorem loads_of_normal (normal : ∀ instr ∈ code, instr.InNormalForm) : code.flatMap Instr.loads = [] := by
  apply List.flatMap_eq_nil_iff.mpr
  intro instr member
  exact ((normal instr member).unchanged 0).1

theorem expand_of_normal (normal : ∀ instr ∈ code, instr.InNormalForm) (next : Nat) : expand next code = code := by
  induction code generalizing next with
  | nil => rfl
  | cons instr code ih =>
    obtain ⟨here, later⟩ := List.forall_mem_cons.mp normal
    obtain ⟨nothing, same⟩ := here.unchanged next
    rw [expand, nothing, same, ih later]
    rfl

theorem normalize?_of_normal (normal : ∀ instr ∈ code, instr.InNormalForm) (fits : firstUnused code < countLimit) :
    normalize? code = some code := by
  have room : LeavesRoom code := by
    rw [LeavesRoom, loads_of_normal normal]
    exact fits
  obtain ⟨again, done⟩ := normalize?_of_room room
  rw [done, normalize?_eq_expand done, expand_of_normal normal]

-- The temporaries of the normal code are those of the code and the fresh ones, for which there was room.
theorem firstUnused_normal_lt {normal : List Instr} (room : LeavesRoom code) (done : normalize? code = some normal) :
    firstUnused normal < countLimit := by
  apply Nat.lt_of_le_of_lt _ room
  apply firstUnused_le_iff.mpr
  intro v member
  rcases mem_mentioned_normal (normalize?_from done) member with old | ⟨offset, low, rfl⟩
  · exact Nat.le_add_right_of_le (firstUnused_le_iff.mp (Nat.le_refl _) v old)
  · exact Nat.add_le_add_left low _

theorem length_loadAll (next : Nat) (values : List Int32) : (loadAll next values).length = values.length := by
  induction values generalizing next with
  | nil => rfl
  | cons value rest ih => rw [loadAll, List.length_cons, ih, List.length_cons]

theorem length_expand (next : Nat) (code : List Instr) :
    (expand next code).length = code.length + (code.flatMap Instr.loads).length := by
  induction code generalizing next with
  | nil => rfl
  | cons instr code ih =>
    simp only [expand, List.length_append, List.length_cons, List.flatMap_cons, length_loadAll, ih]
    omega

section Turned

variable (op : ArithOp) (result : Variable) (left right : Operand)

theorem length_immediates_orient :
    (Instr.orient op left right).1.immediate?.toList.length + (Instr.orient op left right).2.immediate?.toList.length =
      left.immediate?.toList.length + right.immediate?.toList.length := by
  cases left <;> cases right <;> cases op <;> rfl

-- Whichever side the short immediate came from, it stands on the right once the operands are turned.
theorem keepsImmediate_arith :
    (Instr.arith op result left right).keepsImmediate = takesRight op (Instr.orient op left right).2 := by
  cases left <;> cases right <;> cases op <;> rfl

end Turned

theorem length_immediate?_of_takesRight {op : ArithOp} {operand : Operand} (taken : takesRight op operand = true) :
    operand.immediate?.toList.length = 1 := by
  cases operand with
  | imm value => rfl
  | var v => cases op <;> cases taken

theorem Instr.length_loads (instr : Instr) :
    instr.loads.length + (if instr.keepsImmediate then 1 else 0) = instr.immediates.length := by
  cases instr with
  | mov result source => rfl
  | ret value => rfl
  | arith op result left right =>
    rw [keepsImmediate_arith, immediates, List.length_append, ← length_immediates_orient op]
    cases taken : takesRight op (orient op left right).2 with
    | true => simp [loads, taken, length_immediate?_of_takesRight taken]
    | false => simp [loads, taken]

theorem length_loads_code (code : List Instr) :
    (code.flatMap Instr.loads).length + code.countP Instr.keepsImmediate = (code.flatMap Instr.immediates).length := by
  induction code with
  | nil => rfl
  | cons instr code ih =>
    rw [List.flatMap_cons, List.length_append, List.countP_cons, List.flatMap_cons, List.length_append, ← ih,
      ← instr.length_loads]
    omega

theorem normalize?_fixpoints {code : List Instr} (room : LeavesRoom code) :
    ∃ normal, normalize? code = some normal ∧ (∀ instr ∈ normal, instr.InNormalForm) ∧
      (normal = code ↔ ∀ instr ∈ code, instr.InNormalForm) ∧ normalize? normal = some normal ∧
      normal.length + code.countP Instr.keepsImmediate = code.length + (code.flatMap Instr.immediates).length := by
  obtain ⟨normal, done⟩ := normalize?_of_room room
  have expanded := normalize?_eq_expand done
  have reached : ∀ instr ∈ normal, instr.InNormalForm := by
    intro instr member
    exact Instr.inNormalForm_iff.mpr (normalizeFrom?_isNormal (normalize?_from done) instr member)
  refine ⟨normal, done, reached, ?_, normalize?_of_normal reached (firstUnused_normal_lt room done), ?_⟩
  · constructor
    · intro same
      rwa [same] at reached
    · intro already
      rw [expanded, expand_of_normal already]
  · rw [expanded, length_expand, ← length_loads_code, Nat.add_assoc]

-- Both ends of the range and the numbers next to them, on either side; additions of two immediates that keep one or none.
def ranges : List Instr :=
  [.arith .add (.temp 0) (.var (.named "x")) (.imm 2047), .arith .add (.temp 1) (.var (.temp 0)) (.imm (-2049)),
   .arith .add (.temp 2) (.imm 5000) (.imm (-2048)), .arith .add (.temp 3) (.imm 3) (.imm 2048),
   .arith .add (.temp 4) (.imm (-2048)) (.var (.temp 3)), .arith .add (.temp 5) (.imm 2048) (.var (.temp 4)),
   .arith .sub (.temp 6) (.imm 1) (.imm 2), .arith .mul (.named "x") (.imm 6) (.var (.temp 6)), .mov (.named "y") (.imm 9),
   .ret (.imm 7)]

theorem normalize?_fixpoints_ranges :
    LeavesRoom ranges ∧ ∃ normal, normalize? ranges = some normal ∧ normal.length = 18 ∧ normal ≠ ranges ∧
      normalize? normal = some normal := by
  have room : LeavesRoom ranges := by decide
  obtain ⟨normal, done, _, _, again, counted⟩ := normalize?_fixpoints room
  have length : normal.length = 18 := Nat.add_right_cancel (m := 3) counted
  refine ⟨room, normal, done, length, ?_, again⟩
  rintro rfl
  cases length

end StraightLine.Code
