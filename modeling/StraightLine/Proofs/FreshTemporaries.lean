import Mathlib.Data.List.Nodup
import StraightLine.Proofs.NormalForm

namespace StraightLine.Code

def Variable.number? : Variable → Option Nat
  | .temp number => some number
  | .named _ => none

def Operand.number? : Operand → Option Nat
  | .var v => v.number?
  | .imm _ => none

-- The numbers of the temporaries at each of the instruction's places.
def Instr.temporaries : Instr → List Nat
  | .mov result source => result.number?.toList ++ source.number?.toList
  | .arith _ result left right => result.number?.toList ++ left.number?.toList ++ right.number?.toList
  | .ret value => value.number?.toList

variable {number limit : Nat}

theorem Variable.number?_eq_some_iff {v : Variable} : v.number? = some number ↔ v = .temp number := by
  cases v with
  | named name => exact ⟨nofun, nofun⟩
  | temp other => rw [number?, Option.some.injEq, temp.injEq]

theorem Operand.number?_eq_some_iff {operand : Operand} :
    operand.number? = some number ↔ operand.asVar? = some (.temp number) := by
  cases operand with
  | imm value => exact ⟨nofun, nofun⟩
  | var v => rw [number?, Variable.number?_eq_some_iff, asVar?, Option.some.injEq]

theorem Instr.mem_temporaries_iff {instr : Instr} : number ∈ instr.temporaries ↔ .temp number ∈ instr.mentioned := by
  cases instr with
  | mov result source =>
    simp only [temporaries, mentioned, result?, reads, sources, List.mem_append, Option.mem_toList,
      List.mem_filterMap, List.mem_singleton, exists_eq_left, Variable.number?_eq_some_iff,
      Operand.number?_eq_some_iff, Option.some.injEq]
  | arith op result left right =>
    simp only [temporaries, mentioned, result?, mem_reads_arith, List.mem_append, Option.mem_toList,
      Variable.number?_eq_some_iff, Operand.number?_eq_some_iff, Option.some.injEq, or_assoc]
  | ret value =>
    simp only [temporaries, mentioned, result?, reads, sources, Option.toList_none, List.nil_append, Option.mem_toList,
      List.mem_filterMap, List.mem_singleton, exists_eq_left, Operand.number?_eq_some_iff]

theorem mem_temporaries_iff {code : List Instr} :
    number ∈ code.flatMap Instr.temporaries ↔ .temp number ∈ code.flatMap Instr.mentioned := by
  simp only [List.mem_flatMap, Instr.mem_temporaries_iff]

-- One above the highest number, and zero where there is none.
def above (numbers : List Nat) : Nat := numbers.max?.elim 0 (· + 1)

theorem above_le_iff {numbers : List Nat} : above numbers ≤ limit ↔ ∀ number ∈ numbers, number < limit := by
  unfold above
  cases highest : numbers.max? with
  | none =>
    rw [List.max?_eq_none_iff.mp highest]
    exact iff_of_true (Nat.zero_le limit) (List.forall_mem_nil _)
  | some most =>
    obtain ⟨member, greatest⟩ := List.max?_eq_some_iff.mp highest
    constructor
    · intro below number listed
      exact Nat.lt_of_le_of_lt (greatest number listed) below
    · intro below
      exact below most member

theorem firstUnused_eq_above (code : List Instr) : firstUnused code = above (code.flatMap Instr.temporaries) := by
  apply Nat.le_antisymm
  · apply firstUnused_le_iff.mpr
    intro v mentioned
    cases v with
    | named name => exact Nat.zero_le _
    | temp number => exact above_le_iff.mp (Nat.le_refl _) number (mem_temporaries_iff.mpr mentioned)
  · apply above_le_iff.mpr
    intro number listed
    exact firstUnused_le_iff.mp (Nat.le_refl _) (.temp number) (mem_temporaries_iff.mp listed)

theorem TempSupply.take?_eq {first : Nat} (fits : first < countLimit) (count : Nat) :
    take? ⟨first⟩ count = if first + count < countLimit then some ((List.range' first count).map .temp) else none := by
  induction count generalizing first with
  | zero =>
    rw [Nat.add_zero, if_pos fits]
    rfl
  | succ count ih =>
    unfold take? fresh?
    by_cases next : first + 1 < countLimit
    · have shift : first + 1 + count = first + (count + 1) := by omega
      rw [if_pos next]
      simp only [Option.bind_eq_bind, Option.bind_some, ih next, shift, List.range'_succ, List.map_cons]
      split <;> rfl
    · have ends : ¬ first + (count + 1) < countLimit := by omega
      rw [if_neg next, if_neg ends]
      rfl

-- One is added to each number met and to each number given out, so the last number of 64 bits is never given out.
theorem sums_fit_iff (numbers : List Nat) (count : Nat) : above numbers + count < countLimit ↔
    ∀ number ∈ numbers ++ List.range' (above numbers) count, number + 1 < countLimit := by
  simp only [List.forall_mem_append, List.mem_range'_1]
  constructor
  · intro fits
    constructor
    · intro number listed
      have below := above_le_iff.mp (Nat.le_refl _) number listed
      omega
    · intro number given
      omega
  · intro fits
    obtain ⟨met, given⟩ := fits
    cases count with
    | zero =>
      have low : above numbers ≤ countLimit - 1 := by
        apply above_le_iff.mpr
        intro number listed
        have fit := met number listed
        omega
      have positive : 0 < countLimit := by decide
      omega
    | succ count => exact given (above numbers + count) (by omega)

-- `used` and `given` are the numbers to which one is added.
theorem take?_after? (code : List Instr) (count : Nat) :
    let used := code.flatMap Instr.temporaries
    let first := above used
    let given := List.range' first count
    (TempSupply.after? code).bind (·.take? count) =
        (if first + count < countLimit then some (given.map .temp) else none) ∧
      (first + count < countLimit ↔ ∀ number ∈ used ++ given, number + 1 < countLimit) ∧
      (given.map Variable.temp).Nodup ∧ ∀ temp ∈ given.map Variable.temp, temp ∉ code.flatMap Instr.mentioned := by
  intro used first given
  have start : firstUnused code = first := firstUnused_eq_above code
  refine ⟨?_, sums_fit_iff used count, ?_, ?_⟩
  · rw [TempSupply.after?, start]
    by_cases fits : first < countLimit
    · rw [if_pos fits, Option.bind_some, TempSupply.take?_eq fits]
    · have ends : ¬ first + count < countLimit := by omega
      rw [if_neg fits, if_neg ends, Option.bind_none]
  · apply List.Nodup.map _ List.nodup_range'
    intro left right same
    exact Variable.temp.inj same
  · intro temp member mentioned
    obtain ⟨number, numbered, rfl⟩ := List.mem_map.mp member
    have below := above_le_iff.mp (Nat.le_refl first) number (mem_temporaries_iff.mpr mentioned)
    have least := (List.mem_range'_1.mp numbered).1
    omega

example :
    let top : List Instr := [.mov (.temp 4) (.imm 1), .ret (.var (.temp 18446744073709551613))]
    (TempSupply.after? top).bind (·.take? 1) = some [.temp 18446744073709551614] ∧
      (TempSupply.after? top).bind (·.take? 2) = none := by
  decide

end StraightLine.Code
