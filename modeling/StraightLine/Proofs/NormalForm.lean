import StraightLine.Code.Normal
import StraightLine.Proofs.Execution

namespace StraightLine.Code

def Operand.immediate? : Operand → Option Int32
  | .imm value => some value
  | .var _ => none

namespace Instr

def IsNormal : Instr → Prop
  | .arith op _ left right => left.isImm = false ∧ (right.isImm = false ∨ takesRight op right = true)
  | _ => True

theorem IsNormal.adds {op : ArithOp} {result : Variable} {left : Operand} {value : Int32}
    (normal : (Instr.arith op result left (.imm value)).IsNormal) : op = .add := by
  cases op with
  | add => rfl
  | sub => simp [IsNormal, Operand.isImm, takesRight] at normal
  | mul => simp [IsNormal, Operand.isImm, takesRight] at normal

-- The immediates that go through a temporary.
def loads : Instr → List Int32
  | .arith op _ left right =>
    let turned := orient op left right
    turned.1.immediate?.toList ++ (if takesRight op turned.2 then [] else turned.2.immediate?.toList)
  | _ => []

end Instr

theorem length_loads_le (instr : Instr) : instr.loads.length ≤ 2 := by
  have single (operand : Operand) : operand.immediate?.toList.length ≤ 1 := by
    cases operand with
    | imm value => exact Nat.le_refl 1
    | var v => exact Nat.zero_le 1
  cases instr with
  | mov result source => exact Nat.zero_le 2
  | ret value => exact Nat.zero_le 2
  | arith op result left right =>
    have first := single (Instr.orient op left right).1
    have second := single (Instr.orient op left right).2
    simp only [Instr.loads, List.length_append]
    split
    · rw [List.length_nil]
      omega
    · omega

-- Moves of immediates into consecutive temporaries.
def loadAll (next : Nat) : List Int32 → List Instr
  | [] => []
  | value :: rest => .mov (.temp next) (.imm value) :: loadAll (next + 1) rest

def Holds (store : Store) (next : Nat) : List Int32 → Prop
  | [] => True
  | value :: rest => store (.temp next) = value ∧ Holds store (next + 1) rest

theorem loadAll_append (next : Nat) (first second : List Int32) :
    loadAll next (first ++ second) = loadAll next first ++ loadAll (next + first.length) second := by
  induction first generalizing next with
  | nil => rfl
  | cons value rest ih =>
    have shift : next + 1 + rest.length = next + (rest.length + 1) := by omega
    simp [loadAll, ih, shift]

theorem holds_append {store : Store} {next : Nat} {first second : List Int32}
    (held : Holds store next (first ++ second)) :
    Holds store next first ∧ Holds store (next + first.length) second := by
  induction first generalizing next with
  | nil => exact ⟨trivial, held⟩
  | cons value rest ih =>
    obtain ⟨here, later⟩ := held
    obtain ⟨front, back⟩ := ih later
    have shift : next + 1 + rest.length = next + (rest.length + 1) := by omega
    rw [shift] at back
    exact ⟨⟨here, front⟩, back⟩

theorem mem_results_loadAll_append {v : Variable} {next : Nat} {first second : List Int32} :
    v ∈ results (loadAll next (first ++ second)) ↔
      v ∈ results (loadAll next first) ∨ v ∈ results (loadAll (next + first.length) second) := by
  simp only [loadAll_append, results, List.filterMap_append, List.mem_append]

theorem returned_loadAll (store : Store) (next : Nat) (values : List Int32) :
    returned store (loadAll next values) = [] := by
  induction values generalizing store next with
  | nil => rfl
  | cons value rest ih => exact ih _ _

theorem exec_loadAll_below (store : Store) {next : Nat} (values : List Int32) {v : Variable} (below : v.bound ≤ next) :
    exec store (loadAll next values) v = store v := by
  induction values generalizing store next with
  | nil => rfl
  | cons value rest ih =>
    have apart : v ≠ .temp next := by
      rintro rfl
      simp only [Variable.bound] at below
      omega
    exact (ih _ (Nat.le_succ_of_le below)).trans (Store.set_other _ _ apart)

theorem holds_exec_loadAll (store : Store) (next : Nat) (values : List Int32) :
    Holds (exec store (loadAll next values)) next values := by
  induction values generalizing store next with
  | nil => trivial
  | cons value rest ih =>
    refine ⟨?_, ih _ _⟩
    have kept := exec_loadAll_below (store.set (.temp next) value) rest (v := .temp next) (Nat.le_refl _)
    exact kept.trans (Store.set_same _ _ _)

theorem definedFirst_loadAll (known : List Variable) (next : Nat) (values : List Int32) :
    DefinedFirst known (loadAll next values) := by
  induction values generalizing known next with
  | nil => trivial
  | cons value rest ih =>
    refine ⟨?_, ih _ _⟩
    intro v read
    cases read

theorem isNormal_loadAll {next : Nat} {values : List Int32} {instr : Instr} (member : instr ∈ loadAll next values) :
    instr.IsNormal := by
  induction values generalizing next with
  | nil => cases member
  | cons value rest ih =>
    rcases List.mem_cons.mp member with rfl | later
    · trivial
    · exact ih later

theorem mem_results_loadAll {next : Nat} {values : List Int32} {v : Variable}
    (member : v ∈ results (loadAll next values)) : ∃ offset < values.length, v = .temp (next + offset) := by
  induction values generalizing next with
  | nil => cases member
  | cons value rest ih =>
    rcases List.mem_cons.mp member with rfl | later
    · exact ⟨0, Nat.succ_pos _, rfl⟩
    · obtain ⟨offset, low, rfl⟩ := ih later
      exact ⟨1 + offset, by rw [List.length_cons]; omega, by rw [Nat.add_assoc]⟩

theorem mentioned_loadAll (next : Nat) (values : List Int32) :
    (loadAll next values).flatMap Instr.mentioned = results (loadAll next values) := by
  induction values generalizing next with
  | nil => rfl
  | cons value rest ih => exact congrArg (Variable.temp next :: ·) (ih (next + 1))

theorem fresh?_eq_some {supply after : TempSupply} {temp : Variable} (taken : supply.fresh? = some (temp, after)) :
    temp = .temp supply.next ∧ after = ⟨supply.next + 1⟩ := by
  unfold TempSupply.fresh? at taken
  split at taken
  · cases Option.some.inj taken
    exact ⟨rfl, rfl⟩
  · cases taken

-- What loading one operand does: at most one move, and a variable that then holds the operand's value.
structure Loading (next : Nat) (operand : Operand) (values : List Int32) (loaded : Operand) : Prop where
  reads : ∀ v, loaded.asVar? = some v → operand.asVar? = some v ∨ v ∈ results (loadAll next values)
  value : ∀ store, Holds store next values → loaded.eval store = operand.eval store

theorem load?_loading {operand loaded : Operand} {supply after : TempSupply} {code : List Instr}
    (done : operand.load? supply = some (code, loaded, after)) :
    code = loadAll supply.next operand.immediate?.toList ∧
      after.next = supply.next + operand.immediate?.toList.length ∧ loaded.isImm = false ∧
      Loading supply.next operand operand.immediate?.toList loaded := by
  cases operand with
  | var v =>
    simp only [Operand.load?] at done
    cases Option.some.inj done
    exact ⟨rfl, rfl, rfl, fun _ => .inl, fun _ _ => rfl⟩
  | imm value =>
    simp only [Operand.load?] at done
    cases taken : supply.fresh? with
    | none => simp [taken] at done
    | some pair =>
      obtain ⟨temp, rest⟩ := pair
      obtain ⟨rfl, rfl⟩ := fresh?_eq_some taken
      simp only [taken] at done
      cases Option.some.inj done
      refine ⟨rfl, rfl, rfl, ?_, ?_⟩
      · intro v same
        cases same
        exact .inr List.mem_cons_self
      · intro store held
        exact held.1

theorem orient_eval (store : Store) (op : ArithOp) (left right : Operand) :
    op.eval ((Instr.orient op left right).1.eval store) ((Instr.orient op left right).2.eval store) =
      op.eval (left.eval store) (right.eval store) := by
  cases left with
  | var v => rfl
  | imm a =>
    cases right with
    | imm b => rfl
    | var v =>
      cases op with
      | add => exact Int32.add_comm _ _
      | sub => rfl
      | mul => exact Int32.mul_comm _ _

theorem orient_reads {op : ArithOp} {left right : Operand} {v : Variable}
    (read : (Instr.orient op left right).1.asVar? = some v ∨ (Instr.orient op left right).2.asVar? = some v) :
    left.asVar? = some v ∨ right.asVar? = some v := by
  cases left with
  | var u => exact read
  | imm a =>
    cases right with
    | imm b => exact read
    | var u => cases op <;> simpa [Instr.orient, ArithOp.commutative, Operand.asVar?] using read

-- What normalization makes of one instruction, given that its immediates sit in the temporaries from `next` on.
structure Expansion (next : Nat) (instr last : Instr) : Prop where
  normal : last.IsNormal
  result : last.result? = instr.result?
  reads : ∀ v ∈ last.reads, v ∈ instr.reads ∨ v ∈ results (loadAll next instr.loads)
  value : ∀ store, Holds store next instr.loads → last.value store = instr.value store

theorem settle_loading {op : ArithOp} {operand loaded : Operand} {supply after : TempSupply} {code : List Instr}
    (done : (if takesRight op operand then some ([], operand, supply) else operand.load? supply) =
      some (code, loaded, after)) :
    let values := if takesRight op operand then [] else operand.immediate?.toList
    code = loadAll supply.next values ∧ after.next = supply.next + values.length ∧
      (loaded.isImm = false ∨ takesRight op loaded = true) ∧ Loading supply.next operand values loaded := by
  split at done
  · rename_i taken
    cases Option.some.inj done
    simp only [taken, if_true]
    exact ⟨rfl, rfl, .inr trivial, fun _ => .inl, fun _ _ => rfl⟩
  · rename_i refused
    obtain ⟨moves, count, form, loading⟩ := load?_loading done
    simp only [refused]
    exact ⟨moves, count, .inl form, loading⟩

theorem mem_reads_arith {op : ArithOp} {result v : Variable} {left right : Operand} :
    v ∈ (Instr.arith op result left right).reads ↔ left.asVar? = some v ∨ right.asVar? = some v := by
  simp [Instr.reads, Instr.sources, List.mem_filterMap]

theorem normalize?_arith (op : ArithOp) (result : Variable) (left right : Operand) (supply : TempSupply) :
    (Instr.arith op result left right).normalize? supply =
      ((Instr.orient op left right).1.load? supply).bind fun first =>
        (if takesRight op (Instr.orient op left right).2 then some ([], (Instr.orient op left right).2, first.2.2)
          else (Instr.orient op left right).2.load? first.2.2).bind fun second =>
            some (first.1 ++ second.1 ++ [.arith op result first.2.1 second.2.1], second.2.2) := by
  simp only [Instr.normalize?, Option.bind_eq_bind, Option.pure_def]
  congr 1
  funext first
  split <;> rfl

theorem normalize?_expansion {instr : Instr} {supply after : TempSupply} {code : List Instr}
    (done : instr.normalize? supply = some (code, after)) :
    ∃ last, code = loadAll supply.next instr.loads ++ [last] ∧ after.next = supply.next + instr.loads.length ∧
      Expansion supply.next instr last := by
  cases instr with
  | mov result source =>
    cases Option.some.inj done
    exact ⟨_, rfl, rfl, trivial, rfl, fun _ => .inl, fun _ _ => rfl⟩
  | ret value =>
    cases Option.some.inj done
    exact ⟨_, rfl, rfl, trivial, rfl, fun _ => .inl, fun _ _ => rfl⟩
  | arith op result left right =>
    rw [normalize?_arith] at done
    simp only [Option.bind_eq_some_iff, Option.some.injEq, Prod.mk.injEq] at done
    obtain ⟨⟨before, first, middle⟩, loadedLeft, ⟨between, second, rest⟩, loadedRight, rfl, rfl⟩ := done
    obtain ⟨rfl, countLeft, formLeft, onLeft⟩ := load?_loading loadedLeft
    obtain ⟨rfl, countRight, formRight, onRight⟩ := settle_loading loadedRight
    rw [countLeft] at countRight onRight
    refine ⟨.arith op result first second, ?_, ?_, ⟨formLeft, formRight⟩, rfl, ?_, ?_⟩
    · simp only [Instr.loads, loadAll_append, countLeft]
    · simp only [Instr.loads, List.length_append, countRight]
      omega
    · intro v read
      rcases mem_reads_arith.mp read with here | here
      · rcases onLeft.reads v here with old | new
        · exact .inl (mem_reads_arith.mpr (orient_reads (.inl old)))
        · exact .inr (mem_results_loadAll_append.mpr (.inl new))
      · rcases onRight.reads v here with old | new
        · exact .inl (mem_reads_arith.mpr (orient_reads (.inr old)))
        · exact .inr (mem_results_loadAll_append.mpr (.inr new))
    · intro store held
      obtain ⟨heldLeft, heldRight⟩ := holds_append held
      simp only [Instr.value, onLeft.value store heldLeft, onRight.value store heldRight]
      exact orient_eval store op left right

theorem load?_exists (operand : Operand) (supply : TempSupply)
    (room : supply.next + operand.immediate?.toList.length < countLimit) :
    ∃ code loaded after, operand.load? supply = some (code, loaded, after) := by
  cases operand with
  | var v => exact ⟨_, _, _, rfl⟩
  | imm value =>
    have fits : supply.next + 1 < countLimit := room
    exact ⟨_, _, _, by simp only [Operand.load?, TempSupply.fresh?, fits, if_true]; rfl⟩

theorem normalize?_exists (instr : Instr) (supply : TempSupply) (room : supply.next + instr.loads.length < countLimit) :
    ∃ code after, instr.normalize? supply = some (code, after) := by
  cases instr with
  | mov result source => exact ⟨_, _, rfl⟩
  | ret value => exact ⟨_, _, rfl⟩
  | arith op result left right =>
    simp only [Instr.loads, List.length_append] at room
    obtain ⟨before, first, middle, loaded⟩ := load?_exists (Instr.orient op left right).1 supply (by omega)
    obtain ⟨_, count, _⟩ := load?_loading loaded
    rw [normalize?_arith, loaded]
    by_cases taken : takesRight op (Instr.orient op left right).2 = true
    · simp [taken]
    · simp only [taken] at room
      have enough : middle.next + (Instr.orient op left right).2.immediate?.toList.length < countLimit := by
        rw [count]
        simpa [Nat.add_assoc] using room
      obtain ⟨between, second, rest, settled⟩ := load?_exists _ _ enough
      simp [taken, settled]

-- Stores that agree on all names and on the temporaries numbered below `limit`.
def AgreeBelow (limit : Nat) (left right : Store) : Prop := ∀ v, v.bound ≤ limit → left v = right v

theorem foldl_bound_le_iff {listed : List Variable} {most limit : Nat} :
    listed.foldl (fun most v => max most v.bound) most ≤ limit ↔ most ≤ limit ∧ ∀ v ∈ listed, v.bound ≤ limit := by
  induction listed generalizing most with
  | nil => exact ⟨fun start => ⟨start, List.forall_mem_nil _⟩, And.left⟩
  | cons v rest ih => rw [List.foldl_cons, ih, Nat.max_le, List.forall_mem_cons, and_assoc]

theorem firstUnused_le_iff {code : List Instr} {limit : Nat} :
    firstUnused code ≤ limit ↔ ∀ v ∈ code.flatMap Instr.mentioned, v.bound ≤ limit :=
  foldl_bound_le_iff.trans (and_iff_right (Nat.zero_le _))

theorem bound_le_firstUnused {code : List Instr} {instr : Instr} {v : Variable} (member : instr ∈ code)
    (mentioned : v ∈ instr.mentioned) : v.bound ≤ firstUnused code :=
  firstUnused_le_iff.mp (Nat.le_refl _) v (List.mem_flatMap.mpr ⟨instr, member, mentioned⟩)

section OneInstruction

variable {limit next : Nat} {instr last : Instr} {store other : Store}

theorem Expansion.value_agrees (expansion : Expansion next instr last)
    (bounded : ∀ v ∈ instr.mentioned, v.bound ≤ limit) (below : limit ≤ next) (agree : AgreeBelow limit store other) :
    last.value (exec other (loadAll next instr.loads)) = instr.value store := by
  rw [expansion.value _ (holds_exec_loadAll other next instr.loads)]
  refine Instr.value_congr ?_
  intro v read
  have low := bounded v (Instr.read_mentioned read)
  rw [exec_loadAll_below other _ (Nat.le_trans low below)]
  exact (agree v low).symm

theorem Expansion.returned_agrees (expansion : Expansion next instr last)
    (bounded : ∀ v ∈ instr.mentioned, v.bound ≤ limit) (below : limit ≤ next) (agree : AgreeBelow limit store other) :
    returned other (loadAll next instr.loads ++ [last]) = instr.returned store := by
  have value := expansion.value_agrees bounded below agree
  rw [returned_append, returned_loadAll]
  simp only [returned, List.nil_append, List.append_nil]
  cases result : instr.result? with
  | none => rw [Instr.returned_of_return result, Instr.returned_of_return (expansion.result.trans result), value]
  | some target => rw [Instr.returned_of_result result, Instr.returned_of_result (expansion.result.trans result)]

theorem Expansion.exec_agrees (expansion : Expansion next instr last)
    (bounded : ∀ v ∈ instr.mentioned, v.bound ≤ limit) (below : limit ≤ next) (agree : AgreeBelow limit store other) :
    AgreeBelow limit (instr.exec store) (exec other (loadAll next instr.loads ++ [last])) := by
  intro v low
  have value := expansion.value_agrees bounded below agree
  have loaded : exec other (loadAll next instr.loads) v = other v :=
    exec_loadAll_below other _ (Nat.le_trans low below)
  rw [exec_append]
  change instr.exec store v = last.exec (exec other (loadAll next instr.loads)) v
  by_cases same : instr.result? = some v
  · rw [Instr.exec_of_result same, Instr.exec_of_result (expansion.result.trans same), value]
    simp only [Store.set_same]
  · have apart : last.result? ≠ some v := fun found => same (expansion.result.symm.trans found)
    rw [Instr.exec_other same, Instr.exec_other apart, loaded]
    exact agree v low

theorem Expansion.definedFirst {known : List Variable} {rest : List Instr} (expansion : Expansion next instr last)
    (reads : ∀ v ∈ instr.reads, v ∈ known) (defined : DefinedFirst (instr.result?.toList ++ known) rest) :
    DefinedFirst known (loadAll next instr.loads ++ [last] ++ rest) := by
  rw [List.append_assoc, definedFirst_append]
  refine ⟨definedFirst_loadAll _ _ _, ?_, ?_⟩
  · intro v read
    rcases expansion.reads v read with old | new
    · exact List.mem_append_right _ (reads v old)
    · exact List.mem_append_left _ new
  · rw [expansion.result]
    refine defined.mono ?_
    intro v member
    rcases List.mem_append.mp member with result | old
    · exact List.mem_append_left _ result
    · exact List.mem_append_right _ (List.mem_append_right _ old)

end OneInstruction

section WholeList

variable {supply : TempSupply} {code normal : List Instr}

theorem normalizeFrom?_cons {instr : Instr} (done : normalizeFrom? supply (instr :: code) = some normal) :
    ∃ last rest after, normal = loadAll supply.next instr.loads ++ [last] ++ rest ∧
      after.next = supply.next + instr.loads.length ∧ Expansion supply.next instr last ∧
      normalizeFrom? after code = some rest := by
  simp only [normalizeFrom?, Option.bind_eq_bind, Option.bind_eq_some_iff, Option.pure_def, Option.some.injEq] at done
  obtain ⟨⟨block, after⟩, one, rest, others, rfl⟩ := done
  obtain ⟨last, rfl, count, expansion⟩ := normalize?_expansion one
  exact ⟨last, rest, after, rfl, count, expansion, others⟩

theorem normalizeFrom?_agrees {limit : Nat} {store other : Store} (done : normalizeFrom? supply code = some normal)
    (bounded : ∀ instr ∈ code, ∀ v ∈ instr.mentioned, v.bound ≤ limit) (below : limit ≤ supply.next)
    (agree : AgreeBelow limit store other) :
    returned other normal = returned store code ∧ AgreeBelow limit (exec store code) (exec other normal) := by
  induction code generalizing supply normal store other with
  | nil =>
    cases Option.some.inj done
    exact ⟨rfl, agree⟩
  | cons instr code ih =>
    obtain ⟨last, rest, after, rfl, count, expansion, others⟩ := normalizeFrom?_cons done
    have here := bounded instr List.mem_cons_self
    have later := fun instr member => bounded instr (List.mem_cons_of_mem _ member)
    have next := expansion.exec_agrees here below agree
    obtain ⟨values, final⟩ := ih others later (by omega) next
    rw [returned_append, values, expansion.returned_agrees here below agree, exec_append other _ rest]
    exact ⟨rfl, final⟩

theorem normalizeFrom?_definedFirst {known : List Variable} (done : normalizeFrom? supply code = some normal)
    (defined : DefinedFirst known code) : DefinedFirst known normal := by
  induction code generalizing supply normal known with
  | nil =>
    cases Option.some.inj done
    trivial
  | cons instr code ih =>
    obtain ⟨last, rest, after, rfl, _, expansion, others⟩ := normalizeFrom?_cons done
    exact expansion.definedFirst defined.1 (ih others defined.2)

theorem normalizeFrom?_isNormal (done : normalizeFrom? supply code = some normal) : ∀ instr ∈ normal, instr.IsNormal := by
  induction code generalizing supply normal with
  | nil =>
    cases Option.some.inj done
    exact nofun
  | cons first code ih =>
    obtain ⟨last, rest, after, rfl, _, expansion, others⟩ := normalizeFrom?_cons done
    intro instr member
    simp only [List.mem_append, List.mem_singleton] at member
    rcases member with (load | rfl) | later
    · exact isNormal_loadAll load
    · exact expansion.normal
    · exact ih others instr later

-- Normal code mentions nothing but what the code mentions and the fresh temporaries.
theorem mem_mentioned_normal (done : normalizeFrom? supply code = some normal) {v : Variable}
    (member : v ∈ normal.flatMap Instr.mentioned) : v ∈ code.flatMap Instr.mentioned ∨
      ∃ offset < (code.flatMap Instr.loads).length, v = .temp (supply.next + offset) := by
  induction code generalizing supply normal with
  | nil =>
    cases Option.some.inj done
    exact .inl member
  | cons instr code ih =>
    obtain ⟨last, rest, after, rfl, count, expansion, others⟩ := normalizeFrom?_cons done
    simp only [List.flatMap_append, List.flatMap_singleton, List.mem_append] at member
    rw [List.flatMap_cons, List.flatMap_cons, List.length_append, List.mem_append]
    have fresh (new : v ∈ results (loadAll supply.next instr.loads)) : ∃ offset <
        instr.loads.length + (code.flatMap Instr.loads).length, v = .temp (supply.next + offset) := by
      obtain ⟨offset, low, same⟩ := mem_results_loadAll new
      exact ⟨offset, Nat.lt_add_right _ low, same⟩
    rcases member with (load | own) | later
    · rw [mentioned_loadAll] at load
      exact .inr (fresh load)
    · rcases List.mem_append.mp own with result | read
      · rw [expansion.result] at result
        exact .inl (.inl (List.mem_append_left _ result))
      · rcases expansion.reads v read with old | new
        · exact .inl (.inl (Instr.read_mentioned old))
        · exact .inr (fresh new)
    · rcases ih others later with old | ⟨offset, low, rfl⟩
      · exact .inl (.inr old)
      · exact .inr ⟨instr.loads.length + offset, Nat.add_lt_add_left low _, by rw [count, Nat.add_assoc]⟩

theorem normalizeFrom?_exists (supply : TempSupply) (code : List Instr)
    (room : supply.next + (code.flatMap Instr.loads).length < countLimit) :
    ∃ normal, normalizeFrom? supply code = some normal := by
  induction code generalizing supply with
  | nil => exact ⟨[], rfl⟩
  | cons instr code ih =>
    simp only [List.flatMap_cons, List.length_append] at room
    obtain ⟨block, after, one⟩ := normalize?_exists instr supply (by omega)
    obtain ⟨last, _, count, _⟩ := normalize?_expansion one
    obtain ⟨rest, others⟩ := ih after (by omega)
    exact ⟨block ++ rest, by simp [normalizeFrom?, one, others]⟩

end WholeList

-- The numbers of the temporaries leave room for the fresh ones.
def LeavesRoom (code : List Instr) : Prop := firstUnused code + (code.flatMap Instr.loads).length < countLimit

instance (code : List Instr) : Decidable (LeavesRoom code) := inferInstanceAs (Decidable (_ < _))

theorem normalize?_of_room {code : List Instr} (room : LeavesRoom code) : ∃ normal, normalize? code = some normal := by
  have first : firstUnused code < countLimit := by
    unfold LeavesRoom at room
    omega
  obtain ⟨normal, done⟩ := normalizeFrom?_exists ⟨firstUnused code⟩ code room
  exact ⟨normal, by simpa [normalize?, TempSupply.after?, first] using done⟩

theorem normalize?_from {code normal : List Instr} (done : normalize? code = some normal) :
    normalizeFrom? ⟨firstUnused code⟩ code = some normal := by
  unfold normalize? TempSupply.after? at done
  split at done
  · exact done
  · cases done

theorem normalize?_agrees {code normal : List Instr} (done : normalize? code = some normal) (store : Store) :
    returned store normal = returned store code ∧
      AgreeBelow (firstUnused code) (exec store code) (exec store normal) :=
  normalizeFrom?_agrees (normalize?_from done) (fun _ member _ => bound_le_firstUnused member) (Nat.le_refl _)
    fun _ _ => rfl

theorem returned_normalize? {code normal : List Instr} (done : normalize? code = some normal) (store : Store) :
    returned store normal = returned store code :=
  (normalize?_agrees done store).1

section Exactly

-- The operand once its value, if it is an immediate, sits in the temporary.
def Operand.loaded (next : Nat) : Operand → Operand
  | .imm _ => .var (.temp next)
  | .var v => .var v

-- The instruction once its immediates that go through a temporary sit in those from `next` on.
def Instr.settled (next : Nat) : Instr → Instr
  | .arith op result left right =>
    let turned := orient op left right
    let second := next + turned.1.immediate?.toList.length
    .arith op result (turned.1.loaded next) (if takesRight op turned.2 then turned.2 else turned.2.loaded second)
  | instr => instr

-- The normal form, its fresh temporaries numbered from `next` on.
def expand (next : Nat) : List Instr → List Instr
  | [] => []
  | instr :: rest => loadAll next instr.loads ++ instr.settled next :: expand (next + instr.loads.length) rest

variable {supply after : TempSupply} {code normal : List Instr}

theorem load?_loaded {operand loaded : Operand} (done : operand.load? supply = some (code, loaded, after)) :
    loaded = operand.loaded supply.next := by
  cases operand with
  | var v =>
    cases Option.some.inj done
    rfl
  | imm value =>
    simp only [Operand.load?, Option.bind_eq_bind, Option.bind_eq_some_iff] at done
    obtain ⟨⟨temp, rest⟩, taken, same⟩ := done
    obtain ⟨rfl, rfl⟩ := fresh?_eq_some taken
    cases Option.some.inj same
    rfl

theorem settle_loaded {op : ArithOp} {operand loaded : Operand}
    (done : (if takesRight op operand then some ([], operand, supply) else operand.load? supply) =
      some (code, loaded, after)) :
    loaded = if takesRight op operand then operand else operand.loaded supply.next := by
  split at done
  case isTrue taken =>
    cases Option.some.inj done
    rw [if_pos taken]
  case isFalse refused => rw [if_neg refused, load?_loaded done]

theorem normalize?_settled {instr : Instr} (done : instr.normalize? supply = some (code, after)) :
    code = loadAll supply.next instr.loads ++ [instr.settled supply.next] := by
  cases instr with
  | mov result source =>
    cases Option.some.inj done
    rfl
  | ret value =>
    cases Option.some.inj done
    rfl
  | arith op result left right =>
    rw [normalize?_arith] at done
    simp only [Option.bind_eq_some_iff, Option.some.injEq, Prod.mk.injEq] at done
    obtain ⟨⟨before, first, middle⟩, loadedLeft, ⟨between, second, rest⟩, loadedRight, rfl, rfl⟩ := done
    obtain ⟨rfl, countLeft, _⟩ := load?_loading loadedLeft
    obtain ⟨rfl, _⟩ := settle_loading loadedRight
    rw [load?_loaded loadedLeft, settle_loaded loadedRight]
    simp only [Instr.loads, Instr.settled, loadAll_append, countLeft]

theorem normalizeFrom?_eq_expand (done : normalizeFrom? supply code = some normal) : normal = expand supply.next code := by
  induction code generalizing supply normal with
  | nil =>
    cases Option.some.inj done
    rfl
  | cons instr code ih =>
    simp only [normalizeFrom?, Option.bind_eq_bind, Option.bind_eq_some_iff, Option.pure_def, Option.some.injEq] at done
    obtain ⟨⟨block, after⟩, one, rest, others, rfl⟩ := done
    obtain ⟨_, _, count, _⟩ := normalize?_expansion one
    rw [normalize?_settled one, ih others, count, List.append_assoc, List.singleton_append]
    rfl

theorem normalize?_eq_expand (done : normalize? code = some normal) : normal = expand (firstUnused code) code :=
  normalizeFrom?_eq_expand (normalize?_from done)

end Exactly

end StraightLine.Code
