import Mathlib.Data.List.Forall2
import StraightLine.Proofs.RegisterPressure

namespace StraightLine.Code

def Operand.rename (r : Variable → Variable) : Operand → Operand
  | .imm value => .imm value
  | .var v => .var (r v)

def Instr.rename (r : Variable → Variable) : Instr → Instr
  | .mov result source => .mov (r result) (source.rename r)
  | .arith op result left right => .arith op (r result) (left.rename r) (right.rename r)
  | .ret value => .ret (value.rename r)

def rename (r : Variable → Variable) (code : List Instr) : List Instr := code.map (Instr.rename r)

def mentioned (code : List Instr) : List Variable := code.flatMap Instr.mentioned

namespace Operand

variable (r : Variable → Variable) (operand : Operand)

theorem asVar?_rename : (operand.rename r).asVar? = operand.asVar?.map r := by cases operand <;> rfl

theorem immediate?_rename : (operand.rename r).immediate? = operand.immediate? := by cases operand <;> rfl

theorem takesRight_rename (op : ArithOp) : takesRight op (operand.rename r) = takesRight op operand := by
  cases op <;> cases operand <;> rfl

theorem orient_rename (op : ArithOp) (left right : Operand) :
    Instr.orient op (left.rename r) (right.rename r) =
      ((Instr.orient op left right).1.rename r, (Instr.orient op left right).2.rename r) := by
  cases left with
  | var v => rfl
  | imm a =>
    cases right with
    | imm b => rfl
    | var v => cases op <;> rfl

end Operand

namespace Instr

variable (r : Variable → Variable) (instr : Instr)

theorem result?_rename : (instr.rename r).result? = instr.result?.map r := by cases instr <;> rfl

theorem reads_rename : (instr.rename r).reads = instr.reads.map r := by
  have sources : (instr.rename r).sources = instr.sources.map (Operand.rename r) := by cases instr <;> rfl
  rw [reads, sources, reads, List.filterMap_map, List.map_filterMap]
  congr 1
  funext operand
  exact operand.asVar?_rename r

theorem mentioned_rename : (instr.rename r).mentioned = instr.mentioned.map r := by
  rw [mentioned, mentioned, List.map_append, reads_rename, result?_rename]
  cases instr.result? <;> rfl

theorem loads_rename : (instr.rename r).loads = instr.loads := by
  cases instr with
  | mov result source => rfl
  | ret value => rfl
  | arith op result left right =>
    simp only [rename, loads, Operand.orient_rename, Operand.immediate?_rename, Operand.takesRight_rename]

variable {r instr}

theorem IsNormal.rename (normal : instr.IsNormal) : (instr.rename r).IsNormal := by
  have isImm (operand : Operand) : (operand.rename r).isImm = operand.isImm := by cases operand <;> rfl
  cases instr with
  | mov result source => trivial
  | ret value => trivial
  | arith op result left right =>
    simpa only [Instr.rename, IsNormal, isImm, Operand.takesRight_rename] using normal

theorem rename_congr {other : Variable → Variable} (same : ∀ v ∈ instr.mentioned, r v = other v) :
    instr.rename r = instr.rename other := by
  have source {operand : Operand} (member : operand ∈ instr.sources) : operand.rename r = operand.rename other := by
    cases operand with
    | imm value => rfl
    | var v => exact congrArg Operand.var (same v (read_mentioned (List.mem_filterMap.mpr ⟨_, member, rfl⟩)))
  cases instr with
  | mov result operand =>
    simp only [Instr.rename, source List.mem_cons_self, same result List.mem_cons_self]
  | arith op result left right =>
    simp only [Instr.rename, source List.mem_cons_self, source (List.mem_cons_of_mem _ List.mem_cons_self),
      same result List.mem_cons_self]
  | ret operand => simp only [Instr.rename, source List.mem_cons_self]

end Instr

-- The renaming of the code extended to its fresh temporaries, which follow the highest number in use before it and
-- the highest one after it.
def extend (r : Variable → Variable) (code : List Instr) : Variable → Variable
  | .named name => r (.named name)
  | .temp number =>
    if number < firstUnused code then r (.temp number)
    else .temp (firstUnused (rename r code) + (number - firstUnused code))

variable {r : Variable → Variable}

theorem extend_mentioned {code : List Instr} {v : Variable} (member : v ∈ mentioned code) : extend r code v = r v := by
  obtain ⟨instr, here, used⟩ := List.mem_flatMap.mp member
  have below := bound_le_firstUnused here used
  cases v with
  | named name => rfl
  | temp number => exact if_pos below

theorem extend_fresh (code : List Instr) (offset : Nat) :
    extend r code (.temp (firstUnused code + offset)) = .temp (firstUnused (rename r code) + offset) := by
  have above : ¬ firstUnused code + offset < firstUnused code := by omega
  rw [extend, if_neg above, Nat.add_sub_cancel_left]

section Expand

variable {wider : Variable → Variable} {next other : Nat}

theorem loadAll_rename (fresh : ∀ offset, wider (.temp (next + offset)) = .temp (other + offset)) (values : List Int32) :
    loadAll other values = rename wider (loadAll next values) := by
  induction values generalizing next other with
  | nil => rfl
  | cons value rest ih =>
    have later : ∀ offset, wider (.temp (next + 1 + offset)) = .temp (other + 1 + offset) := by
      intro offset
      rw [Nat.add_assoc, fresh, Nat.add_assoc]
    have first : wider (.temp next) = .temp other := fresh 0
    simp only [loadAll, rename, List.map_cons, Instr.rename, Operand.rename, first]
    exact congrArg _ (ih later)

theorem loaded_rename {operand : Operand} (same : ∀ v, operand.asVar? = some v → wider v = r v)
    (fresh : wider (.temp next) = .temp other) :
    (operand.rename r).loaded other = (operand.loaded next).rename wider := by
  cases operand with
  | imm value => exact congrArg Operand.var fresh.symm
  | var v => exact congrArg Operand.var (same v rfl).symm

theorem settled_rename {instr : Instr} (same : ∀ v ∈ instr.mentioned, wider v = r v)
    (fresh : ∀ offset, wider (.temp (next + offset)) = .temp (other + offset)) :
    (instr.rename r).settled other = (instr.settled next).rename wider := by
  have whole := Instr.rename_congr same
  cases instr with
  | mov result source => exact whole.symm
  | ret value => exact whole.symm
  | arith op result left right =>
    have reads : ∀ v, (Instr.orient op left right).1.asVar? = some v ∨ (Instr.orient op left right).2.asVar? = some v →
        wider v = r v := by
      intro v read
      exact same v (Instr.read_mentioned (mem_reads_arith.mpr (orient_reads read)))
    have target : wider result = r result := same result List.mem_cons_self
    have first : ((Instr.orient op left right).1.rename r).loaded other =
        ((Instr.orient op left right).1.loaded next).rename wider :=
      loaded_rename (fun v read => reads v (.inl read)) (fresh 0)
    have second := loaded_rename (fun v read => reads v (.inr read))
      (fresh (Instr.orient op left right).1.immediate?.toList.length)
    have kept : (Instr.orient op left right).2.rename r = (Instr.orient op left right).2.rename wider := by
      cases turned : (Instr.orient op left right).2 with
      | imm value => rfl
      | var v => exact congrArg Operand.var (reads v (.inr (by rw [turned]; rfl))).symm
    simp only [Instr.rename, Instr.settled, Operand.orient_rename, Operand.takesRight_rename, Operand.immediate?_rename,
      target, first]
    split
    · rw [kept]
    · rw [second]

theorem expand_rename {code : List Instr} (same : ∀ v ∈ mentioned code, wider v = r v)
    (fresh : ∀ offset, wider (.temp (next + offset)) = .temp (other + offset)) :
    expand other (rename r code) = rename wider (expand next code) := by
  induction code generalizing next other with
  | nil => rfl
  | cons instr code ih =>
    have here : ∀ v ∈ instr.mentioned, wider v = r v := fun v member => same v (List.mem_append_left _ member)
    have there : ∀ v ∈ mentioned code, wider v = r v := fun v member => same v (List.mem_append_right _ member)
    have later : ∀ offset, wider (.temp (next + instr.loads.length + offset)) =
        .temp (other + instr.loads.length + offset) := by
      intro offset
      rw [Nat.add_assoc, fresh, Nat.add_assoc]
    have rest := ih there later
    simp only [rename, List.map_cons, expand, List.map_append, Instr.loads_rename, settled_rename here fresh] at rest ⊢
    rw [rest, loadAll_rename fresh]
    rfl

end Expand

-- A renaming that tells the known variables apart and keeps temporaries temporaries.
structure Faithful (r : Variable → Variable) (known : Variable → Prop) : Prop where
  injective : ∀ u v, known u → known v → r u = r v → u = v
  isTemp : ∀ v, known v → (r v).isTemp = v.isTemp

-- The fresh temporaries of both codes lie above all that the code mentions.
theorem Faithful.extend {code : List Instr} (faithful : Faithful r (· ∈ mentioned code)) :
    Faithful (extend r code) fun v => v ∈ mentioned code ∨ ∃ offset, v = .temp (firstUnused code + offset) := by
  have below {v : Variable} (member : v ∈ mentioned code) (offset : Nat) :
      r v ≠ .temp (firstUnused (rename r code) + offset) := by
    obtain ⟨instr, here, used⟩ := List.mem_flatMap.mp member
    have renamed : r v ∈ (instr.rename r).mentioned := instr.mentioned_rename r ▸ List.mem_map_of_mem used
    have bound : (r v).bound ≤ firstUnused (rename r code) := bound_le_firstUnused (List.mem_map_of_mem here) renamed
    intro same
    rw [same, Variable.bound] at bound
    omega
  constructor
  · rintro u v (uOld | ⟨offset, rfl⟩) (vOld | ⟨other, rfl⟩) same
    · rw [extend_mentioned uOld, extend_mentioned vOld] at same
      exact faithful.injective u v uOld vOld same
    · rw [extend_mentioned uOld, extend_fresh] at same
      exact absurd same (below uOld other)
    · rw [extend_mentioned vOld, extend_fresh] at same
      exact absurd same.symm (below vOld offset)
    · rw [extend_fresh, extend_fresh, Variable.temp.injEq, Nat.add_left_cancel_iff] at same
      rw [same]
  · rintro v (member | ⟨offset, rfl⟩)
    · rw [extend_mentioned member]
      exact faithful.isTemp v member
    · rw [extend_fresh]
      rfl

end StraightLine.Code

namespace StraightLine.Assembly

open Code (Variable Faithful)

-- Both succeed with related results, or both run out of registers, for a variable and its new name.
inductive Tracks (r : Variable → Variable) {α β : Type} (related : α → β → Prop) :
    Except LowerError α → Except LowerError β → Prop where
  | ok {a : α} {b : β} (results : related a b) : Tracks r related (.ok a) (.ok b)
  | exhausted (v : Variable) :
      Tracks r related (.error (.registerExhausted v)) (.error (.registerExhausted (r v)))

theorem Tracks.bind {r : Variable → Variable} {α β γ δ : Type} {related : α → β → Prop} {next : γ → δ → Prop}
    {x : Except LowerError α} {y : Except LowerError β} {f : α → Except LowerError γ} {g : β → Except LowerError δ}
    (tracks : Tracks r related x y) (later : ∀ a b, related a b → Tracks r next (f a) (g b)) :
    Tracks r next (x >>= f) (y >>= g) := by
  cases tracks with
  | ok results => exact later _ _ results
  | exhausted v => exact .exhausted v

namespace Placement

def rename (r : Variable → Variable) : Placement → Placement
  | .held slot => .held slot
  | .free slot => .free slot
  | .evicting old slot => .evicting (r old) slot

theorem slot_rename (r : Variable → Variable) (placement : Placement) : (placement.rename r).slot = placement.slot := by
  cases placement <;> rfl

end Placement

-- The second file holds, slot by slot, the new names of what the first one holds.
structure Follows (r : Variable → Variable) (known : Variable → Prop) (left right : RegisterFile) : Prop where
  consistent : left.Consistent
  alsoConsistent : right.Consistent
  known : ∀ slot v, left.occupant? slot = some v → known v
  occupants : ∀ slot, right.occupant? slot = (left.occupant? slot).map r

namespace Follows

variable {r : Variable → Variable} {known : Variable → Prop} {left right : RegisterFile} {v : Variable}
  {evictable renamed : Variable → Bool}

theorem empty : Follows r known .empty .empty := by
  refine ⟨RegisterFile.empty_consistent, RegisterFile.empty_consistent, ?_, ?_⟩
  · intro slot v held
    rw [RegisterFile.occupant?_empty] at held
    cases held
  · intro slot
    rw [RegisterFile.occupant?_empty]
    rfl

theorem occupant?_iff (follows : Follows r known left right) (faithful : Faithful r known) (wanted : known v) (slot : Slot) :
    right.occupant? slot = some (r v) ↔ left.occupant? slot = some v := by
  rw [follows.occupants, Option.map_eq_some_iff]
  constructor
  · rintro ⟨held, here, same⟩
    rw [here, faithful.injective held v (follows.known slot held here) wanted same]
  · intro here
    exact ⟨v, here, rfl⟩

theorem lookup?_eq (follows : Follows r known left right) (faithful : Faithful r known) (wanted : known v) :
    right.lookup? (r v) = left.lookup? v := by
  apply Option.ext
  intro slot
  rw [follows.alsoConsistent, follows.consistent, follows.occupant?_iff faithful wanted]

theorem freeSlot?_eq (follows : Follows r known left right) : right.freeSlot? = left.freeSlot? := by
  unfold RegisterFile.freeSlot?
  congr 1
  funext slot
  rw [follows.occupants, Option.isNone_map]

theorem victim?_eq (follows : Follows r known left right) (faithful : Faithful r known)
    (alike : ∀ held, known held → renamed (r held) = evictable held) (slot : Slot) :
    right.victim? renamed slot = (left.victim? evictable slot).map (Placement.rename r) := by
  unfold RegisterFile.victim?
  rw [follows.occupants]
  cases here : left.occupant? slot with
  | none => rfl
  | some held =>
    have held := follows.known slot held here
    simp only [Option.map_some, faithful.isTemp _ held, alike _ held]
    split <;> rfl

theorem placement?_eq (follows : Follows r known left right) (faithful : Faithful r known) (wanted : known v)
    (alike : ∀ held, known held → renamed (r held) = evictable held) :
    right.placement? (r v) renamed = (left.placement? v evictable).map (Placement.rename r) := by
  unfold RegisterFile.placement?
  rw [follows.lookup?_eq faithful wanted, follows.freeSlot?_eq]
  cases left.lookup? v with
  | some slot => rfl
  | none =>
    cases left.freeSlot? with
    | some slot => rfl
    | none =>
      have victims : right.victim? renamed = fun slot => (left.victim? evictable slot).map (Placement.rename r) :=
        funext (follows.victim?_eq faithful alike)
      simp only [victims]
      exact List.map_findSome?.symm

theorem bind (follows : Follows r known left right) (faithful : Faithful r known) (wanted : known v)
    (unbound : left.lookup? v = none) (slot : Slot) : Follows r known (left.bind slot v) (right.bind slot (r v)) := by
  have alsoUnbound := (follows.lookup?_eq faithful wanted).trans unbound
  refine ⟨RegisterFile.bind_consistent follows.consistent unbound,
    RegisterFile.bind_consistent follows.alsoConsistent alsoUnbound, ?_, ?_⟩
  · intro other held here
    rw [RegisterFile.occupant?_bind] at here
    split at here
    · cases here
      exact wanted
    · exact follows.known other held here
  · intro other
    rw [RegisterFile.occupant?_bind, RegisterFile.occupant?_bind]
    split
    · rfl
    · exact follows.occupants other

theorem acquire (follows : Follows r known left right) (faithful : Faithful r known) (wanted : known v)
    (alike : ∀ held, known held → renamed (r held) = evictable held) :
    Tracks r (fun one two => one.1 = two.1 ∧ Follows r known one.2 two.2)
      (left.acquire v evictable).outcome (right.acquire (r v) renamed).outcome := by
  have placed := follows.placement?_eq faithful wanted alike
  unfold RegisterFile.acquire
  cases found : left.placement? v evictable with
  | none =>
    rw [placed, found]
    exact .exhausted v
  | some placement =>
    rw [placed, found]
    refine .ok ⟨(placement.slot_rename r).symm, ?_⟩
    have unbound (moved : ∀ slot, some placement ≠ some (.held slot)) : left.lookup? v = none := by
      cases bound : left.lookup? v with
      | none => rfl
      | some slot =>
        rw [RegisterFile.placement?, bound] at found
        exact absurd found.symm (moved slot)
    cases placement with
    | held slot => exact follows
    | free slot =>
      apply follows.bind faithful wanted (unbound _) slot
      intro other same
      cases same
    | evicting old slot =>
      apply follows.bind faithful wanted (unbound _) slot
      intro other same
      cases same

end Follows

variable {r : Variable → Variable} {known : Variable → Prop}

-- The second request asks for the new name of what the first one asks for and may evict the same.
structure Asks (r : Variable → Variable) (known : Variable → Prop) (one two : Request) : Prop where
  wanted : known one.v
  named : two.v = r one.v
  evicts : ∀ held, known held → two.evictable (r held) = one.evictable held

theorem Follows.acquireAll {left right : RegisterFile} {first second : List Request}
    (follows : Follows r known left right) (faithful : Faithful r known) (asks : List.Forall₂ (Asks r known) first second) :
    Tracks r (fun one two => one.1 = two.1 ∧ Follows r known one.2 two.2)
      (left.acquireAll first) (right.acquireAll second) := by
  induction asks generalizing left right with
  | nil => exact .ok ⟨rfl, follows⟩
  | cons one more ih =>
    have acquired := follows.acquire faithful one.wanted one.evicts
    rw [← one.named] at acquired
    refine acquired.bind ?_
    intro here there same
    refine (ih same.2).bind ?_
    intro slots others alike
    exact .ok ⟨congrArg₂ List.cons same.1 alike.1, alike.2⟩

section Code

variable {instr : Code.Instr} {rest : List Code.Instr}

theorem readIn_rename (faithful : Faithful r known) {code : List Code.Instr} (covered : ∀ v ∈ Code.mentioned code, known v)
    {v : Variable} (wanted : known v) : readIn (Code.rename r code) (r v) = readIn code v := by
  induction code with
  | nil => rfl
  | cons instr rest ih =>
    have here : r v ∈ (instr.rename r).reads ↔ v ∈ instr.reads := by
      rw [instr.reads_rename, List.mem_map]
      constructor
      · rintro ⟨u, read, same⟩
        rwa [← faithful.injective u v (covered u (List.mem_append_left _ (Code.Instr.read_mentioned read))) wanted same]
      · intro read
        exact ⟨v, read, rfl⟩
    have there := ih fun v member => covered v (List.mem_append_right _ member)
    rw [Bool.eq_iff_iff, Code.rename, List.map_cons, readIn_cons, readIn_cons, here, ← there]
    rfl

-- Requests that spare what the code reads, before and after the renaming.
theorem asks_map (faithful : Faithful r known) {code : List Code.Instr} (covered : ∀ v ∈ Code.mentioned code, known v)
    {listed : List Variable} (wanted : ∀ v ∈ listed, known v) :
    List.Forall₂ (Asks r known) (listed.map fun v => ⟨v, fun held => !readIn code held⟩)
      ((listed.map r).map fun v => ⟨v, fun held => !readIn (Code.rename r code) held⟩) := by
  rw [List.map_map, List.forall₂_map_left_iff, List.forall₂_map_right_iff, List.forall₂_same]
  intro v member
  refine ⟨wanted v member, rfl, ?_⟩
  intro held also
  exact congrArg not (readIn_rename faithful covered also)

theorem asks_requests (faithful : Faithful r known) (covered : ∀ v ∈ Code.mentioned (instr :: rest), known v) :
    List.Forall₂ (Asks r known) (requests instr rest) (requests (instr.rename r) (Code.rename r rest)) := by
  have later : ∀ v ∈ Code.mentioned rest, known v := fun v member => covered v (List.mem_append_right _ member)
  have own : ∀ v ∈ instr.mentioned, known v := fun v member => covered v (List.mem_append_left _ member)
  have result : (instr.rename r).result?.toList = instr.result?.toList.map r := by
    rw [instr.result?_rename]
    cases instr.result? <;> rfl
  rw [requests, requests, instr.reads_rename, result]
  apply List.rel_append
  · exact asks_map faithful covered fun v read => own v (Code.Instr.read_mentioned read)
  · exact asks_map faithful later fun v result => own v (List.mem_append_left _ result)

theorem assemble_rename (r : Variable → Variable) (instr : Code.Instr) (slots : List Slot) :
    assemble (instr.rename r) slots = assemble instr slots := by
  -- No instruction asks for more than three registers.
  rcases slots with _ | ⟨first, _ | ⟨second, _ | ⟨third, _ | ⟨fourth, more⟩⟩⟩⟩
  all_goals
    cases instr with
    | mov result source => cases source <;> rfl
    | arith op result left right => cases right <;> rfl
    | ret value => cases value <;> rfl

end Code

theorem selectAll_rename (faithful : Faithful r known) {code : List Code.Instr} (normal : ∀ instr ∈ code, instr.IsNormal)
    (covered : ∀ v ∈ Code.mentioned code, known v) {left right : RegisterFile} (follows : Follows r known left right) :
    Tracks r Eq (selectAll left code).outcome (selectAll right (Code.rename r code)).outcome := by
  induction code generalizing left right with
  | nil => exact .ok rfl
  | cons instr rest ih =>
    obtain ⟨here, later⟩ := List.forall_mem_cons.mp normal
    rw [Code.rename, List.map_cons, selectAll_cons, selectAll_cons, select_eq left rest here,
      select_eq right (List.map (Code.Instr.rename r) rest) here.rename, bind_assoc, bind_assoc]
    refine (follows.acquireAll faithful (asks_requests faithful covered)).bind ?_
    intro one two same
    simp only [pure_bind]
    refine (ih later (fun v member => covered v (List.mem_append_right _ member)) same.2).bind ?_
    intro others renamed alike
    exact .ok (congrArg₂ List.cons (by rw [same.1, assemble_rename]) alike)

theorem lower_tracks {code : List Code.Instr} (faithful : Faithful r (· ∈ Code.mentioned code))
    (room : Code.LeavesRoom code) (alsoRoom : Code.LeavesRoom (Code.rename r code)) :
    Tracks (Code.extend r code) Eq (lower code).outcome (lower (Code.rename r code)).outcome := by
  obtain ⟨normal, done⟩ := Code.normalize?_of_room room
  obtain ⟨renamed, alsoDone⟩ := Code.normalize?_of_room alsoRoom
  have alike : renamed = Code.rename (Code.extend r code) normal := by
    rw [Code.normalize?_eq_expand done, Code.normalize?_eq_expand alsoDone]
    exact Code.expand_rename (fun _ => Code.extend_mentioned) (Code.extend_fresh code)
  rw [lower_outcome done, lower_outcome alsoDone, alike]
  apply selectAll_rename faithful.extend
  · exact Code.normalizeFrom?_isNormal (Code.normalize?_from done)
  · intro v member
    rcases Code.mem_mentioned_normal (Code.normalize?_from done) member with old | ⟨offset, _, fresh⟩
    · exact .inl old
    · exact .inr ⟨offset, fresh⟩
  · exact .empty

-- Lowering does not depend on what variables are called. Renamed code lowers to the same program, or both run out of
-- registers, and then for the same variable up to its name.
theorem lower_rename (r : Variable → Variable) (code : List Code.Instr)
    (injective : ∀ u ∈ Code.mentioned code, ∀ v ∈ Code.mentioned code, r u = r v → u = v)
    (isTemp : ∀ v ∈ Code.mentioned code, (r v).isTemp = v.isTemp)
    (room : Code.LeavesRoom code) (alsoRoom : Code.LeavesRoom (Code.rename r code)) :
    (∀ program, (lower (Code.rename r code)).outcome = .ok program ↔ (lower code).outcome = .ok program) ∧
    ∀ error other, (lower code).outcome = .error error → (lower (Code.rename r code)).outcome = .error other →
      ∃ v renamed, error = .registerExhausted v ∧ other = .registerExhausted renamed ∧
        (v ∈ Code.mentioned code → renamed = r v) := by
  have faithful : Faithful r (· ∈ Code.mentioned code) := ⟨fun u v known also => injective u known v also, isTemp⟩
  have tracks := lower_tracks faithful room alsoRoom
  generalize (lower code).outcome = outcome, (lower (Code.rename r code)).outcome = renamedOutcome at tracks
  cases tracks with
  | ok results =>
    subst results
    refine ⟨fun program => Iff.rfl, ?_⟩
    intro error other failed
    cases failed
  | exhausted v =>
    constructor
    · intro program
      constructor <;> intro succeeded <;> cases succeeded
    · intro error other failed alsoFailed
      cases failed
      cases alsoFailed
      exact ⟨v, _, rfl, rfl, Code.extend_mentioned⟩

-- Other names, and the temporaries counted from twelve down.
def elsewhere : Variable → Variable
  | .named name => .named ("_" ++ name)
  | .temp number => .temp (12 - number)

theorem lower_rename_pressed :
    Code.LeavesRoom pressed ∧ Code.LeavesRoom (Code.rename elsewhere pressed) ∧
      (lower pressed).outcome = .error (.registerExhausted (.temp 1)) ∧
      (lower (Code.rename elsewhere pressed)).outcome = .error (.registerExhausted (.temp 11)) := by
  have room : Code.LeavesRoom pressed := by decide
  have alsoRoom : Code.LeavesRoom (Code.rename elsewhere pressed) := by decide
  have failed : (lower pressed).outcome = .error (.registerExhausted (.temp 1)) := rfl
  obtain ⟨same, named⟩ := lower_rename elsewhere pressed (by decide) (by decide) room alsoRoom
  refine ⟨room, alsoRoom, failed, ?_⟩
  cases outcome : (lower (Code.rename elsewhere pressed)).outcome with
  | ok program =>
    have succeeded := failed.symm.trans ((same program).mp outcome)
    cases succeeded
  | error other =>
    obtain ⟨v, renamed, first, rfl, new⟩ := named _ other failed outcome
    cases first
    rw [new (by decide)]
    rfl

end StraightLine.Assembly
