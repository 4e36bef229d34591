import Mathlib.Data.Fintype.Card
import StraightLine.Proofs.Selection

namespace StraightLine.Assembly

open Code (Variable)

def lastReadFrom? (v : Variable) (position : Nat) : List Code.Instr → Option Nat
  | [] => none
  | instr :: rest => (lastReadFrom? v (position + 1) rest).or (if v ∈ instr.reads then some position else none)

def lastRead? (code : List Code.Instr) (v : Variable) : Option Nat := lastReadFrom? v 0 code

structure Acquisition where
  v : Variable
  position : Nat
  asSource : Bool

def acquisitionsFrom (position : Nat) : List Code.Instr → List Acquisition
  | [] => []
  | instr :: rest =>
    instr.reads.map (⟨·, position, true⟩) ++ instr.result?.toList.map (⟨·, position, false⟩) ++
      acquisitionsFrom (position + 1) rest

-- The acquisitions in order: for each instruction the variables it reads from left to right, then its result.
def acquisitions (code : List Code.Instr) : List Acquisition := acquisitionsFrom 0 code

namespace Acquisition

-- A name is pinned for good; a temporary while its last read lies ahead, the instruction itself counting as
-- ahead as long as its sources are acquired.
def pins (code : List Code.Instr) (next : Acquisition) (held : Variable) : Bool :=
  match held, lastRead? code held with
  | .named _, _ => true
  | .temp _, none => false
  | .temp _, some last => decide (next.position < last) || (next.asSource && decide (last = next.position))

-- The variables acquired before, other than the one asked for, that are pinned at this acquisition.
def pinned (code : List Code.Instr) (before : List Acquisition) (next : Acquisition) : Finset Variable :=
  ((before.map Acquisition.v).toFinset.filter fun held => next.pins code held = true).erase next.v

def Overfull (code : List Code.Instr) (before : List Acquisition) (next : Acquisition) : Prop :=
  7 ≤ (pinned code before next).card

-- The first position whose reads still count.
def cut (next : Acquisition) : Nat := if next.asSource then next.position else next.position + 1

def request (code : List Code.Instr) (next : Acquisition) : Request :=
  ⟨next.v, fun held => !readIn (code.drop next.cut) held⟩

end Acquisition

theorem le_lastReadFrom? {v : Variable} {position last : Nat} {code : List Code.Instr}
    (found : lastReadFrom? v position code = some last) : position ≤ last := by
  induction code generalizing position with
  | nil => cases found
  | cons instr rest ih =>
    rcases Option.or_eq_some_iff.mp found with later | ⟨_, here⟩
    · exact Nat.le_of_succ_le (ih later)
    · split at here
      · exact Nat.le_of_eq (Option.some.inj here)
      · cases here

theorem readIn_iff_lastReadFrom? {v : Variable} {code : List Code.Instr} (position : Nat) :
    readIn code v = true ↔ ∃ last, lastReadFrom? v position code = some last := by
  induction code generalizing position with
  | nil => exact ⟨nofun, nofun⟩
  | cons instr rest ih =>
    rw [readIn_cons, ih (position + 1), lastReadFrom?]
    cases lastReadFrom? v (position + 1) rest with
    | none => by_cases here : v ∈ instr.reads <;> simp [here]
    | some last => simp

theorem readIn_drop_iff (v : Variable) (code : List Code.Instr) (position skipped : Nat) :
    readIn (code.drop skipped) v = true ↔
      ∃ last, lastReadFrom? v position code = some last ∧ position + skipped ≤ last := by
  induction code generalizing position skipped with
  | nil => simp [lastReadFrom?, readIn]
  | cons instr rest ih =>
    cases skipped with
    | zero =>
      rw [List.drop_zero, readIn_iff_lastReadFrom? position]
      refine exists_congr fun last => ?_
      exact (and_iff_left_of_imp le_lastReadFrom?).symm
    | succ skipped =>
      rw [List.drop_succ_cons, ih (position + 1) skipped, lastReadFrom?]
      cases lastReadFrom? v (position + 1) rest with
      | none => by_cases here : v ∈ instr.reads <;> simp [here]
      | some last =>
        have shift : position + 1 + skipped = position + (skipped + 1) := by omega
        simp [shift]

namespace Acquisition

variable {code : List Code.Instr} {next earlier : Acquisition} {held : Variable}

theorem pins_iff :
    next.pins code held = true ↔ held.isTemp = false ∨ ∃ last, lastRead? code held = some last ∧ next.cut ≤ last := by
  cases held with
  | named name => simp [pins, Variable.isTemp]
  | temp number =>
    unfold pins
    cases lastRead? code (.temp number) with
    | none => simp [Variable.isTemp]
    | some last =>
      have reached : next.cut ≤ last ↔ next.position < last ∨ (next.asSource = true ∧ last = next.position) := by
        unfold cut
        split
        case isTrue source =>
          simp only [source, true_and]
          omega
        case isFalse result =>
          rw [Bool.not_eq_true] at result
          simp only [result, Bool.false_eq_true, false_and, or_false]
          omega
      simp [Variable.isTemp, reached]

theorem pins_eq_not_evictable :
    next.pins code held = true ↔ (held.isTemp && (next.request code).evictable held) = false := by
  have ahead := readIn_drop_iff held code 0 next.cut
  rw [Nat.zero_add] at ahead
  rw [pins_iff, lastRead?, ← ahead, request]
  cases held.isTemp <;> simp

-- What is pinned now was pinned at every earlier acquisition.
theorem pins_earlier (ordered : earlier.cut ≤ next.cut) (pinned : next.pins code held = true) :
    earlier.pins code held = true := by
  rcases pins_iff.mp pinned with named | ⟨last, found, ahead⟩
  · exact pins_iff.mpr (.inl named)
  · exact pins_iff.mpr (.inr ⟨last, found, Nat.le_trans ordered ahead⟩)

theorem mem_pinned {before : List Acquisition} :
    held ∈ pinned code before next ↔
      held ≠ next.v ∧ (∃ earlier ∈ before, earlier.v = held) ∧ next.pins code held = true := by
  simp [pinned]

end Acquisition

theorem allRequests_eq (front back : List Code.Instr) :
    allRequests back = (acquisitionsFrom front.length back).map (Acquisition.request (front ++ back)) := by
  induction back generalizing front with
  | nil => rfl
  | cons instr rest ih =>
    have source : ∀ v, Acquisition.request (front ++ instr :: rest) ⟨v, front.length, true⟩ = sourceRequest instr rest v := by
      intro v
      simp [Acquisition.request, Acquisition.cut, sourceRequest]
    have result : ∀ v, Acquisition.request (front ++ instr :: rest) ⟨v, front.length, false⟩ = resultRequest rest v := by
      intro v
      simp [Acquisition.request, Acquisition.cut, resultRequest]
    have later := ih (front ++ [instr])
    rw [List.length_append, List.append_assoc] at later
    simp only [allRequests, requests, acquisitionsFrom, List.map_append, List.map_map, later]
    congr 2
    · exact List.map_congr_left fun v _ => (source v).symm
    · exact List.map_congr_left fun v _ => (result v).symm

theorem le_cut {position : Nat} {code : List Code.Instr} {next : Acquisition}
    (member : next ∈ acquisitionsFrom position code) : position ≤ next.cut := by
  induction code generalizing position with
  | nil => cases member
  | cons instr rest ih =>
    simp only [acquisitionsFrom, List.mem_append, List.mem_map] at member
    rcases member with (⟨v, _, rfl⟩ | ⟨v, _, rfl⟩) | later
    · exact Nat.le_refl _
    · exact Nat.le_succ _
    · exact Nat.le_of_succ_le (ih later)

theorem acquisitionsFrom_ordered (position : Nat) (code : List Code.Instr) :
    (acquisitionsFrom position code).Pairwise fun earlier next => earlier.cut ≤ next.cut := by
  induction code generalizing position with
  | nil => exact .nil
  | cons instr rest ih =>
    simp only [acquisitionsFrom]
    refine List.pairwise_append.mpr ⟨List.pairwise_append.mpr ⟨?_, ?_, ?_⟩, ih _, ?_⟩
    · exact List.pairwise_map.mpr (List.pairwise_of_forall fun _ _ => Nat.le_refl _)
    · exact List.pairwise_map.mpr (List.pairwise_of_forall fun _ _ => Nat.le_refl _)
    · intro earlier source next result
      obtain ⟨_, _, rfl⟩ := List.mem_map.mp source
      obtain ⟨_, _, rfl⟩ := List.mem_map.mp result
      exact Nat.le_succ _
    · intro earlier here next later
      refine Nat.le_trans ?_ (le_cut later)
      rcases List.mem_append.mp here with source | result
      · obtain ⟨_, _, rfl⟩ := List.mem_map.mp source
        exact Nat.le_succ _
      · obtain ⟨_, _, rfl⟩ := List.mem_map.mp result
        exact Nat.le_refl _

section Counting

variable {file : RegisterFile} {pinned : Finset Variable}

theorem seven_le_card (consistent : file.Consistent) (full : ∀ slot, ∃ old ∈ pinned, file.occupant? slot = some old) :
    7 ≤ pinned.card := by
  choose occupant member held using full
  have injective : Function.Injective occupant := by
    intro left right same
    have first := (consistent _ _).mpr (held left)
    rw [same, (consistent _ _).mpr (held right)] at first
    exact (Option.some.inj first).symm
  have size : (Finset.univ.image occupant).card = 7 := by
    rw [Finset.card_image_of_injective _ injective, Finset.card_univ, Fintype.card_fin]
  rw [← size]
  apply Finset.card_le_card
  intro v image
  obtain ⟨slot, _, rfl⟩ := Finset.mem_image.mp image
  exact member slot

theorem all_occupied (consistent : file.Consistent) (bound : ∀ v ∈ pinned, ∃ slot, file.lookup? v = some slot)
    (many : 7 ≤ pinned.card) (slot : Slot) : ∃ old ∈ pinned, file.occupant? slot = some old := by
  have injective : Set.InjOn (fun v => (file.lookup? v).getD 0) pinned := by
    intro left leftPinned right rightPinned same
    obtain ⟨home, found⟩ := bound left leftPinned
    obtain ⟨other, alsoFound⟩ := bound right rightPinned
    simp only [found, alsoFound, Option.getD_some] at same
    exact consistent.unique found (same ▸ alsoFound)
  have everywhere : pinned.image (fun v => (file.lookup? v).getD 0) = Finset.univ := by
    apply Finset.eq_univ_of_card
    apply Nat.le_antisymm (Finset.card_le_univ _)
    rw [Finset.card_image_of_injOn injective, Fintype.card_fin]
    exact many
  obtain ⟨v, member, home⟩ := Finset.mem_image.mp (everywhere ▸ Finset.mem_univ slot)
  obtain ⟨other, found⟩ := bound v member
  simp only [found, Option.getD_some] at home
  exact ⟨v, member, (consistent v slot).mp (home ▸ found)⟩

end Counting

-- The file between two acquisitions: it holds only what was acquired, and everything that a later acquisition
-- pins is still there.
structure Settled (code : List Code.Instr) (before rest : List Acquisition) (file : RegisterFile) : Prop where
  consistent : file.Consistent
  origin : ∀ v slot, file.lookup? v = some slot → ∃ earlier ∈ before, earlier.v = v
  kept : ∀ earlier ∈ before, ∀ next ∈ rest, next.pins code earlier.v = true →
    ∃ slot, file.lookup? earlier.v = some slot

theorem settled_empty (code : List Code.Instr) (rest : List Acquisition) : Settled code [] rest .empty := by
  refine ⟨RegisterFile.empty_consistent, ?_, nofun⟩
  intro v slot found
  rw [RegisterFile.empty_consistent, RegisterFile.occupant?_empty] at found
  cases found

section OneAcquisition

variable {code : List Code.Instr} {before rest : List Acquisition} {next : Acquisition} {file after : RegisterFile}

theorem acquire_error_iff_overfull (settled : Settled code before (next :: rest) file) {error : LowerError} :
    (file.acquire (next.request code).v (next.request code).evictable).outcome = .error error ↔
      error = .registerExhausted next.v ∧ next.Overfull code before := by
  rw [RegisterFile.acquire_error_iff]
  refine and_congr_right fun _ => ⟨?_, ?_⟩
  · rintro ⟨unbound, full⟩
    apply seven_le_card settled.consistent
    intro slot
    obtain ⟨old, held, stays⟩ := full slot
    have found := (settled.consistent old slot).mpr held
    refine ⟨old, Acquisition.mem_pinned.mpr ⟨?_, settled.origin old slot found, ?_⟩, held⟩
    · rintro rfl
      rw [show file.lookup? next.v = none from unbound] at found
      cases found
    · exact Acquisition.pins_eq_not_evictable.mpr stays
  · intro overfull
    have bound : ∀ v ∈ next.pinned code before, ∃ slot, file.lookup? v = some slot := by
      intro v member
      obtain ⟨_, ⟨earlier, acquired, rfl⟩, pinned⟩ := Acquisition.mem_pinned.mp member
      exact settled.kept earlier acquired next List.mem_cons_self pinned
    have full := all_occupied settled.consistent bound overfull
    refine ⟨?_, ?_⟩
    · cases found : file.lookup? next.v with
      | none => exact found
      | some slot =>
        obtain ⟨old, member, held⟩ := full slot
        rw [(settled.consistent _ _).mp found] at held
        cases held
        exact absurd rfl (Acquisition.mem_pinned.mp member).1
    · intro slot
      obtain ⟨old, member, held⟩ := full slot
      exact ⟨old, held, Acquisition.pins_eq_not_evictable.mp (Acquisition.mem_pinned.mp member).2.2⟩

theorem settled_acquire {slot : Slot} (settled : Settled code before (next :: rest) file)
    (ordered : ∀ later ∈ rest, next.cut ≤ later.cut)
    (acquired : (file.acquire (next.request code).v (next.request code).evictable).outcome = .ok (slot, after)) :
    Settled code (before ++ [next]) rest after := by
  refine ⟨RegisterFile.acquire_consistent settled.consistent acquired, ?_, ?_⟩
  · intro v home found
    rcases RegisterFile.acquire_origin acquired found with rfl | old
    · exact ⟨next, by simp, rfl⟩
    · obtain ⟨earlier, member, same⟩ := settled.origin v home old
      exact ⟨earlier, List.mem_append_left _ member, same⟩
  · intro earlier member later ahead pinned
    have pinnedNow := Acquisition.pins_earlier (ordered later ahead) pinned
    rcases List.mem_append.mp member with old | new
    · obtain ⟨home, found⟩ := settled.kept earlier old next List.mem_cons_self pinnedNow
      exact ⟨home, RegisterFile.acquire_kept settled.consistent acquired found
        (Acquisition.pins_eq_not_evictable.mp pinnedNow)⟩
    · obtain rfl := List.mem_singleton.mp new
      exact ⟨slot, RegisterFile.acquire_bound acquired⟩

end OneAcquisition

-- `next` is the first of the acquisitions, after those made before, at which too many variables are pinned.
def FirstOverfull (code : List Code.Instr) (before list : List Acquisition) (next : Acquisition) : Prop :=
  ∃ front back, list = front ++ next :: back ∧ next.Overfull code (before ++ front) ∧
    ∀ earlier one later, front = earlier ++ one :: later → ¬ one.Overfull code (before ++ earlier)

theorem firstOverfull_cons {code : List Code.Instr} {before rest : List Acquisition} {first next : Acquisition} :
    FirstOverfull code before (first :: rest) next ↔
      (first.Overfull code before ∧ next = first) ∨
        (¬ first.Overfull code before ∧ FirstOverfull code (before ++ [first]) rest next) := by
  constructor
  · rintro ⟨front, back, split, overfull, none⟩
    cases front with
    | nil =>
      cases split
      exact .inl ⟨by simpa using overfull, rfl⟩
    | cons head front =>
      cases split
      refine .inr ⟨by simpa using none [] first front rfl, front, back, rfl, by simpa using overfull, ?_⟩
      rintro earlier one later rfl
      simpa using none (first :: earlier) one later rfl
  · rintro (⟨overfull, rfl⟩ | ⟨fits, front, back, rfl, overfull, none⟩)
    · exact ⟨[], rest, rfl, by simpa using overfull, by simp⟩
    · refine ⟨first :: front, back, rfl, by simpa using overfull, ?_⟩
      intro earlier one later split
      cases earlier with
      | nil =>
        cases split
        simpa using fits
      | cons head earlier =>
        cases split
        simpa using none earlier one later rfl

theorem acquireAll_error_iff {code : List Code.Instr} {before list : List Acquisition} {file : RegisterFile}
    {error : LowerError} (settled : Settled code before list file)
    (ordered : list.Pairwise fun earlier next => earlier.cut ≤ next.cut) :
    file.acquireAll (list.map (Acquisition.request code)) = .error error ↔
      ∃ next, FirstOverfull code before list next ∧ error = .registerExhausted next.v := by
  induction list generalizing before file with
  | nil =>
    refine ⟨nofun, ?_⟩
    rintro ⟨next, ⟨front, back, split, _⟩, _⟩
    simp at split
  | cons first rest ih =>
    obtain ⟨ahead, ordered⟩ := List.pairwise_cons.mp ordered
    have here := @acquire_error_iff_overfull _ _ _ _ _ settled
    simp only [List.map_cons, RegisterFile.acquireAll, firstOverfull_cons, Logged.bind_eq_error_iff]
    cases acquired : (file.acquire (first.request code).v (first.request code).evictable).outcome with
    | error failure =>
      obtain ⟨rfl, overfull⟩ := here.mp acquired
      simp [overfull, eq_comm]
    | ok pair =>
      obtain ⟨slot, after⟩ := pair
      have fits : ¬ first.Overfull code before := by
        intro overfull
        rw [here.mpr ⟨rfl, overfull⟩] at acquired
        cases acquired
      have returns : ∀ {α : Type} (a : α), (pure a : Except LowerError α) ≠ .error error := by
        intro α a failed
        cases failed
      simp [fits, returns, ih (settled_acquire settled ahead acquired) ordered]

theorem exists_firstOverfull (code : List Code.Instr) (before list : List Acquisition) :
    (∃ next, FirstOverfull code before list next) ↔
      ∃ front next back, list = front ++ next :: back ∧ next.Overfull code (before ++ front) := by
  constructor
  · rintro ⟨next, front, back, split, overfull, _⟩
    exact ⟨front, next, back, split, overfull⟩
  · rintro ⟨front, next, back, rfl, overfull⟩
    induction front generalizing before with
    | nil => exact ⟨next, firstOverfull_cons.mpr (.inl ⟨by simpa using overfull, rfl⟩)⟩
    | cons first front ih =>
      by_cases full : first.Overfull code before
      · exact ⟨first, firstOverfull_cons.mpr (.inl ⟨full, rfl⟩)⟩
      · have moved : next.Overfull code (before ++ [first] ++ front) := by simpa using overfull
        obtain ⟨found, later⟩ := ih _ moved
        exact ⟨found, firstOverfull_cons.mpr (.inr ⟨full, later⟩)⟩

theorem selectAll_error_iff_overfull {normal : List Code.Instr} (shapes : ∀ instr ∈ normal, instr.IsNormal)
    {error : LowerError} :
    (selectAll .empty normal).outcome = .error error ↔
      ∃ next, FirstOverfull normal [] (acquisitions normal) next ∧ error = .registerExhausted next.v := by
  rw [selectAll_error_iff shapes, show allRequests normal = _ from allRequests_eq [] normal]
  exact acquireAll_error_iff (settled_empty normal _) (acquisitionsFrom_ordered 0 normal)

-- Lowering fails exactly when some acquisition finds seven other variables pinned, and then for want of a register
-- for the first such acquisition's variable.
theorem lower_error_iff_overfull (code : List Code.Instr) (room : Code.LeavesRoom code) :
    ∃ normal, Code.normalize? code = some normal ∧
      (∀ error, (lower code).outcome = .error error ↔
        ∃ next, FirstOverfull normal [] (acquisitions normal) next ∧ error = .registerExhausted next.v) ∧
      ((∃ v, (lower code).outcome = .error (.registerExhausted v)) ↔
        ∃ before next after, acquisitions normal = before ++ next :: after ∧ next.Overfull normal before) ∧
      ((∃ program, (lower code).outcome = .ok program) ↔
        ∀ before next after, acquisitions normal = before ++ next :: after → ¬ next.Overfull normal before) := by
  obtain ⟨normal, done⟩ := Code.normalize?_of_room room
  have shapes := Code.normalizeFrom?_isNormal (Code.normalize?_from done)
  have fails : ∀ error, (lower code).outcome = .error error ↔
      ∃ next, FirstOverfull normal [] (acquisitions normal) next ∧ error = .registerExhausted next.v := by
    intro error
    rw [lower_outcome done]
    exact selectAll_error_iff_overfull shapes
  have exhausted : (∃ v, (lower code).outcome = .error (.registerExhausted v)) ↔
      ∃ before next after, acquisitions normal = before ++ next :: after ∧ next.Overfull normal before := by
    refine Iff.trans ?_ (exists_firstOverfull normal [] (acquisitions normal))
    constructor
    · rintro ⟨v, failed⟩
      obtain ⟨next, first, _⟩ := (fails _).mp failed
      exact ⟨next, first⟩
    · rintro ⟨next, first⟩
      exact ⟨next.v, (fails _).mpr ⟨next, first, rfl⟩⟩
  refine ⟨normal, done, fails, exhausted, ?_⟩
  constructor
  · rintro ⟨program, succeeded⟩ before next after split overfull
    obtain ⟨v, failed⟩ := exhausted.mpr ⟨before, next, after, split, overfull⟩
    rw [succeeded] at failed
    cases failed
  · intro fits
    cases outcome : (lower code).outcome with
    | ok program => exact ⟨program, rfl⟩
    | error error =>
      obtain ⟨next, first, _⟩ := (fails error).mp outcome
      obtain ⟨before, next, after, split, overfull⟩ := (exists_firstOverfull normal [] _).mp ⟨next, first⟩
      exact absurd overfull (fits before next after split)

-- Five names, a temporary that nothing reads and a sixth name fill the file. `$0` takes the place of the dead
-- temporary; then `$1` finds seven others pinned.
def pressed : List Code.Instr :=
  [.mov (.named "a") (.imm 1), .mov (.named "b") (.imm 2), .mov (.named "c") (.imm 3), .mov (.named "d") (.imm 4),
   .mov (.named "e") (.imm 5), .mov (.temp 2) (.imm 0), .mov (.named "f") (.imm 6),
   .arith .add (.temp 0) (.var (.named "a")) (.imm 1), .arith .add (.temp 1) (.var (.named "b")) (.imm 1),
   .arith .mul (.temp 0) (.var (.temp 0)) (.var (.temp 1))]

theorem lower_error_iff_overfull_pressed :
    Code.LeavesRoom pressed ∧ ∃ normal, Code.normalize? pressed = some normal ∧
      ∃ next, FirstOverfull normal [] (acquisitions normal) next ∧ next.v = .temp 1 := by
  have room : Code.LeavesRoom pressed := by decide
  obtain ⟨normal, done, fails, _⟩ := lower_error_iff_overfull pressed room
  obtain ⟨next, first, same⟩ := (fails (.registerExhausted (.temp 1))).mp rfl
  exact ⟨room, normal, done, next, first, (LowerError.registerExhausted.inj same).symm⟩

end StraightLine.Assembly
