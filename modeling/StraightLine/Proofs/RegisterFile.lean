import Mathlib.Data.List.FinRange
import Mathlib.Order.Bounds.Defs
import StraightLine.Assembly.Selection

namespace StraightLine.Assembly.RegisterFile

open Code (Variable)

variable {file after : RegisterFile} {v : Variable} {slot : Slot} {evictable : Variable → Bool}

def Consistent (file : RegisterFile) : Prop :=
  ∀ v slot, file.lookup? v = some slot ↔ file.occupant? slot = some v

theorem mem_slots (slot : Slot) : slot ∈ slots := List.mem_finRange slot

theorem occupant?_empty (slot : Slot) : empty.occupant? slot = none := by
  change (Vector.replicate 7 none).get slot = none
  simp [Vector.get]

theorem empty_consistent : empty.Consistent := by
  intro v slot
  rw [occupant?_empty]
  change Homes.empty.find? v = some slot ↔ _
  simp [Homes.find?_empty]

theorem Consistent.unique (consistent : file.Consistent) {other : Variable}
    (first : file.lookup? v = some slot) (second : file.lookup? other = some slot) : v = other := by
  have held := (consistent v slot).mp first
  rw [(consistent other slot).mp second] at held
  exact (Option.some.inj held).symm

-- A variable without a home occupies no slot.
theorem Consistent.absent (consistent : file.Consistent) (unbound : file.lookup? v = none) (slot : Slot) :
    file.occupant? slot ≠ some v := by
  intro occupied
  rw [(consistent v slot).mpr occupied] at unbound
  cases unbound

theorem bind_consistent (consistent : file.Consistent) (unbound : file.lookup? v = none) :
    (file.bind slot v).Consistent := by
  intro other home
  rw [lookup?_bind, occupant?_bind]
  by_cases same : other = v
  · subst same
    have absent := consistent.absent unbound home
    by_cases here : home = slot
    · simp [here]
    · simp [here, Ne.symm here, absent]
  · by_cases here : home = slot
    · subst here
      have apart : v ≠ other := Ne.symm same
      by_cases displaced : file.occupant? home = some other
      · simp [same, displaced, apart]
      · have elsewhere : file.lookup? other ≠ some home := fun found => displaced ((consistent other home).mp found)
        simp [same, displaced, apart, elsewhere]
    · by_cases displaced : file.occupant? slot = some other
      · have elsewhere : file.occupant? home ≠ some other := by
          intro held
          have first := (consistent other home).mpr held
          rw [(consistent other slot).mpr displaced] at first
          exact here (Option.some.inj first).symm
        simp [same, displaced, here, elsewhere]
      · simpa [same, displaced, here] using consistent other home

theorem lookup?_bind_other {other : Variable} (apart : other ≠ v) (elsewhere : file.occupant? slot ≠ some other) :
    (file.bind slot v).lookup? other = file.lookup? other := by
  rw [lookup?_bind, if_neg apart, if_neg elsewhere]

theorem freeSlot?_eq_none (full : file.freeSlot? = none) (slot : Slot) : ∃ old, file.occupant? slot = some old := by
  have taken := List.find?_eq_none.mp full slot (mem_slots slot)
  cases held : file.occupant? slot with
  | none => simp [held] at taken
  | some old => exact ⟨old, rfl⟩

theorem freeSlot?_eq_some (free : file.freeSlot? = some slot) : file.occupant? slot = none := by
  have empty := List.find?_some free
  simpa using empty

theorem victim?_eq_some {placement : Placement} (found : file.victim? evictable slot = some placement) :
    ∃ old, file.occupant? slot = some old ∧ old.isTemp = true ∧ evictable old = true ∧
      placement = .evicting old slot := by
  unfold victim? at found
  cases held : file.occupant? slot with
  | none => simp [held] at found
  | some old =>
    simp only [held, Bool.and_eq_true] at found
    split at found
    · rename_i allowed
      exact ⟨old, rfl, allowed.1, allowed.2, (Option.some.inj found).symm⟩
    · cases found

theorem victim?_eq_none {old : Variable} (held : file.occupant? slot = some old)
    (missing : file.victim? evictable slot = none) : (old.isTemp && evictable old) = false := by
  unfold victim? at missing
  simp only [held] at missing
  split at missing
  · cases missing
  · rename_i refused
    simpa using refused

-- The slot holds a temporary that the request may evict.
def Yields (file : RegisterFile) (evictable : Variable → Bool) (slot : Slot) : Prop :=
  ∃ old, file.occupant? slot = some old ∧ old.isTemp = true ∧ evictable old = true

-- How a variable may be placed, with what the choice of its slot has to satisfy.
inductive Placed (file : RegisterFile) (v : Variable) (evictable : Variable → Bool) : Placement → Prop where
  | held {slot : Slot} (found : file.lookup? v = some slot) : Placed file v evictable (.held slot)
  | free {slot : Slot} (unbound : file.lookup? v = none) (lowest : IsLeast {free | file.occupant? free = none} slot) :
      Placed file v evictable (.free slot)
  | evicting {old : Variable} {slot : Slot} (unbound : file.lookup? v = none) (full : ∀ held, file.occupant? held ≠ none)
      (occupied : file.occupant? slot = some old) (lowest : IsLeast {held | file.Yields evictable held} slot) :
      Placed file v evictable (.evicting old slot)

-- Slots are searched in their order, so the first that serves is the lowest.
theorem isLeast_of_first {serves : Slot → Prop} {passed others : List Slot} (searched : slots = passed ++ slot :: others)
    (here : serves slot) (before : ∀ earlier ∈ passed, ¬ serves earlier) : IsLeast {slot | serves slot} slot := by
  refine ⟨here, ?_⟩
  intro other served
  have ordered : slots.Pairwise (· < ·) := List.pairwise_lt_finRange 7
  rw [searched] at ordered
  obtain ⟨_, later, _⟩ := List.pairwise_append.mp ordered
  have member := mem_slots other
  rw [searched] at member
  rcases List.mem_append.mp member with earlier | reached
  · exact absurd served (before other earlier)
  · rcases List.mem_cons.mp reached with rfl | behind
    · exact le_refl _
    · exact le_of_lt ((List.pairwise_cons.mp later).1 other behind)

theorem isLeast_freeSlot? (free : file.freeSlot? = some slot) : IsLeast {free | file.occupant? free = none} slot := by
  obtain ⟨_, passed, others, searched, taken⟩ := List.find?_eq_some_iff_append.mp free
  apply isLeast_of_first searched (freeSlot?_eq_some free)
  intro earlier member empty
  have occupied := taken earlier member
  simp [empty] at occupied

theorem yields_of_victim? {placement : Placement} (found : file.victim? evictable slot = some placement) :
    file.Yields evictable slot := by
  obtain ⟨old, occupied, temp, allowed, _⟩ := victim?_eq_some found
  exact ⟨old, occupied, temp, allowed⟩

theorem not_yields_of_victim? (missing : file.victim? evictable slot = none) : ¬ file.Yields evictable slot := by
  intro yields
  obtain ⟨old, occupied, temp, allowed⟩ := yields
  have refused := victim?_eq_none occupied missing
  rw [temp, allowed] at refused
  cases refused

theorem placement?_placed {placement : Placement} (chosen : file.placement? v evictable = some placement) :
    Placed file v evictable placement := by
  unfold placement? at chosen
  cases found : file.lookup? v with
  | some home =>
    simp only [found] at chosen
    cases chosen
    exact .held found
  | none =>
    cases free : file.freeSlot? with
    | some home =>
      simp only [found, free] at chosen
      cases chosen
      exact .free found (isLeast_freeSlot? free)
    | none =>
      simp only [found, free] at chosen
      obtain ⟨passed, home, others, searched, victim, missing⟩ := List.findSome?_eq_some_iff.mp chosen
      obtain ⟨old, occupied, _, _, rfl⟩ := victim?_eq_some victim
      refine .evicting found ?_ occupied ?_
      · intro held
        obtain ⟨other, here⟩ := freeSlot?_eq_none free held
        rw [here]
        exact Option.some_ne_none other
      · apply isLeast_of_first searched (yields_of_victim? victim)
        intro earlier member
        exact not_yields_of_victim? (missing earlier member)

theorem acquire_placed (acquired : (file.acquire v evictable).outcome = .ok (slot, after)) :
    ∃ placement, Placed file v evictable placement ∧ placement.slot = slot ∧ file.place v placement = after := by
  unfold acquire at acquired
  split at acquired
  case h_1 => cases acquired
  case h_2 placement chosen =>
    cases acquired
    exact ⟨placement, placement?_placed chosen, rfl, rfl⟩

-- What may happen when an acquisition succeeds: nothing, or one binding into a slot that is free or whose
-- occupant may go.
theorem acquire_cases (acquired : (file.acquire v evictable).outcome = .ok (slot, after)) :
    (file.lookup? v = some slot ∧ after = file) ∨
    (file.lookup? v = none ∧ after = file.bind slot v ∧
      ∀ old, file.occupant? slot = some old → old.isTemp = true ∧ evictable old = true) := by
  obtain ⟨placement, placed, rfl, rfl⟩ := acquire_placed acquired
  cases placed with
  | held found => exact .inl ⟨found, rfl⟩
  | free unbound lowest =>
    refine .inr ⟨unbound, rfl, ?_⟩
    intro old occupied
    cases occupied.symm.trans lowest.1
  | evicting unbound _ _ lowest =>
    refine .inr ⟨unbound, rfl, ?_⟩
    intro old occupied
    obtain ⟨other, here, may⟩ := lowest.1
    cases occupied.symm.trans here
    exact may

theorem acquire_held (found : file.lookup? v = some slot) :
    (file.acquire v evictable).outcome = .ok (slot, file) := by
  simp [acquire, placement?, found, Placement.slot, place]

theorem acquire_error_iff {error : LowerError} :
    (file.acquire v evictable).outcome = .error error ↔
      error = .registerExhausted v ∧ file.lookup? v = none ∧
        ∀ slot, ∃ old, file.occupant? slot = some old ∧ (old.isTemp && evictable old) = false := by
  constructor
  · intro failed
    unfold acquire placement? at failed
    cases found : file.lookup? v with
    | some home => simp [found] at failed
    | none =>
      cases free : file.freeSlot? with
      | some home => simp [found, free] at failed
      | none =>
        cases victim : slots.findSome? (file.victim? evictable) with
        | some placement => simp [found, free, victim] at failed
        | none =>
          simp only [found, free, victim, Logged.outcome_fail, Except.error.injEq] at failed
          refine ⟨failed.symm, rfl, ?_⟩
          intro slot
          obtain ⟨old, held⟩ := freeSlot?_eq_none free slot
          have missing := List.findSome?_eq_none_iff.mp victim slot (mem_slots slot)
          exact ⟨old, held, victim?_eq_none held missing⟩
  · rintro ⟨rfl, found, pinned⟩
    have free : file.freeSlot? = none := by
      refine List.find?_eq_none.mpr ?_
      intro slot _
      obtain ⟨old, held, _⟩ := pinned slot
      simp [held]
    have victim : slots.findSome? (file.victim? evictable) = none := by
      refine List.findSome?_eq_none_iff.mpr ?_
      intro slot _
      obtain ⟨old, held, kept⟩ := pinned slot
      simp [victim?, held, kept]
    simp [acquire, placement?, found, free, victim]

theorem acquire_bound (acquired : (file.acquire v evictable).outcome = .ok (slot, after)) :
    after.lookup? v = some slot := by
  rcases acquire_cases acquired with ⟨found, rfl⟩ | ⟨_, rfl, _⟩
  · exact found
  · simp [lookup?_bind]

theorem acquire_consistent (consistent : file.Consistent)
    (acquired : (file.acquire v evictable).outcome = .ok (slot, after)) : after.Consistent := by
  rcases acquire_cases acquired with ⟨_, rfl⟩ | ⟨unbound, rfl, _⟩
  · exact consistent
  · exact bind_consistent consistent unbound

-- A variable loses its register only as a temporary that may be evicted.
theorem acquire_kept (consistent : file.Consistent)
    (acquired : (file.acquire v evictable).outcome = .ok (slot, after)) {other : Variable} {home : Slot}
    (found : file.lookup? other = some home) (pinned : (other.isTemp && evictable other) = false) :
    after.lookup? other = some home := by
  rcases acquire_cases acquired with ⟨_, rfl⟩ | ⟨unbound, rfl, evicted⟩
  · exact found
  · have apart : other ≠ v := by
      rintro rfl
      rw [unbound] at found
      cases found
    have stays : file.occupant? slot ≠ some other := by
      intro held
      obtain ⟨temp, allowed⟩ := evicted other held
      simp [temp, allowed] at pinned
    rw [lookup?_bind_other apart stays, found]

theorem acquire_origin (acquired : (file.acquire v evictable).outcome = .ok (slot, after)) {other : Variable}
    {home : Slot} (found : after.lookup? other = some home) : other = v ∨ file.lookup? other = some home := by
  rcases acquire_cases acquired with ⟨_, rfl⟩ | ⟨_, rfl, _⟩
  · exact .inr found
  · rw [lookup?_bind] at found
    split at found
    · rename_i same
      exact .inl same
    · split at found
      · cases found
      · exact .inr found

end StraightLine.Assembly.RegisterFile
