import StraightLine.Proofs.RegisterBindings

namespace StraightLine.Assembly.RegisterFile

open Code (Variable)

variable {file next : RegisterFile} {v : Variable} {slot : Slot} {evictable : Variable → Bool}

theorem acquire_fails_iff : (∃ error, (file.acquire v evictable).outcome = .error error) ↔
    file.lookup? v = none ∧ (∀ slot, file.occupant? slot ≠ none) ∧ ∀ slot, ¬ file.Yields evictable slot := by
  simp only [acquire_error_iff]
  constructor
  · intro failed
    obtain ⟨_, _, unbound, pinned⟩ := failed
    refine ⟨unbound, ?_, ?_⟩
    · intro slot empty
      obtain ⟨old, occupied, _⟩ := pinned slot
      rw [empty] at occupied
      cases occupied
    · intro slot yields
      obtain ⟨old, occupied, refused⟩ := pinned slot
      obtain ⟨other, here, temp, allowed⟩ := yields
      cases occupied.symm.trans here
      rw [temp, allowed] at refused
      cases refused
  · intro blocked
    obtain ⟨unbound, full, pinned⟩ := blocked
    refine ⟨_, rfl, unbound, ?_⟩
    intro slot
    obtain ⟨old, occupied⟩ := Option.ne_none_iff_exists'.mp (full slot)
    refine ⟨old, occupied, Bool.eq_false_iff.mpr ?_⟩
    intro serves
    obtain ⟨temp, allowed⟩ := Bool.and_eq_true_iff.mp serves
    exact pinned slot ⟨old, occupied, temp, allowed⟩

theorem Consistent.bind_changes (consistent : file.Consistent) (unbound : file.lookup? v = none) (slot other : Slot) :
    (file.bind slot v).occupant? other ≠ file.occupant? other ↔ other = slot := by
  rw [occupant?_bind]
  split
  case isTrue here => exact iff_of_true (Ne.symm (consistent.absent unbound other)) here
  case isFalse apart => exact iff_of_false (not_not_intro rfl) apart

theorem Consistent.bind_displaces (consistent : file.Consistent) (unbound : file.lookup? v = none) {old : Variable}
    (occupied : file.occupant? slot = some old) : (file.bind slot v).lookup? old = none := by
  have apart : old ≠ v := by
    rintro rfl
    exact consistent.absent unbound slot occupied
  rw [lookup?_bind, if_neg apart, if_pos occupied]

theorem acquire_lowest (unbound : file.lookup? v = none) (acquired : (file.acquire v evictable).outcome = .ok (slot, next)) :
    next = file.bind slot v ∧
      ((∃ free, file.occupant? free = none) → IsLeast {free | file.occupant? free = none} slot) ∧
      ((∀ held, file.occupant? held ≠ none) → IsLeast {held | file.Yields evictable held} slot) := by
  obtain ⟨placement, placed, rfl, rfl⟩ := acquire_placed acquired
  cases placed with
  | held found =>
    rw [found] at unbound
    cases unbound
  | free _ lowest => exact ⟨rfl, fun _ => lowest, fun full => absurd lowest.1 (full _)⟩
  | evicting _ full _ lowest =>
    refine ⟨rfl, ?_, fun _ => lowest⟩
    intro free
    obtain ⟨slot, empty⟩ := free
    exact absurd empty (full slot)

-- Any consistent file will do, not only those that a run of acquisitions reaches.
theorem acquire_policy {file : RegisterFile} (consistent : file.isConsistent = true) (v : Variable)
    (evictable : Variable → Bool) :
    ((∃ error, (file.acquire v evictable).outcome = .error error) ↔
      file.lookup? v = none ∧ (∀ slot, file.occupant? slot ≠ none) ∧ ∀ slot, ¬ file.Yields evictable slot) ∧
    (∀ error, (file.acquire v evictable).outcome = .error error →
      error = .registerExhausted v ∧ file.serve ⟨v, evictable⟩ = file) ∧
    ∀ slot next, (file.acquire v evictable).outcome = .ok (slot, next) →
      file.serve ⟨v, evictable⟩ = next ∧
      (∀ home, file.lookup? v = some home → slot = home ∧ next = file) ∧
      (file.lookup? v = none →
        ((∃ free, file.occupant? free = none) → IsLeast {free | file.occupant? free = none} slot) ∧
        ((∀ held, file.occupant? held ≠ none) → IsLeast {held | file.Yields evictable held} slot) ∧
        (∀ other, next.occupant? other ≠ file.occupant? other ↔ other = slot) ∧
        next.occupant? slot = some v ∧ next.lookup? v = some slot ∧
        (∀ old, file.occupant? slot = some old → next.lookup? old = none) ∧
        ∀ other, other ≠ v → file.occupant? slot ≠ some other → next.lookup? other = file.lookup? other) := by
  have agrees := isConsistent_iff.mp consistent
  refine ⟨acquire_fails_iff, ?_, ?_⟩
  · intro error failed
    refine ⟨(acquire_error_iff.mp failed).1, ?_⟩
    simp only [serve, failed]
  · intro slot next acquired
    refine ⟨serve_eq_of_ok acquired, ?_, ?_⟩
    · intro home found
      rw [acquire_held found] at acquired
      cases acquired
      exact ⟨rfl, rfl⟩
    · intro unbound
      obtain ⟨rfl, free, evicting⟩ := acquire_lowest unbound acquired
      refine ⟨free, evicting, agrees.bind_changes unbound slot, ?_, acquire_bound acquired, ?_, ?_⟩
      · rw [occupant?_bind, if_pos rfl]
      · intro old occupied
        exact agrees.bind_displaces unbound occupied
      · intro other apart elsewhere
        exact lookup?_bind_other apart elsewhere

-- No run of acquisitions leaves such gaps, but both directions of the binding agree.
def gapped : RegisterFile :=
  ⟨#v[some (.named "a"), none, some (.temp 0), none, some (.temp 1), none, none],
    ⟨[(.temp 1, 4), (.named "a", 0), (.temp 0, 2)], by decide⟩⟩

def crowd : RegisterFile :=
  ⟨#v[some (.named "a"), some (.temp 0), some (.named "b"), some (.temp 1), some (.temp 2), some (.named "c"), some (.temp 3)],
    ⟨[(.temp 3, 6), (.named "c", 5), (.temp 0, 1), (.temp 1, 3), (.named "b", 2), (.temp 2, 4), (.named "a", 0)], by decide⟩⟩

-- A free slot is taken though temporaries could go; then `d` may have `$1` or `$3` go and takes the place of `$1`; and at
-- last only `b` could go, but it is no temporary.
theorem acquire_policy_crowd :
    gapped.isConsistent = true ∧ crowd.isConsistent = true ∧
    (∃ next, (gapped.acquire (.named "d") fun _ => true).outcome = .ok (1, next) ∧
      IsLeast {free | gapped.occupant? free = none} 1 ∧ next.lookup? (.temp 0) = some 2) ∧
    (∃ next, (crowd.acquire (.named "d") fun held => held = .temp 1 ∨ held = .temp 3).outcome = .ok (3, next) ∧
      next.lookup? (.temp 1) = none ∧ next.lookup? (.temp 3) = some 6) ∧
    ∃ error, (crowd.acquire (.named "d") fun held => held = .named "b").outcome = .error error ∧
      error = .registerExhausted (.named "d") ∧ crowd.serve ⟨.named "d", fun held => held = .named "b"⟩ = crowd := by
  have gaps : gapped.isConsistent = true := by decide
  have packed : crowd.isConsistent = true := by decide
  obtain ⟨_, _, placed⟩ := acquire_policy gaps (.named "d") fun _ => true
  obtain ⟨_, _, evicted⟩ := acquire_policy packed (.named "d") fun held => held = .temp 1 ∨ held = .temp 3
  obtain ⟨_, failed, _⟩ := acquire_policy packed (.named "d") fun held => held = .named "b"
  obtain ⟨_, _, taken⟩ := placed 1 _ rfl
  obtain ⟨_, _, moved⟩ := evicted 3 _ rfl
  obtain ⟨lowest, _, _, _, _, _, kept⟩ := taken rfl
  obtain ⟨_, _, _, _, _, gone, others⟩ := moved rfl
  refine ⟨gaps, packed, ⟨_, rfl, lowest ⟨1, rfl⟩, ?_⟩, ⟨_, rfl, gone (.temp 1) rfl, ?_⟩, _, rfl, failed _ rfl⟩
  · exact kept (.temp 0) (by decide) (by decide)
  · exact others (.temp 3) (by decide) (by decide)

end StraightLine.Assembly.RegisterFile
