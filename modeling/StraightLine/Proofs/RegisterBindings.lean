import Mathlib.Data.List.FinRange
import Mathlib.Data.List.Nodup
import StraightLine.Proofs.Selection
import StraightLine.Proofs.Tables

namespace StraightLine.Assembly

open Code (Variable)

theorem Homes.find?_eq_some_iff {homes : Homes} {v : Variable} {slot : Slot} :
    homes.find? v = some slot ↔ (v, slot) ∈ homes.entries :=
  find?_key_eq_some_iff homes.distinct

namespace RegisterFile

variable {file after : RegisterFile} {v : Variable} {slot : Slot} {request : Request}

theorem mem_bindings : (slot, v) ∈ file.bindings ↔ file.occupant? slot = some v := by
  simp [bindings, mem_slots]

theorem nodup_bindings (file : RegisterFile) : file.bindings.Nodup := by
  apply List.Nodup.filterMap _ (List.nodup_finRange 7)
  intro first second binding here there
  obtain ⟨_, _, rfl⟩ := Option.map_eq_some_iff.mp here
  obtain ⟨_, _, same⟩ := Option.map_eq_some_iff.mp there
  exact (Prod.mk.inj same).1.symm

-- Both directions of the binding list the same pairs, each pair once.
theorem Consistent.perm (consistent : file.Consistent) : (file.bindings.map Prod.swap).Perm file.homes.entries := by
  have listed := file.nodup_bindings.map Prod.swap_injective
  apply (List.perm_ext_iff_of_nodup listed (List.Nodup.of_map _ file.homes.distinct)).mpr
  intro entry
  obtain ⟨v, slot⟩ := entry
  calc (v, slot) ∈ file.bindings.map Prod.swap
      ↔ (slot, v) ∈ file.bindings := List.mem_map_of_injective (a := (slot, v)) Prod.swap_injective
    _ ↔ file.occupant? slot = some v := mem_bindings
    _ ↔ file.lookup? v = some slot := (consistent v slot).symm
    _ ↔ (v, slot) ∈ file.homes.entries := Homes.find?_eq_some_iff

theorem Consistent.size_eq (consistent : file.Consistent) : file.bindings.length = file.homes.size := by
  rw [Homes.size, ← consistent.perm.length_eq, List.length_map]

theorem Consistent.isConsistent (consistent : file.Consistent) : file.isConsistent = true := by
  apply Bool.and_eq_true_iff.mpr
  refine ⟨List.all_eq_true.mpr ?_, decide_eq_true consistent.size_eq⟩
  intro binding member
  exact decide_eq_true ((consistent binding.2 binding.1).mpr (mem_bindings.mp member))

-- The pairs of the registers are among those of the homes. With as many homes as occupied registers they are all of them, so
-- no home is left that no register confirms.
theorem perm_of_confirmed (confirmed : ∀ v slot, file.occupant? slot = some v → file.lookup? v = some slot)
    (sizes : file.bindings.length = file.homes.size) : (file.bindings.map Prod.swap).Perm file.homes.entries := by
  have included : file.bindings.map Prod.swap ⊆ file.homes.entries := by
    intro entry member
    obtain ⟨binding, listed, rfl⟩ := List.mem_map.mp member
    exact Homes.find?_eq_some_iff.mp (confirmed _ _ (mem_bindings.mp listed))
  apply (List.subperm_of_subset (file.nodup_bindings.map Prod.swap_injective) included).perm_of_length_le
  rw [List.length_map, sizes, Homes.size]

theorem isConsistent_iff : file.isConsistent = true ↔ file.Consistent := by
  refine ⟨?_, Consistent.isConsistent⟩
  intro checked
  obtain ⟨matching, sizes⟩ := Bool.and_eq_true_iff.mp checked
  have confirmed (v : Variable) (slot : Slot) (held : file.occupant? slot = some v) : file.lookup? v = some slot :=
    of_decide_eq_true (List.all_eq_true.mp matching (slot, v) (mem_bindings.mpr held))
  have same := perm_of_confirmed confirmed (of_decide_eq_true sizes)
  intro v slot
  refine ⟨?_, confirmed v slot⟩
  intro found
  obtain ⟨binding, listed, turned⟩ := List.mem_map.mp (same.mem_iff.mpr (Homes.find?_eq_some_iff.mp found))
  cases turned
  exact mem_bindings.mp listed

theorem isConsistent_exact (occupants : Vector (Option Variable) 7) (homes : Homes) :
    let file : RegisterFile := ⟨occupants, homes⟩
    (file.isConsistent = true ↔ ∀ v slot, homes.find? v = some slot ↔ occupants.get slot = some v) ∧
    (∀ v first second, first ≠ second → occupants.get first = some v → occupants.get second = some v →
      file.isConsistent = false) ∧
    ∀ v slot, homes.find? v = some slot → occupants.get slot ≠ some v → file.isConsistent = false := by
  intro file
  refine ⟨isConsistent_iff, ?_, ?_⟩
  · intro v first second apart here there
    apply Bool.eq_false_iff.mpr
    intro checked
    have consistent := isConsistent_iff.mp checked
    have home := (consistent v first).mpr here
    rw [(consistent v second).mpr there] at home
    exact apart (Option.some.inj home).symm
  · intro v slot found unconfirmed
    apply Bool.eq_false_iff.mpr
    intro checked
    exact unconfirmed ((isConsistent_iff.mp checked v slot).mp found)

def doubled : Vector (Option Variable) 7 :=
  #v[some (.named "a"), none, some (.named "a"), none, none, none, none]

def scattered : Vector (Option Variable) 7 :=
  #v[none, none, some (.named "a"), none, some (.temp 0), none, some (.temp 9)]

-- As many homes as occupied registers, but `a` sits in two of them; then every occupant at home, but `b` claims the register
-- of `a` too.
theorem isConsistent_exact_scattered :
    let pair := (Homes.empty.insert (.named "a") 0).insert (.named "b") 2
    let homes := ((Homes.empty.insert (.temp 9) 6).insert (.named "a") 2).insert (.temp 0) 4
    isConsistent ⟨doubled, pair⟩ = false ∧ isConsistent ⟨scattered, homes.insert (.named "b") 2⟩ = false ∧
    isConsistent ⟨scattered, homes⟩ = true ∧ ∀ v slot, homes.find? v = some slot ↔ scattered.get slot = some v := by
  intro pair homes
  obtain ⟨_, twice, _⟩ := isConsistent_exact doubled pair
  obtain ⟨_, _, unconfirmed⟩ := isConsistent_exact scattered (homes.insert (.named "b") 2)
  obtain ⟨exactly, _⟩ := isConsistent_exact scattered homes
  have checked : isConsistent ⟨scattered, homes⟩ = true := by decide
  exact ⟨twice (.named "a") 0 2 (by decide) rfl rfl, unconfirmed (.named "b") 2 rfl (by decide), checked, exactly.mp checked⟩

theorem Consistent.length_bound_le (consistent : file.Consistent) {bound : List Variable} (distinct : bound.Nodup)
    (found : ∀ v ∈ bound, ∃ slot, file.lookup? v = some slot) : bound.length ≤ 7 := by
  have homed : bound ⊆ file.homes.entries.map Prod.fst := by
    intro v member
    obtain ⟨slot, home⟩ := found v member
    exact List.mem_map.mpr ⟨_, Homes.find?_eq_some_iff.mp home, rfl⟩
  calc bound.length
      ≤ (file.homes.entries.map Prod.fst).length := (List.subperm_of_subset distinct homed).length_le
    _ = file.bindings.length := by rw [List.length_map, consistent.size_eq, Homes.size]
    _ ≤ slots.length := List.length_filterMap_le _ _
    _ = 7 := List.length_finRange

-- A request that fails leaves the file as it is.
def serve (file : RegisterFile) (request : Request) : RegisterFile :=
  match (file.acquire request.v request.evictable).outcome with
  | .ok (_, after) => after
  | .error _ => file

def serveAll (file : RegisterFile) : List Request → RegisterFile
  | [] => file
  | request :: rest => (file.serve request).serveAll rest

theorem serve_eq_of_ok (acquired : (file.acquire request.v request.evictable).outcome = .ok (slot, after)) :
    file.serve request = after := by
  simp only [serve, acquired]

theorem serve_cases (file : RegisterFile) (request : Request) : file.serve request = file ∨
    ∃ slot, (file.acquire request.v request.evictable).outcome = .ok (slot, file.serve request) := by
  cases done : (file.acquire request.v request.evictable).outcome with
  | error failure => exact .inl (by simp only [serve, done])
  | ok pair =>
    refine .inr ⟨pair.1, ?_⟩
    rw [serve_eq_of_ok done]

theorem Consistent.serve (consistent : file.Consistent) (request : Request) : (file.serve request).Consistent := by
  rcases file.serve_cases request with same | ⟨slot, acquired⟩
  · rwa [same]
  · exact acquire_consistent consistent acquired

theorem Consistent.serve_named (consistent : file.Consistent) (request : Request) {name : String}
    (found : file.lookup? (.named name) = some slot) : (file.serve request).lookup? (.named name) = some slot := by
  rcases file.serve_cases request with same | ⟨_, acquired⟩
  · rwa [same]
  · exact acquire_kept consistent acquired found rfl

theorem Consistent.serveAll (consistent : file.Consistent) (requests : List Request) :
    (file.serveAll requests).Consistent := by
  induction requests generalizing file with
  | nil => exact consistent
  | cons request rest ih => exact ih (consistent.serve request)

theorem Consistent.serveAll_named (consistent : file.Consistent) (requests : List Request) {name : String}
    (found : file.lookup? (.named name) = some slot) : (file.serveAll requests).lookup? (.named name) = some slot := by
  induction requests generalizing file with
  | nil => exact found
  | cons request rest ih => exact ih (consistent.serve request) (consistent.serve_named request found)

theorem serveAll_bijective (requests : List Request) :
    let file := empty.serveAll requests
    file.isConsistent = true ∧
    (∀ v other slot, file.lookup? v = some slot → file.lookup? other = some slot → v = other) ∧
    (∀ bound : List Variable, bound.Nodup → (∀ v ∈ bound, ∃ slot, file.lookup? v = some slot) → bound.length ≤ 7) ∧
    (∀ request slot after, (file.acquire request.v request.evictable).outcome = .ok (slot, after) →
      slot ∈ slots ∧ after = file.serve request ∧ after.lookup? request.v = some slot) ∧
    ∀ name slot, file.lookup? (.named name) = some slot →
      ∀ later, (file.serveAll later).lookup? (.named name) = some slot := by
  intro file
  have consistent : file.Consistent := empty_consistent.serveAll requests
  refine ⟨consistent.isConsistent, ?_, ?_, ?_, ?_⟩
  · intro v other slot first second
    exact consistent.unique first second
  · intro bound distinct found
    exact consistent.length_bound_le distinct found
  · intro request slot after acquired
    exact ⟨mem_slots slot, (serve_eq_of_ok acquired).symm, acquire_bound acquired⟩
  · intro name slot found later
    exact consistent.serveAll_named later found

-- Two names and five temporaries fill the file. Then `c` evicts `$1`, the first temporary it may, `d` fails as it may
-- evict nothing, and `$1` comes back in the place of `$4`.
def busy : List Request :=
  let nothing : Variable → Bool := fun _ => false
  let odd : Variable → Bool := fun held => held = .temp 1 ∨ held = .temp 3
  [⟨.named "a", nothing⟩, ⟨.temp 0, nothing⟩, ⟨.temp 1, nothing⟩, ⟨.named "b", nothing⟩, ⟨.temp 2, nothing⟩, ⟨.temp 3, nothing⟩,
   ⟨.temp 4, nothing⟩, ⟨.named "c", odd⟩, ⟨.named "d", nothing⟩, ⟨.temp 1, fun held => held = .named "a" ∨ held = .temp 4⟩]

theorem serveAll_bijective_busy :
    (empty.serveAll busy).bindings.map Prod.snd =
      [.named "a", .temp 0, .named "c", .named "b", .temp 2, .temp 3, .temp 1] ∧
    (empty.serveAll busy).isConsistent = true ∧
    ((empty.serveAll busy).acquire (.named "d") fun held => held = .named "a").outcome =
      .error (.registerExhausted (.named "d")) ∧
    ∀ later, ((empty.serveAll busy).serveAll later).lookup? (.named "c") = some 2 := by
  obtain ⟨consistent, _, _, _, kept⟩ := serveAll_bijective busy
  exact ⟨by decide, consistent, rfl, kept "c" 2 (by decide)⟩

end RegisterFile
end StraightLine.Assembly
