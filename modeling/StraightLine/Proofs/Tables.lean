import StraightLine.SymbolTable

namespace StraightLine

-- The keys are distinct, so the search passes the entries in front of the one it wants.
theorem find?_key_eq_some_iff {κ ν : Type} [DecidableEq κ] {entries : List (κ × ν)}
    (distinct : (entries.map Prod.fst).Nodup) {key : κ} {value : ν} :
    (entries.find? fun entry => entry.1 = key).map Prod.snd = some value ↔ (key, value) ∈ entries := by
  constructor
  · intro found
    obtain ⟨entry, first, same⟩ := Option.map_eq_some_iff.mp found
    have named : entry.1 = key := by simpa using List.find?_some first
    have member := List.mem_of_find?_eq_some first
    rwa [← named, ← same]
  · intro member
    obtain ⟨front, back, split⟩ := List.append_of_mem member
    rw [split, List.map_append, List.map_cons] at distinct
    have passed : (front.find? fun entry => entry.1 = key) = none := by
      apply List.find?_eq_none.mpr
      intro entry earlier same
      have listed : key ∈ front.map Prod.fst := List.mem_map.mpr ⟨entry, earlier, of_decide_eq_true same⟩
      exact (List.nodup_append.mp distinct).2.2 key listed key List.mem_cons_self rfl
    simp [split, List.find?_append, passed]

namespace SymbolTable

variable {table : SymbolTable} {name : String} {type : Option SourceType}

def names (table : SymbolTable) : List String := table.entries.map Prod.fst

theorem names_ordered (table : SymbolTable) : table.names.Pairwise Precedes := List.pairwise_map.mpr table.ordered

theorem names_nodup (table : SymbolTable) : table.names.Nodup := by
  apply table.names_ordered.imp
  intro first second before same
  rw [same] at before
  exact precedes_irrefl second before

theorem lookup?_eq_some_iff : table.lookup? name = some type ↔ (name, type) ∈ table.entries :=
  find?_key_eq_some_iff table.names_nodup

theorem mem_names_iff : name ∈ table.names ↔ table.has name = true := by
  rw [has, Option.isSome_iff_exists, names, List.mem_map]
  constructor
  · intro listed
    obtain ⟨entry, member, rfl⟩ := listed
    exact ⟨entry.2, lookup?_eq_some_iff.mpr member⟩
  · intro found
    obtain ⟨type, held⟩ := found
    exact ⟨(name, type), lookup?_eq_some_iff.mp held, rfl⟩

theorem entries_eq_map_names (table : SymbolTable) :
    table.entries = table.names.map fun name => (name, table.typeOf? name) := by
  rw [names, List.map_map]
  apply (List.map_id _).symm.trans
  apply List.map_congr_left
  intro entry member
  have held : table.typeOf? entry.1 = entry.2 := congrArg Option.join (lookup?_eq_some_iff.mpr member)
  rw [Function.comp_apply, held, id]

theorem render_eq_map_names (table : SymbolTable) :
    table.render = table.names.map fun name => renderEntry (name, table.typeOf? name) := by
  rw [render, entries_eq_map_names, List.map_map]
  rfl

-- The order leaves one way to list the same names.
theorem eq_of_lookup? {left right : SymbolTable} (same : ∀ name, left.lookup? name = right.lookup? name) :
    left = right := by
  have members (name : String) : name ∈ left.names ↔ name ∈ right.names := by
    rw [mem_names_iff, mem_names_iff, has, has, same]
  have listed : left.names = right.names := by
    apply List.Perm.eq_of_pairwise _ left.names_ordered right.names_ordered
    · exact (List.perm_ext_iff_of_nodup left.names_nodup right.names_nodup).mpr members
    · intro first second _ _ before after
      exact absurd (precedes_trans before after) (precedes_irrefl first)
  apply ext
  rw [left.entries_eq_map_names, right.entries_eq_map_names, listed]
  simp only [typeOf?, same]

section Told

-- A table told at a name: declared there, only listed, or neither.
variable {declared listed : Prop} [Decidable declared] [Decidable listed]
  (told : table.lookup? name = if declared then some (some .int) else if listed then some none else none)
include told

theorem has_of_lookup? (within : declared → listed) : table.has name = true ↔ listed := by
  rw [has, told]
  by_cases holds : declared
  · simp only [holds, if_true, Option.isSome_some, within holds]
  · by_cases present : listed <;> simp [holds, present]

theorem typeOf?_of_lookup? : table.typeOf? name = if declared then some .int else none := by
  rw [typeOf?, told]
  by_cases holds : declared
  · simp only [holds, if_true, Option.join_some]
  · by_cases present : listed <;> simp [holds, present]

end Told
end SymbolTable
end StraightLine
