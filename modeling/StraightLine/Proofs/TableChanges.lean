import Mathlib.Data.Finset.Card
import StraightLine.Proofs.Tables

namespace StraightLine.SymbolTable

-- The language has one type, so a declaration needs to name none.
inductive Change where
  | register (name : String)
  | declare (name : String)
  deriving DecidableEq

def Change.name : Change → String
  | .register name | .declare name => name

def apply (table : SymbolTable) : Change → SymbolTable
  | .register name => table.register name
  | .declare name => table.declare name .int

def applyAll (table : SymbolTable) : List Change → SymbolTable
  | [] => table
  | change :: rest => (table.apply change).applyAll rest

variable {changes others : List Change} {name : String}

theorem lookup?_apply (table : SymbolTable) (change : Change) (name : String) :
    (table.apply change).lookup? name =
      if change = .declare name then some (some .int)
      else (table.lookup? name).or (if change.name = name then some none else none) := by
  cases change with
  | register seen => exact lookup?_register table seen name
  | declare declared =>
    rw [apply, lookup?_declare]
    by_cases same : declared = name
    · simp [same]
    · simp [Change.name, same, Ne.symm same]

theorem lookup?_applyAll (table : SymbolTable) (changes : List Change) (name : String) :
    (table.applyAll changes).lookup? name =
      if .declare name ∈ changes then some (some .int)
      else (table.lookup? name).or (if name ∈ changes.map Change.name then some none else none) := by
  induction changes generalizing table with
  | nil => simp [applyAll]
  | cons change rest ih =>
    rw [applyAll, ih, lookup?_apply]
    -- A declaration in the rest overwrites what this change leaves; without one, what this change leaves stays.
    by_cases later : .declare name ∈ rest
    · simp [later]
    · by_cases here : change = .declare name
      · simp [here, later]
      · by_cases named : change.name = name
        · simp [later, here, Ne.symm here, named]
        · simp [later, here, Ne.symm here, named, Ne.symm named]

-- Only which changes were made counts, from whatever table they set out.
theorem applyAll_congr (table : SymbolTable) (same : ∀ change, change ∈ others ↔ change ∈ changes) :
    table.applyAll others = table.applyAll changes := by
  apply eq_of_lookup?
  intro name
  simp only [lookup?_applyAll, List.mem_map, same]

theorem lookup?_applyAll_empty (changes : List Change) (name : String) :
    (empty.applyAll changes).lookup? name =
      if .declare name ∈ changes then some (some .int)
      else if name ∈ changes.map Change.name then some none else none := by
  rw [lookup?_applyAll, lookup?_empty, Option.none_or]

theorem has_applyAll : (empty.applyAll changes).has name = true ↔ name ∈ changes.map Change.name :=
  has_of_lookup? (lookup?_applyAll_empty changes name) fun declared => List.mem_map_of_mem declared

theorem typeOf?_applyAll (changes : List Change) (name : String) :
    (empty.applyAll changes).typeOf? name = if .declare name ∈ changes then some .int else none :=
  typeOf?_of_lookup? (lookup?_applyAll_empty changes name)

theorem size_applyAll (changes : List Change) :
    (empty.applyAll changes).size = (changes.map Change.name).toFinset.card := by
  let table := empty.applyAll changes
  have listed : table.names.toFinset = (changes.map Change.name).toFinset := by
    apply List.toFinset.ext
    intro name
    rw [mem_names_iff, has_applyAll]
  calc table.size
      = table.names.length := (List.length_map _).symm
    _ = table.names.toFinset.card := (List.toFinset_card_of_nodup table.names_nodup).symm
    _ = (changes.map Change.name).toFinset.card := by rw [listed]

theorem applyAll_unordered (changes : List Change) :
    let table := empty.applyAll changes
    (∀ name, table.has name = true ↔ ∃ change ∈ changes, change.name = name) ∧
    (∀ name, table.typeOf? name = some .int ↔ .declare name ∈ changes) ∧
    (∃ names : List String, names.Pairwise Precedes ∧ (∀ name, name ∈ names ↔ ∃ change ∈ changes, change.name = name) ∧
      table.entries = names.map fun name => (name, if .declare name ∈ changes then some .int else none)) ∧
    table.size = (changes.map Change.name).toFinset.card ∧
    ∀ others, others.Perm changes ∨ changes.Sublist others ∧ others ⊆ changes →
      empty.applyAll others = table ∧ (empty.applyAll others).entries = table.entries ∧
        (empty.applyAll others).render = table.render := by
  intro table
  refine ⟨?_, ?_, ⟨table.names, table.names_ordered, ?_, ?_⟩, size_applyAll changes, ?_⟩
  · intro name
    rw [has_applyAll, List.mem_map]
  · intro name
    rw [typeOf?_applyAll]
    by_cases declared : .declare name ∈ changes <;> simp [declared]
  · intro name
    rw [mem_names_iff, has_applyAll, List.mem_map]
  · rw [entries_eq_map_names]
    simp only [table, typeOf?_applyAll]
  · intro others rearranged
    have same (change : Change) : change ∈ others ↔ change ∈ changes := by
      rcases rearranged with permuted | ⟨kept, repeated⟩
      · exact permuted.mem_iff
      · exact ⟨fun member => repeated member, fun member => kept.subset member⟩
    have unchanged := applyAll_congr empty same
    exact ⟨unchanged, congrArg entries unchanged, congrArg render unchanged⟩

-- The order of the bytes is that of the code points: `ﬁ` stands in front of `𝑥`, which begins with a lower code unit in UTF-16.
def scrambled : List Change :=
  [.register "z", .declare "𝑥", .register "ﬁ", .register "𝑥", .declare "Z", .register "", .declare "z"]

theorem applyAll_unordered_scrambled :
    (empty.applyAll scrambled).entries =
      [("", none), ("Z", some .int), ("z", some .int), ("ﬁ", none), ("𝑥", some .int)] ∧
    (empty.applyAll scrambled).typeOf? "𝑥" = some .int ∧
    empty.applyAll scrambled.reverse = empty.applyAll scrambled ∧
    (empty.applyAll (scrambled ++ scrambled)).render = (empty.applyAll scrambled).render := by
  obtain ⟨_, typed, _, _, unordered⟩ := applyAll_unordered scrambled
  have backwards := unordered scrambled.reverse (.inl (List.reverse_perm scrambled))
  have twice := unordered (scrambled ++ scrambled)
    (.inr ⟨List.sublist_append_left _ _, List.append_subset.mpr ⟨List.Subset.refl _, List.Subset.refl _⟩⟩)
  exact ⟨by decide +kernel, (typed "𝑥").mpr (by decide), backwards.1, twice.2.2⟩

end StraightLine.SymbolTable
