namespace StraightLine

inductive SourceType where
  | int
  deriving DecidableEq

def SourceType.render : SourceType → String
  | .int => "Int"

namespace SymbolTable

def bytes (name : String) : List UInt8 := name.toByteArray.data.toList

-- The order of the UTF-8 bytes.
def Precedes (a b : String) : Prop := bytes a < bytes b

instance (a b : String) : Decidable (Precedes a b) := inferInstanceAs (Decidable (bytes a < bytes b))

theorem bytes_injective {a b : String} (h : bytes a = bytes b) : a = b :=
  String.toByteArray_inj.mp (ByteArray.ext (Array.toList_inj.mp h))

theorem precedes_trans {a b c : String} (first : Precedes a b) (second : Precedes b c) : Precedes a c :=
  List.lt_trans first second

theorem precedes_irrefl (a : String) : ¬ Precedes a a := List.lt_irrefl (bytes a)

theorem precedes_total {a b : String} (distinct : a ≠ b) (later : ¬ Precedes a b) : Precedes b a := by
  rcases List.le_iff_lt_or_eq.mp (List.not_lt.mp later) with before | same
  · exact before
  · exact absurd (bytes_injective same).symm distinct

abbrev Entry := String × Option SourceType

-- Overwrites the entry of a known name in place; a new name goes where the order wants it.
def put (name : String) (type : Option SourceType) : List Entry → List Entry
  | [] => [(name, type)]
  | entry :: rest =>
    if name = entry.1 then (name, type) :: rest
    else if Precedes name entry.1 then (name, type) :: entry :: rest
    else entry :: put name type rest

def Ordered (entries : List Entry) : Prop := entries.Pairwise fun a b => Precedes a.1 b.1

theorem mem_put {name : String} {type : Option SourceType} {entries : List Entry} {entry : Entry}
    (member : entry ∈ put name type entries) : entry = (name, type) ∨ entry ∈ entries := by
  induction entries with
  | nil => exact .inl (List.mem_singleton.mp member)
  | cons head rest ih =>
    unfold put at member
    split at member
    · rcases List.mem_cons.mp member with new | old
      · exact .inl new
      · exact .inr (List.mem_cons_of_mem _ old)
    · split at member
      · exact List.mem_cons.mp member
      · rcases List.mem_cons.mp member with same | later
        · exact .inr (same ▸ List.mem_cons_self)
        · exact (ih later).imp id (List.mem_cons_of_mem _)

theorem put_ordered (name : String) (type : Option SourceType) {entries : List Entry}
    (ordered : Ordered entries) : Ordered (put name type entries) := by
  induction entries with
  | nil => exact List.pairwise_singleton _ _
  | cons head rest ih =>
    obtain ⟨above, tail⟩ := List.pairwise_cons.mp ordered
    unfold put
    split
    · rename_i same
      exact List.pairwise_cons.mpr ⟨fun entry member => same ▸ above entry member, tail⟩
    · rename_i distinct
      split
      · rename_i before
        refine List.pairwise_cons.mpr ⟨fun entry member => ?_, ordered⟩
        rcases List.mem_cons.mp member with rfl | later
        · exact before
        · exact precedes_trans before (above entry later)
      · rename_i notBefore
        refine List.pairwise_cons.mpr ⟨fun entry member => ?_, ih tail⟩
        rcases mem_put member with rfl | later
        · exact precedes_total distinct notBefore
        · exact above entry later

end SymbolTable

structure SymbolTable where
  entries : List SymbolTable.Entry
  ordered : SymbolTable.Ordered entries

namespace SymbolTable

def empty : SymbolTable := ⟨[], List.Pairwise.nil⟩

def lookup? (table : SymbolTable) (name : String) : Option (Option SourceType) :=
  (table.entries.find? fun entry => entry.1 = name).map Prod.snd

def has (table : SymbolTable) (name : String) : Bool := (table.lookup? name).isSome

def typeOf? (table : SymbolTable) (name : String) : Option SourceType := (table.lookup? name).join

def size (table : SymbolTable) : Nat := table.entries.length

def insert (table : SymbolTable) (name : String) (type : Option SourceType) : SymbolTable :=
  ⟨put name type table.entries, put_ordered name type table.ordered⟩

def register (table : SymbolTable) (name : String) : SymbolTable :=
  if table.has name then table else table.insert name none

def declare (table : SymbolTable) (name : String) (type : SourceType) : SymbolTable :=
  table.insert name (some type)

def renderEntry (entry : Entry) : String :=
  match entry.2 with
  | some type => "(" ++ entry.1 ++ ", " ++ type.render ++ ")"
  | none => "(" ++ entry.1 ++ ", null)"

def render (table : SymbolTable) : List String := table.entries.map renderEntry

theorem ext {left right : SymbolTable} (same : left.entries = right.entries) : left = right := by
  cases left; cases right; cases same; rfl

theorem lookup?_empty (name : String) : empty.lookup? name = none := rfl

theorem find?_put (name other : String) (type : Option SourceType) (entries : List Entry) :
    ((put name type entries).find? fun entry => entry.1 = other).map Prod.snd =
      if other = name then some type
      else (entries.find? fun entry => entry.1 = other).map Prod.snd := by
  induction entries with
  | nil => by_cases h : other = name <;> simp [put, h, eq_comm]
  | cons head rest ih =>
    unfold put
    split
    · rename_i same
      by_cases h : other = name
      · simp [h]
      · have apart : head.1 ≠ other := fun e => h (e.symm.trans same.symm)
        simp [h, Ne.symm h, apart]
    · rename_i distinct
      split
      · by_cases h : other = name
        · simp [h]
        · simp [h, Ne.symm h]
      · by_cases here : head.1 = other
        · have apart : other ≠ name := fun e => distinct (e.symm.trans here.symm)
          simp [here, apart]
        · simpa [here] using ih

theorem lookup?_insert (table : SymbolTable) (name other : String) (type : Option SourceType) :
    (table.insert name type).lookup? other = if other = name then some type else table.lookup? other :=
  find?_put name other type table.entries

theorem lookup?_declare (table : SymbolTable) (name other : String) (type : SourceType) :
    (table.declare name type).lookup? other =
      if other = name then some (some type) else table.lookup? other :=
  lookup?_insert table name other (some type)

-- A known name keeps its type; a new one goes in without a type.
theorem lookup?_register (table : SymbolTable) (name other : String) :
    (table.register name).lookup? other = (table.lookup? other).or (if name = other then some none else none) := by
  unfold register has
  by_cases h : name = other
  · subst h
    cases known : table.lookup? name with
    | none => simp [lookup?_insert]
    | some type => simp [known]
  · cases known : table.lookup? name with
    | none => simp [lookup?_insert, h, Ne.symm h]
    | some type => simp [h]

end SymbolTable
end StraightLine
