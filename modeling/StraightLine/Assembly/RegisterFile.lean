import StraightLine.Assembly.Basic

namespace StraightLine.Assembly

open Code (Variable)

structure Homes where
  entries : List (Variable × Slot)
  distinct : (entries.map Prod.fst).Nodup

namespace Homes

def empty : Homes := ⟨[], List.nodup_nil⟩

def find? (homes : Homes) (v : Variable) : Option Slot :=
  (homes.entries.find? fun entry => entry.1 = v).map Prod.snd

def size (homes : Homes) : Nat := homes.entries.length

def erase (homes : Homes) (v : Variable) : Homes :=
  ⟨homes.entries.filter fun entry => entry.1 ≠ v,
    homes.distinct.sublist (List.filter_sublist.map Prod.fst)⟩

def insert (homes : Homes) (v : Variable) (slot : Slot) : Homes :=
  ⟨(v, slot) :: (homes.erase v).entries, by
    refine List.nodup_cons.mpr ⟨fun member => ?_, (homes.erase v).distinct⟩
    obtain ⟨entry, kept, same⟩ := List.mem_map.mp member
    simp only [erase, List.mem_filter, ne_eq, decide_not, Bool.not_eq_true', decide_eq_false_iff_not] at kept
    exact kept.2 same⟩

theorem find?_empty (v : Variable) : empty.find? v = none := rfl

theorem find?_erase (homes : Homes) (v other : Variable) :
    (homes.erase v).find? other = if other = v then none else homes.find? other := by
  unfold find? erase
  rw [List.find?_filter]
  by_cases h : other = v
  · subst h
    simp
  · have same : (fun entry : Variable × Slot => !decide (entry.1 = v) && decide (entry.1 = other)) =
        fun entry => decide (entry.1 = other) := by
      funext entry
      by_cases e : entry.1 = other <;> simp [e, h]
    simp [h, same]

theorem find?_insert (homes : Homes) (v other : Variable) (slot : Slot) :
    (homes.insert v slot).find? other = if other = v then some slot else homes.find? other := by
  have erased := find?_erase homes v other
  unfold find? at erased ⊢
  by_cases h : other = v
  · simp [insert, h]
  · simpa [insert, h, Ne.symm h] using erased

end Homes

structure RegisterFile where
  occupants : Vector (Option Variable) 7
  homes : Homes

-- How a variable comes to its register.
inductive Placement where
  | held (slot : Slot)
  | free (slot : Slot)
  | evicting (old : Variable) (slot : Slot)
  deriving DecidableEq

def Placement.slot : Placement → Slot
  | .held slot | .free slot | .evicting _ slot => slot

namespace RegisterFile

def empty : RegisterFile := ⟨Vector.replicate 7 none, Homes.empty⟩

def occupant? (file : RegisterFile) (slot : Slot) : Option Variable := file.occupants.get slot

def lookup? (file : RegisterFile) (v : Variable) : Option Slot := file.homes.find? v

def freeSlot? (file : RegisterFile) : Option Slot := slots.find? fun slot => (file.occupant? slot).isNone

def victim? (file : RegisterFile) (evictable : Variable → Bool) (slot : Slot) : Option Placement :=
  match file.occupant? slot with
  | some old => if old.isTemp && evictable old then some (.evicting old slot) else none
  | none => none

-- A bound variable keeps its register. Another takes the first free one, else the first that holds a temporary which may be
-- evicted.
def placement? (file : RegisterFile) (v : Variable) (evictable : Variable → Bool) : Option Placement :=
  match file.lookup? v with
  | some slot => some (.held slot)
  | none =>
    match file.freeSlot? with
    | some slot => some (.free slot)
    | none => slots.findSome? (file.victim? evictable)

def bind (file : RegisterFile) (slot : Slot) (v : Variable) : RegisterFile :=
  let homes := match file.occupant? slot with
    | some old => file.homes.erase old
    | none => file.homes
  ⟨file.occupants.set slot (some v), homes.insert v slot⟩

theorem occupant?_bind (file : RegisterFile) (slot other : Slot) (v : Variable) :
    (file.bind slot v).occupant? other = if other = slot then some v else file.occupant? other := by
  change (file.occupants.set slot (some v))[other.val] = _
  rw [Vector.getElem_set]
  by_cases h : other = slot
  · simp [h]
  · have apart : slot.val ≠ other.val := fun e => h (Fin.ext e.symm)
    simp only [apart, h, if_false]
    rfl

theorem lookup?_bind (file : RegisterFile) (slot : Slot) (v other : Variable) :
    (file.bind slot v).lookup? other =
      if other = v then some slot
      else if file.occupant? slot = some other then none
      else file.lookup? other := by
  unfold lookup? bind
  cases held : file.occupant? slot with
  | none => simp [Homes.find?_insert]
  | some old => simp [Homes.find?_insert, Homes.find?_erase, eq_comm]

def place (file : RegisterFile) (v : Variable) : Placement → RegisterFile
  | .held _ => file
  | .free slot | .evicting _ slot => file.bind slot v

-- The bound variables, by register.
def bindings (file : RegisterFile) : List (Slot × Variable) :=
  slots.filterMap fun slot => (file.occupant? slot).map fun v => (slot, v)

def isConsistent (file : RegisterFile) : Bool :=
  file.bindings.all (fun (slot, v) => file.lookup? v = some slot) &&
    decide (file.bindings.length = file.homes.size)

end RegisterFile
end StraightLine.Assembly
