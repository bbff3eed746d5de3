import StrategyQubo.Script.Value

namespace StrategyQubo.Script

/-! # The heap

Arrays and objects live here; nothing is ever removed.  A reference that was
not handed out by the heap reads as an empty array or object.
-/

/-- The properties of an object in the order in which they were added. -/
abbrev Record := List (String × Value)

namespace Record

def get? : Record → String → Option Value
  | [], _ => none
  | (name, value) :: rest, key => if name = key then some value else get? rest key

/-- Replaces the property in its place, or appends it. -/
def set : Record → String → Value → Record
  | [], key, value => [(key, value)]
  | (name, old) :: rest, key, value =>
      if name = key then (name, value) :: rest else (name, old) :: set rest key value

def contains (r : Record) (key : String) : Bool :=
  r.any (·.1 == key)

def keys (r : Record) : List String :=
  r.map (·.1)

def ofList (entries : List (String × Value)) : Record :=
  entries.foldl (fun r (key, value) => r.set key value) []

@[simp] theorem get?_set_self (r : Record) (key : String) (value : Value) :
    (r.set key value).get? key = some value := by
  induction r with
  | nil => simp [set, get?]
  | cons entry rest ih =>
      obtain ⟨name, old⟩ := entry
      by_cases same : name = key <;> simp [set, get?, same, ih]

/-- Writing one property leaves every other one alone. -/
theorem get?_set_of_ne (r : Record) (value : Value) {key other : String}
    (different : other ≠ key) : (r.set key value).get? other = r.get? other := by
  induction r with
  | nil => simp [set, get?, Ne.symm different]
  | cons entry rest ih =>
      obtain ⟨name, old⟩ := entry
      by_cases same : name = key
      · simp [set, get?, same, Ne.symm different]
      · by_cases found : name = other
        · subst found
          simp [set, get?, different]
        · simp [set, get?, same, found, ih]

end Record

structure Heap where
  arrays : Array (Array Value)
  objects : Array Record

namespace Heap

def empty : Heap := ⟨#[], #[]⟩

def arrayAt (h : Heap) (ref : ArrayRef) : Array Value :=
  h.arrays.getD ref.index #[]

def objectAt (h : Heap) (ref : ObjectRef) : Record :=
  h.objects.getD ref.index []

def setArray (h : Heap) (ref : ArrayRef) (items : Array Value) : Heap :=
  { h with arrays := h.arrays.setIfInBounds ref.index items }

/-- Changes an array in its place. -/
def modifyArray (h : Heap) (ref : ArrayRef) (change : Array Value → Array Value) : Heap :=
  { h with arrays := h.arrays.modify ref.index change }

def modifyObject (h : Heap) (ref : ObjectRef) (change : Record → Record) : Heap :=
  { h with objects := h.objects.modify ref.index change }

def newArray (h : Heap) (items : Array Value) : ArrayRef × Heap :=
  (⟨h.arrays.size⟩, { h with arrays := h.arrays.push items })

def newObject (h : Heap) (properties : Record) : ObjectRef × Heap :=
  (⟨h.objects.size⟩, { h with objects := h.objects.push properties })

end Heap

end StrategyQubo.Script
