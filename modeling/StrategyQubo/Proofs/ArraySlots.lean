import StrategyQubo.Proofs.WrittenProperties

namespace StrategyQubo.Script

/-! # Array slots

A slot of an array is addressed by one key, the numeral of its index, and the
keys that are listed for an array address the slots they were made from.  What is
read through any other key is the same whatever the elements are.
-/

theorem ArrayMethod.ofName?_eq_some_iff {key : String} {method : ArrayMethod} :
    ofName? key = Option.some method ↔ key = method.name := by
  constructor
  · intro found
    have named := List.find?_some (p := fun other : ArrayMethod => other.name == key) found
    exact (beq_iff_eq.mp named).symm
  · rintro rfl
    cases method <;> decide

theorem arrayIndex?_injective {key other : String} {index : Nat}
    (first : arrayIndex? key = some index) (second : arrayIndex? other = some index) :
    key = other :=
  (arrayIndex?_eq_some_iff.mp first).1.trans (arrayIndex?_eq_some_iff.mp second).1.symm

namespace Heap

variable {h : Heap} {ref : ArrayRef} {key : String} {index : Nat}

theorem property_element (addressed : arrayIndex? key = some index) :
    h.property (.array ref) key = .ok (.value ((h.arrayAt ref).getD index .undefined)) := by
  obtain ⟨rfl, -⟩ := arrayIndex?_eq_some_iff.mp addressed
  simp only [property, if_neg (toString_ne_length index), addressed]

/-- What an array of this size has besides its elements, by name. -/
inductive Beside (ref : ArrayRef) (size : Nat) (key : String) : Found → Prop where
  | length (named : key = "length") : Beside ref size key (.value (naturalValue size))
  | method {method : ArrayMethod} (named : key = method.name) :
      Beside ref size key (.method (.array ref method))
  | nothing (noLength : key ≠ "length") (noMethod : ∀ method : ArrayMethod, key ≠ method.name) :
      Beside ref size key (.value .undefined)

/-- Only the size of the array counts. -/
theorem property_beside (noIndex : arrayIndex? key = none) (ref : ArrayRef) (size : Nat) :
    ∃ found, Beside ref size key found ∧
      ∀ h : Heap, (h.arrayAt ref).size = size → h.property (.array ref) key = .ok found := by
  by_cases isLength : key = "length"
  · subst isLength
    refine ⟨_, .length rfl, ?_⟩
    rintro h rfl
    simp only [property, if_true]
  · cases named : ArrayMethod.ofName? key with
    | some method =>
        refine ⟨_, .method (ArrayMethod.ofName?_eq_some_iff.mp named), fun h _ => ?_⟩
        simp only [property, if_neg isLength, noIndex, named, Option.map_some, foundMethod]
    | none =>
        refine ⟨_, .nothing isLength fun method same => ?_, fun h _ => ?_⟩
        · rw [ArrayMethod.ofName?_eq_some_iff.mpr same] at named
          cases named
        · simp only [property, if_neg isLength, noIndex, named, Option.map_none, foundMethod]

theorem ownKeys_getElem? (listed : (h.ownKeys (.array ref))[index]? = some key) :
    index < (h.arrayAt ref).size ∧ key = toString index := by
  simp only [ownKeys, List.getElem?_map, Option.map_eq_some_iff] at listed
  obtain ⟨same, there, rfl⟩ := listed
  obtain ⟨within, rfl⟩ := List.getElem?_eq_some_iff.mp there
  rw [List.length_range] at within
  rw [List.getElem_range]
  exact ⟨within, rfl⟩

end Heap

/-- Keys and slots of an array: exactly the numerals of the indices up to
`2 ^ 32 - 2` address a slot, each its own; what is read through one is the element
there, if there is one; the listed keys of an array of at most `2 ^ 32 - 1` elements
address the slots in their order; and any other key leads to the same, the length,
a method or nothing, in all heaps that keep the size of the array. -/
theorem array_keys_address_slots (ref : ArrayRef) :
    (∀ key index, arrayIndex? key = some index ↔ key = toString index ∧ index ≤ 2 ^ 32 - 2) ∧
    (∀ key other index, arrayIndex? key = some index → arrayIndex? other = some index →
      key = other) ∧
    (∀ (h : Heap) (key : String) (index : Nat), arrayIndex? key = some index →
      h.property (.array ref) key = .ok (.value ((h.arrayAt ref).getD index .undefined))) ∧
    (∀ h : Heap, (h.arrayAt ref).size ≤ 2 ^ 32 - 1 →
      (h.ownKeys (.array ref)).length = (h.arrayAt ref).size ∧
      ∀ index key, (h.ownKeys (.array ref))[index]? = some key →
        arrayIndex? key = some index ∧ ∃ element, (h.arrayAt ref)[index]? = some element ∧
          h.property (.array ref) key = .ok (.value element)) ∧
    ∀ key, (∀ index ≤ 2 ^ 32 - 2, key ≠ toString index) → ∀ size, ∃ found,
      Heap.Beside ref size key found ∧
      ∀ h : Heap, (h.arrayAt ref).size = size → h.property (.array ref) key = .ok found := by
  have largest : maxArrayIndex = 2 ^ 32 - 2 := rfl
  refine ⟨fun key index => largest ▸ arrayIndex?_eq_some_iff,
    fun key other index => arrayIndex?_injective, fun h key index => Heap.property_element, ?_, ?_⟩
  · intro h small
    refine ⟨by simp [Heap.ownKeys], fun index key listed => ?_⟩
    obtain ⟨within, rfl⟩ := Heap.ownKeys_getElem? listed
    have addressed : arrayIndex? (toString index) = some index :=
      arrayIndex?_eq_some_iff.mpr ⟨rfl, by omega⟩
    refine ⟨addressed, (h.arrayAt ref)[index], Array.getElem?_eq_getElem within, ?_⟩
    rw [Heap.property_element addressed, Array.getD_eq_getD_getElem?,
      Array.getElem?_eq_getElem within, Option.getD_some]
  · intro key noNumeral size
    refine Heap.property_beside ?_ ref size
    cases addressed : arrayIndex? key with
    | none => rfl
    | some index =>
        obtain ⟨same, atMost⟩ := arrayIndex?_eq_some_iff.mp addressed
        exact absurd same (noNumeral index (largest ▸ atMost))

/-- With one array, of two elements. -/
def twoElements : Heap :=
  ⟨#[#[.bool true, .null]], #[]⟩

/-- A needless zero makes another key, which leads to nothing. -/
theorem array_keys_address_slots_padded :
    arrayIndex? "1" = some 1 ∧ twoElements.property (.array ⟨0⟩) "1" = .ok (.value .null) ∧
      twoElements.ownKeys (.array ⟨0⟩) = ["0", "1"] ∧
      (∀ index ≤ 2 ^ 32 - 2, "01" ≠ toString index) ∧
      twoElements.property (.array ⟨0⟩) "01" = .ok (.value .undefined) := by
  have keys : twoElements.ownKeys (.array ⟨0⟩) = ["0", "1"] := rfl
  obtain ⟨exact, -, -, listed, others⟩ := array_keys_address_slots ⟨0⟩
  obtain ⟨addressed, element, there, read⟩ :=
    (listed twoElements (by decide)).2 1 "1" (by rw [keys]; rfl)
  obtain rfl : Value.null = element := Option.some.inj there
  have padded : ∀ index ≤ 2 ^ 32 - 2, "01" ≠ toString index := by
    intro index atMost same
    exact absurd ((exact "01" index).mpr ⟨same, atMost⟩) (by
      rw [show arrayIndex? "01" = none by decide]
      simp)
  obtain ⟨found, beside, reads⟩ := others "01" padded 2
  refine ⟨addressed, read, keys, padded, ?_⟩
  rw [reads twoElements rfl]
  cases beside with
  | length named => exact absurd named (by decide)
  | @method method named => exact absurd named (by cases method <;> decide)
  | nothing => rfl

end StrategyQubo.Script
