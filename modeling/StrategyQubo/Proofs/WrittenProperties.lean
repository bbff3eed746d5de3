import StrategyQubo.Proofs.ArrayKeys
import StrategyQubo.Script.Evaluate

namespace StrategyQubo.Script

/-! # Written properties

A property assignment is refused and changes nothing, or it changes its target
alone.  What was written is read back, and the rest of the target stays where it
is.
-/

/-! ## Frames -/

attribute [ext] ArrayRef ObjectRef

namespace Heap

/-- Nothing is different but this array. -/
structure OnlyArray (ref : ArrayRef) (h after : Heap) : Prop where
  size : after.arrays.size = h.arrays.size
  others : ∀ other, other ≠ ref → after.arrayAt other = h.arrayAt other
  objects : after.objects = h.objects

/-- Nothing is different but this object. -/
structure OnlyObject (ref : ObjectRef) (h after : Heap) : Prop where
  arrays : after.arrays = h.arrays
  size : after.objects.size = h.objects.size
  others : ∀ other, other ≠ ref → after.objectAt other = h.objectAt other

theorem modifyArray_only (h : Heap) (ref : ArrayRef) (change : Array Value → Array Value) :
    OnlyArray ref h (h.modifyArray ref change) where
  size := by rw [modifyArray, Array.size_modify]
  others other different := by
    have apart : ref.index ≠ other.index := fun same => different (ArrayRef.ext same.symm)
    simp only [arrayAt, modifyArray, Array.getD_eq_getD_getElem?, Array.getElem?_modify, if_neg apart]
  objects := rfl

theorem modifyObject_only (h : Heap) (ref : ObjectRef) (change : Record → Record) :
    OnlyObject ref h (h.modifyObject ref change) where
  arrays := rfl
  size := by rw [modifyObject, Array.size_modify]
  others other different := by
    have apart : ref.index ≠ other.index := fun same => different (ObjectRef.ext same.symm)
    simp only [objectAt, modifyObject, Array.getD_eq_getD_getElem?, Array.getElem?_modify, if_neg apart]

theorem arrayAt_modifyArray {h : Heap} {ref : ArrayRef} (made : ref.index < h.arrays.size)
    (change : Array Value → Array Value) :
    (h.modifyArray ref change).arrayAt ref = change (h.arrayAt ref) := by
  simp only [arrayAt, modifyArray, Array.getD_eq_getD_getElem?, Array.getElem?_modify, if_true,
    Array.getElem?_eq_getElem made, Option.map_some, Option.getD_some]

theorem objectAt_modifyObject {h : Heap} {ref : ObjectRef} (made : ref.index < h.objects.size)
    (change : Record → Record) :
    (h.modifyObject ref change).objectAt ref = change (h.objectAt ref) := by
  simp only [objectAt, modifyObject, Array.getD_eq_getD_getElem?, Array.getElem?_modify, if_true,
    Array.getElem?_eq_getElem made, Option.map_some, Option.getD_some]

end Heap

/-! ## Objects -/

/-- The property is written in its place, or behind all others if it is new. -/
structure Record.Written (key : String) (value : Value) (before after : Record) : Prop where
  written : after.get? key = some value
  kept : ∀ other, other ≠ key → after.get? other = before.get? other
  keys : after.keys = before.keys ++ if key ∈ before.keys then [] else [key]

theorem Record.keys_set (r : Record) (key : String) (value : Value) :
    (r.set key value).keys = r.keys ++ if key ∈ r.keys then [] else [key] := by
  unfold keys
  induction r with
  | nil => simp [set]
  | cons entry rest ih =>
      unfold set
      split
      · next same => simp [← same]
      · next other =>
        simp only [List.map_cons, ih, List.cons_append, List.mem_cons, Ne.symm other, false_or]

theorem Record.set_written (r : Record) (key : String) (value : Value) :
    Written key value r (r.set key value) where
  written := get?_set_self r key value
  kept _ different := get?_set_of_ne r value different
  keys := keys_set r key value

/-! ## Arrays -/

/-- Cut off, or filled up with `undefined`. -/
structure Resized (length : Nat) (before after : Array Value) : Prop where
  size : after.size = length
  kept : ∀ index, index < min before.size length → after[index]? = before[index]?
  gaps : ∀ index, before.size ≤ index → index < length → after[index]? = some .undefined

/-- With the value at the index, and `undefined` where elements were missing
    before it. -/
structure Placed (index : Nat) (value : Value) (before after : Array Value) : Prop where
  size : after.size = max before.size (index + 1)
  written : after[index]? = some value
  kept : ∀ other, other < before.size → other ≠ index → after[other]? = before[other]?
  gaps : ∀ other, before.size ≤ other → other < index → after[other]? = some .undefined

theorem Heap.resized_spec (items : Array Value) (length : Nat) :
    Resized length items (resized items length) := by
  unfold resized
  split
  · next fewer =>
    refine ⟨by simp [fewer], fun index below => ?_, fun index outside below => by omega⟩
    have inside : index < length := by omega
    simp [inside, show index < items.size by omega]
  · next more =>
    refine ⟨by simp; omega, fun index below => ?_, fun index outside below => ?_⟩
    · exact Array.getElem?_append_left (by omega)
    · rw [Array.getElem?_append_right outside]
      simp only [Array.getElem?_replicate]
      rw [if_pos (by omega)]

theorem Heap.placed_spec (items : Array Value) (index : Nat) (value : Value) :
    Placed index value items (placed items index value) := by
  unfold placed
  split
  · next inside =>
    refine ⟨?_, ?_, fun other below different => ?_, fun other outside below => by omega⟩
    · rw [Array.size_setIfInBounds]
      omega
    · simp [inside]
    · rw [Array.getElem?_setIfInBounds_ne (Ne.symm different)]
  · next outside =>
    obtain ⟨size, kept, gaps⟩ := resized_spec items index
    refine ⟨?_, ?_, fun other below different => ?_, fun other missing below => ?_⟩
    · rw [Array.size_push, size]
      omega
    · rw [Array.getElem?_push, if_pos size.symm]
    · rw [Array.getElem?_push, if_neg (by omega), kept other (by omega)]
    · rw [Array.getElem?_push, if_neg (by omega), gaps other missing below]

/-! ## Assignments -/

/-- What is on the heap is there. -/
def Value.LivesIn (h : Heap) : Value → Prop
  | .array ref => ref.index < h.arrays.size
  | .object ref => ref.index < h.objects.size
  | _ => True

namespace Heap

variable (limits : Limits) (h : Heap) (key : String) (value : Value)

structure ObjectWritten (ref : ObjectRef) (after : Heap) : Prop where
  only : OnlyObject ref h after
  record : Record.Written key value (h.objectAt ref) (after.objectAt ref)
  reads : after.property (.object ref) key = .ok (.value value)

/-- By the kind of the key: the numeral of an index, the length, or any other.  An
    array that grows does so within the limit. -/
structure ArrayWritten (ref : ArrayRef) (after : Heap) : Prop where
  only : OnlyArray ref h after
  element : ∀ index ≤ maxArrayIndex, key = toString index →
    Placed index value (h.arrayAt ref) (after.arrayAt ref) ∧
      after.property (.array ref) key = .ok (.value value)
  length : key = "length" → ∃ length, Number.IsCount (value.toNumber h) length ∧
    Resized length (h.arrayAt ref) (after.arrayAt ref)
  other : key ≠ "length" → (∀ index ≤ maxArrayIndex, key ≠ toString index) → after = h
  room : (after.arrayAt ref).size ≤ (h.arrayAt ref).size ∨
    (after.arrayAt ref).size ≤ limits.maxCollectionLen

/-- What a property assignment makes of the heap; other values keep no
    properties. -/
def Written : Value → Heap → Prop
  | .object ref, after => h.ObjectWritten key value ref after
  | .array ref, after => h.ArrayWritten limits key value ref after
  | _, after => after = h

/-- Why a property assignment is refused, and with which error. -/
inductive Refuses : Value → ScriptError → Prop where
  | ofUndefined : Refuses .undefined (.type (.writeToNothing "undefined" key))
  | ofNull : Refuses .null (.type (.writeToNothing "null" key))
  | noLength {ref : ArrayRef} (addressed : key = "length")
      (asked : ∀ length < Number.pow2 32, ¬ Number.IsCount (value.toNumber h) length) :
      Refuses (.array ref) (.type (.arrayLength (value.toNumber h)))
  | tooLong {ref : ArrayRef} {length : Nat} (addressed : key = "length")
      (asked : Number.IsCount (value.toNumber h) length)
      (large : limits.maxCollectionLen < length) :
      Refuses (.array ref) (.collectionTooLarge length limits.maxCollectionLen)
  | tooFar {ref : ArrayRef} {index : Nat} (addressed : key = toString index)
      (outside : (h.arrayAt ref).size ≤ index) (large : limits.maxCollectionLen < index + 1) :
      Refuses (.array ref) (.collectionTooLarge (index + 1) limits.maxCollectionLen)

variable {limits h key value}

theorem property_written {ref : ObjectRef} (made : ref.index < h.objects.size) :
    h.ObjectWritten key value ref ((Change.property ref key value).apply h) where
  only := h.modifyObject_only ref _
  record := by
    rw [Change.apply, objectAt_modifyObject made]
    exact Record.set_written _ key value
  reads := by
    simp only [property, Change.apply]
    rw [objectAt_modifyObject made, Record.get?_set_self, Option.getD_some]

theorem toString_ne_length (index : Nat) : toString index ≠ "length" := by
  intro same
  have digit : 'l'.isDigit = true :=
    Number.isDigit_of_mem_toString (n := index) (by rw [same]; decide)
  exact absurd digit (by decide)

theorem element_written {ref : ArrayRef} {index : Nat} (made : ref.index < h.arrays.size)
    (addressed : arrayIndex? key = some index)
    (fits : ¬ ((h.arrayAt ref).size ≤ index ∧ limits.maxCollectionLen < index + 1)) :
    h.ArrayWritten limits key value ref ((Change.element ref index value).apply h) := by
  obtain ⟨rfl, atMost⟩ := arrayIndex?_eq_some_iff.mp addressed
  have now : ((Change.element ref index value).apply h).arrayAt ref =
      placed (h.arrayAt ref) index value := arrayAt_modifyArray made _
  have placed := placed_spec (h.arrayAt ref) index value
  refine ⟨h.modifyArray_only ref _, fun other _ same => ?_, fun same => ?_, fun _ none => ?_, ?_⟩
  · obtain rfl := Number.toString_injective (congrArg String.toList same)
    refine ⟨now ▸ placed, ?_⟩
    simp only [property, if_neg (toString_ne_length index), addressed]
    rw [now, Array.getD_eq_getD_getElem?, placed.written, Option.getD_some]
  · exact absurd same (toString_ne_length index)
  · exact absurd rfl (none index atMost)
  · rw [now, placed.size]
    omega

theorem length_written {ref : ArrayRef} {length : Nat} (made : ref.index < h.arrays.size)
    (asked : arrayLength? (value.toNumber h) = some length)
    (fits : ¬ limits.maxCollectionLen < length) :
    h.ArrayWritten limits "length" value ref ((Change.length ref length).apply h) := by
  have now : ((Change.length ref length).apply h).arrayAt ref = resized (h.arrayAt ref) length :=
    arrayAt_modifyArray made _
  have resized := resized_spec (h.arrayAt ref) length
  refine ⟨h.modifyArray_only ref _, fun index _ same => ?_, fun _ => ?_, fun other => ?_, ?_⟩
  · exact absurd same.symm (toString_ne_length index)
  · exact ⟨length, (arrayLength?_eq_some_iff.mp asked).1, now ▸ resized⟩
  · exact absurd rfl other
  · rw [now, resized.size]
    exact .inr (Nat.le_of_not_lt fits)

theorem nothing_written {ref : ArrayRef} (noLength : key ≠ "length")
    (noIndex : arrayIndex? key = none) : h.ArrayWritten limits key value ref h where
  only := ⟨rfl, fun _ _ => rfl, rfl⟩
  element index atMost same := by
    rw [arrayIndex?_eq_some_iff.mpr ⟨same, atMost⟩] at noIndex
    cases noIndex
  length same := absurd same noLength
  other _ _ := rfl
  room := .inl (Nat.le_refl _)

/-- A property assignment is refused with its reason, or written. -/
theorem changeFor_cases (limits : Limits) (h : Heap) (key : String) (value : Value) {target : Value}
    (lives : target.LivesIn h) :
    (∃ error, h.changeFor limits target key value = .error error ∧
      h.Refuses limits key value target error) ∨
    ∃ change, h.changeFor limits target key value = .ok change ∧
      h.Written limits key value target (change.apply h) := by
  cases target with
  | object ref => exact .inr ⟨_, rfl, property_written lives⟩
  | array ref =>
      simp only [changeFor]
      split
      · next isLength =>
        subst isLength
        cases asked : arrayLength? (value.toNumber h) with
        | none =>
            refine .inl ⟨_, rfl, .noLength rfl fun length below same => ?_⟩
            rw [arrayLength?_eq_some_iff.mpr ⟨same, below⟩] at asked
            cases asked
        | some length =>
            by_cases large : limits.maxCollectionLen < length
            · exact .inl ⟨_, if_pos large, .tooLong rfl (arrayLength?_eq_some_iff.mp asked).1 large⟩
            · exact .inr ⟨_, if_neg large, length_written lives asked large⟩
      · next noLength =>
        cases addressed : arrayIndex? key with
        | none => exact .inr ⟨_, rfl, nothing_written noLength addressed⟩
        | some index =>
            by_cases large : (h.arrayAt ref).size ≤ index ∧ limits.maxCollectionLen < index + 1
            · have same := (arrayIndex?_eq_some_iff.mp addressed).1
              exact .inl ⟨_, if_pos large, .tooFar same large.1 large.2⟩
            · exact .inr ⟨_, if_neg large, element_written lives addressed large⟩
  | undefined => exact .inl ⟨_, rfl, .ofUndefined⟩
  | null => exact .inl ⟨_, rfl, .ofNull⟩
  | _ => exact .inr ⟨_, rfl, rfl⟩

end Heap

/-! ## Machines -/

/-- The length is checked before anything is appended. -/
theorem run_push (answer : (task : Task) → Action task.Answer) (turns : Nat) (env : Environment)
    (m : Machine) (ref : ArrayRef) (arguments : List Value) :
    (ArrayMethod.push.rule ref arguments).run answer turns env m =
      (Action.checkLength ((m.heap.arrayAt ref).size + arguments.length) env m).andThen fun _ m' =>
        .ok (naturalValue ((m.heap.arrayAt ref).size + arguments.length))
          { m' with heap := m'.heap.modifyArray ref (· ++ arguments.toArray) } :=
  rfl

/-- Whatever is assigned to a property of an array or object, and whatever is
    pushed: it fails and nothing has changed, or it is there and nothing else has. -/
theorem writes_read_back (env : Environment) (m : Machine) :
    (∀ (target : Value) (key : String) (value : Value), target.LivesIn m.heap →
      (∃ error, Action.setProperty target key value env m = .error error m ∧
        m.heap.Refuses env.limits key value target error) ∨
      ∃ after, Action.setProperty target key value env m = .ok () { m with heap := after } ∧
        m.heap.Written env.limits key value target after) ∧
    ∀ (ref : ArrayRef) (arguments : List Value) (answer : (task : Task) → Action task.Answer)
      (turns : Nat), ref.index < m.heap.arrays.size →
      (env.limits.maxCollectionLen < (m.heap.arrayAt ref).size + arguments.length ∧
        (ArrayMethod.push.rule ref arguments).run answer turns env m = .error
          (.collectionTooLarge ((m.heap.arrayAt ref).size + arguments.length)
            env.limits.maxCollectionLen) m) ∨
      ∃ after, (ArrayMethod.push.rule ref arguments).run answer turns env m =
          .ok (naturalValue (after.arrayAt ref).size) { m with heap := after } ∧
        Heap.OnlyArray ref m.heap after ∧
        after.arrayAt ref = m.heap.arrayAt ref ++ arguments.toArray ∧
        (after.arrayAt ref).size ≤ env.limits.maxCollectionLen := by
  constructor
  · intro target key value lives
    unfold Action.setProperty
    rcases m.heap.changeFor_cases env.limits key value lives with
      ⟨error, refused, reason⟩ | ⟨change, decided, written⟩
    · exact .inl ⟨error, by rw [refused], reason⟩
    · exact .inr ⟨change.apply m.heap, by rw [decided], written⟩
  · intro ref arguments answer turns made
    have now := Heap.arrayAt_modifyArray made (· ++ arguments.toArray)
    have size : (m.heap.arrayAt ref ++ arguments.toArray).size =
        (m.heap.arrayAt ref).size + arguments.length :=
      Array.size_append.trans (congrArg _ List.size_toArray)
    rw [run_push, Action.checkLength]
    split
    · next large => exact .inl ⟨large, rfl⟩
    · next fits =>
      refine .inr ⟨_, ?_, m.heap.modifyArray_only ref _, now, ?_⟩
      · rw [now, size]
        rfl
      · rw [now, size]
        exact Nat.le_of_not_lt fits

def shortLimits : Environment :=
  ⟨{ maxCollectionLen := 3 }, fun _ => 0⟩

/-- With an array of one element. -/
def oneElement : Machine :=
  { Machine.fresh shortLimits.limits with heap := ⟨#[#[.bool true]], #[]⟩ }

/-- The array is put into itself, behind a gap, and cannot become longer. -/
theorem writes_read_back_knotted :
    (∃ after, Action.setProperty (.array ⟨0⟩) "2" (.array ⟨0⟩) shortLimits oneElement =
        .ok () { oneElement with heap := after } ∧
      Placed 2 (.array ⟨0⟩) #[.bool true] (after.arrayAt ⟨0⟩)) ∧
    (ArrayMethod.push.rule ⟨0⟩ [.null, .null, .null]).run (fun _ => Action.cutOff) 0 shortLimits
      oneElement = .error (.collectionTooLarge 4 3) oneElement := by
  obtain ⟨assigns, pushes⟩ := writes_read_back shortLimits oneElement
  constructor
  · have two : toString 2 = "2" := rfl
    rcases assigns (.array ⟨0⟩) "2" (.array ⟨0⟩) Nat.zero_lt_one with
      ⟨error, -, reason⟩ | ⟨after, assigned, written⟩
    · cases reason with
      | noLength addressed => exact absurd addressed (by decide)
      | tooLong addressed => exact absurd addressed (by decide)
      | tooFar addressed outside large =>
          obtain rfl := Number.toString_injective (congrArg String.toList (two.trans addressed))
          exact absurd large (by decide)
    · exact ⟨after, assigned, (written.element 2 (by decide) two.symm).1⟩
  · rcases pushes ⟨0⟩ [.null, .null, .null] (fun _ => Action.cutOff) 0 (by decide) with
      ⟨-, refused⟩ | ⟨after, -, -, now, fits⟩
    · exact refused
    · rw [now] at fits
      exact absurd fits (by decide)

end StrategyQubo.Script
