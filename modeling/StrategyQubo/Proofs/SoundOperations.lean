import StrategyQubo.Proofs.DisplayRoom
import StrategyQubo.Proofs.SoundMachines

namespace StrategyQubo.Script

/-! # Sound operations

On a sound machine an operation with sound parts leaves a sound machine and
answers with what is sound.  Some texts and records are made without a check;
those are asked to be spared.
-/

variable {limits : Limits} {r : Ration limits} {scopes : Nat}

/-! ## Properties -/

def Found.Sound (r : Ration limits) (scopes : Nat) : Found → Prop
  | .value held => held.Sound r scopes
  | .method bound => bound.Sound r

theorem foundMethod_sound {μ : Type} {method? : Option μ} {bind : μ → Bound}
    (sound : ∀ method, (bind method).Sound r) :
    (foundMethod (method?.map bind)).Sound r scopes := by
  cases method? with
  | none => trivial
  | some method => exact sound method

namespace Record

theorem mem_of_get? {record : Record} {key : String} {value : Value}
    (found : record.get? key = some value) : ∃ entry ∈ record, entry.2 = value := by
  induction record with
  | nil => cases found
  | cons entry rest ih =>
      unfold get? at found
      split at found
      · cases found
        exact ⟨entry, List.mem_cons_self, rfl⟩
      · obtain ⟨entry', later, same⟩ := ih found
        exact ⟨entry', List.mem_cons_of_mem _ later, same⟩

theorem mem_set {record : Record} {key : String} {value : Value} {entry : String × Value}
    (member : entry ∈ record.set key value) : entry ∈ record ∨ entry = (key, value) := by
  induction record with
  | nil => exact .inr (List.mem_singleton.mp member)
  | cons first rest ih =>
      unfold set at member
      split at member
      · next same =>
        rcases List.mem_cons.mp member with rfl | later
        · exact .inr (by rw [same])
        · exact .inl (List.mem_cons_of_mem _ later)
      · rcases List.mem_cons.mp member with rfl | later
        · exact .inl List.mem_cons_self
        · exact (ih later).imp_left (List.mem_cons_of_mem _)

end Record

namespace Heap

variable {h : Heap}

theorem Sound.arrayAt (sound : h.Sound r scopes) (ref : ArrayRef) :
    ItemsSound r scopes (h.arrayAt ref) := by
  unfold Heap.arrayAt
  rw [Array.getD_eq_getD_getElem?]
  cases found : h.arrays[ref.index]? with
  | none => exact ⟨r.shorter (Nat.zero_le _) r.short, by simp⟩
  | some items => exact sound.arrays items (Array.mem_of_getElem? found)

theorem Sound.objectAt (sound : h.Sound r scopes) (ref : ObjectRef) :
    (h.objectAt ref).Sound r scopes := by
  unfold Heap.objectAt
  rw [Array.getD_eq_getD_getElem?]
  cases found : h.objects[ref.index]? with
  | none => exact ⟨r.shorter (Nat.zero_le _) r.short, by simp, by simp⟩
  | some record => exact sound.objects record (Array.mem_of_getElem? found)

theorem Sound.newArray (sound : h.Sound r scopes) {items : Array Value}
    (itemsSound : ItemsSound r scopes items) : (h.newArray items).2.Sound r scopes :=
  ⟨Array.forall_mem_push.mpr ⟨itemsSound, sound.arrays⟩, sound.objects⟩

theorem Sound.newObject (sound : h.Sound r scopes) {record : Record}
    (recordSound : record.Sound r scopes) : (h.newObject record).2.Sound r scopes :=
  ⟨sound.arrays, Array.forall_mem_push.mpr ⟨recordSound, sound.objects⟩⟩

theorem Sound.modifyArray (sound : h.Sound r scopes) {ref : ArrayRef}
    {change : Array Value → Array Value} (changed : ItemsSound r scopes (change (h.arrayAt ref))) :
    (h.modifyArray ref change).Sound r scopes := by
  refine ⟨fun items member => ?_, sound.objects⟩
  obtain ⟨index, found⟩ := Array.mem_iff_getElem?.mp member
  simp only [Heap.modifyArray, Array.getElem?_modify] at found
  split at found
  · next same =>
    obtain ⟨old, at', rfl⟩ := Option.map_eq_some_iff.mp found
    have here : h.arrayAt ref = old := by
      simp [Heap.arrayAt, Array.getD_eq_getD_getElem?, same, at']
    exact here ▸ changed
  · exact sound.arrays items (Array.mem_of_getElem? found)

theorem Sound.modifyObject (sound : h.Sound r scopes) {ref : ObjectRef} {key : String}
    {value : Value} (keySound : r.Text key) (valueSound : value.Sound r scopes)
    (fits : r.allows ((h.modifyObject ref (·.set key value)).objectAt ref).length) :
    (h.modifyObject ref (·.set key value)).Sound r scopes := by
  refine ⟨sound.arrays, fun record member => ?_⟩
  obtain ⟨index, found⟩ := Array.mem_iff_getElem?.mp member
  have changed := found
  simp only [Heap.modifyObject, Array.getElem?_modify] at changed
  split at changed
  · next same =>
    obtain ⟨old, at', rfl⟩ := Option.map_eq_some_iff.mp changed
    have oldSound := sound.objects old (Array.mem_of_getElem? at')
    have here : (h.modifyObject ref (·.set key value)).objectAt ref = old.set key value := by
      rw [Heap.objectAt, Array.getD_eq_getD_getElem?, same, found, Option.getD_some]
    refine ⟨here ▸ fits, fun entry member => ?_, fun entry member => ?_⟩
    · rcases Record.mem_set member with old | rfl
      · exact oldSound.keys entry old
      · exact keySound
    · rcases Record.mem_set member with old | rfl
      · exact oldSound.values entry old
      · exact valueSound
  · exact sound.objects record (Array.mem_of_getElem? changed)

theorem resized_sound {items : Array Value} (sound : ItemsSound r scopes items) {length : Nat}
    (allowed : r.allows length) : ItemsSound r scopes (resized items length) := by
  unfold resized
  split
  · next fewer =>
    refine ⟨r.shorter (by simp) allowed, fun value member => sound.items value ?_⟩
    rw [← Array.mem_toList_iff, Array.toList_shrink] at member
    exact Array.mem_toList_iff.mp (List.mem_of_mem_take member)
  · next more =>
    refine ⟨by simpa [Nat.add_sub_cancel' (Nat.le_of_not_le more)] using allowed, ?_⟩
    refine Array.forall_mem_append.mpr ⟨sound.items, fun value new => ?_⟩
    rw [Array.eq_of_mem_replicate new]
    trivial

/-- Placing an element needs room only where the array becomes longer. -/
theorem placed_sound {items : Array Value} (sound : ItemsSound r scopes items) {index : Nat}
    {value : Value} (valueSound : value.Sound r scopes)
    (room : items.size ≤ index → r.allows (index + 1)) :
    ItemsSound r scopes (placed items index value) := by
  unfold placed
  split
  · refine ⟨by simpa using sound.size, fun other member => ?_⟩
    rcases Array.mem_or_eq_of_mem_setIfInBounds member with old | rfl
    · exact sound.items other old
    · exact valueSound
  · next outside =>
    have allowed := room (Nat.le_of_not_lt outside)
    have filled := resized_sound sound (r.shorter (Nat.le_succ index) allowed)
    have size : (resized items index).size ≤ index := by
      unfold resized
      split
      · simp
      · simp
        omega
    refine ⟨r.shorter ?_ allowed, Array.forall_mem_push.mpr ⟨valueSound, filled.items⟩⟩
    rw [Array.size_push]
    exact Nat.succ_le_succ size

/-! ### Reading -/

theorem Sound.item (sound : h.Sound r scopes) {ref : ArrayRef} {index : Nat} {item : Value}
    (found : (h.arrayAt ref)[index]? = some item) : item.Sound r scopes :=
  (sound.arrayAt ref).items item (Array.mem_of_getElem? found)

theorem Sound.property (sound : h.Sound r scopes) {target : Value}
    (targetSound : target.Sound r scopes) {key : String} {found : Found}
    (read : h.property target key = .ok found) : found.Sound r scopes := by
  cases target with
  | undefined => cases read
  | null => cases read
  | bool value => cases read; trivial
  | number value =>
      cases read
      exact foundMethod_sound fun _ => trivial
  | array ref =>
      simp only [Heap.property] at read
      split at read
      · cases read; trivial
      · split at read
        · next index _ =>
          cases read
          change Value.Sound r scopes _
          rw [Array.getD_eq_getD_getElem?]
          cases found : (h.arrayAt ref)[index]? with
          | none => trivial
          | some item => exact sound.item found
        · cases read
          exact foundMethod_sound fun _ => trivial
  | string text =>
      simp only [Heap.property] at read
      split at read
      · cases read; trivial
      · split at read
        · next index _ =>
          cases read
          change Value.Sound r scopes _
          cases found : text.toList[index]? with
          | none => trivial
          | some c => exact r.text_of_short (Nat.le_trans (utf8ByteSize_char_le c) (by decide))
        · cases read
          exact foundMethod_sound fun _ => targetSound
  | object ref =>
      cases read
      change Value.Sound r scopes _
      cases found : (h.objectAt ref).get? key with
      | none => trivial
      | some value =>
          obtain ⟨entry, member, rfl⟩ := Record.mem_of_get? found
          exact (sound.objectAt ref).values entry member
  | closure function =>
      simp only [Heap.property] at read
      split at read
      · cases read
        change r.Text _
        cases name : function.name with
        | none => exact r.text_of_short (by decide)
        | some text => exact targetSound.2.name text name
      · split at read <;> cases read <;> trivial
  | builtin builtin =>
      simp only [Heap.property] at read
      cases read
      change Value.Sound r scopes _
      split
      · exact r.text_of_short builtin.utf8ByteSize_name_le
      · trivial
  | bound identity method =>
      simp only [Heap.property] at read
      cases read
      change Value.Sound r scopes _
      split
      · exact r.text_of_short method.utf8ByteSize_name_le
      · trivial

/-- The keys that a loop visits: each is allowed as a text, and there are no
    more of them than an array may have elements. -/
theorem Sound.ownKeys (sound : h.Sound r scopes) {target : Value}
    (targetSound : target.Sound r scopes) :
    r.allows (h.ownKeys target).length ∧ ∀ key ∈ h.ownKeys target, r.Text key := by
  have indices {count : Nat} (allowed : r.allows count) :
      r.allows ((List.range count).map toString).length ∧
        ∀ key ∈ (List.range count).map toString, r.Text key := by
    refine ⟨by simpa using allowed, fun key member => ?_⟩
    obtain ⟨index, below, rfl⟩ := List.mem_map.mp member
    exact r.shorter (Nat.le_trans (Number.utf8ByteSize_toString_le_succ index)
      (List.mem_range.mp below)) allowed
  have nothing : r.allows ([] : List String).length ∧ ∀ key ∈ ([] : List String), r.Text key :=
    ⟨r.shorter (Nat.zero_le _) r.short, nofun⟩
  cases target with
  | object ref =>
      refine ⟨by simpa [Heap.ownKeys, Record.keys] using (sound.objectAt ref).length, ?_⟩
      intro key member
      obtain ⟨entry, found, rfl⟩ := List.mem_map.mp member
      exact (sound.objectAt ref).keys entry found
  | array ref => exact indices (sound.arrayAt ref).size
  | string text => exact indices (r.shorter (length_le_utf8ByteSize text) targetSound)
  | _ => exact nothing

end Heap

/-! ## Scopes -/

theorem Scope.mem_bindIn {bindings : List (String × Binding)} {name : String} {binding : Binding}
    {entry : String × Binding} (member : entry ∈ bindIn bindings name binding) :
    entry ∈ bindings ∨ entry.2 = binding := by
  induction bindings with
  | nil => exact .inr (congrArg Prod.snd (List.mem_singleton.mp member))
  | cons first rest ih =>
      unfold bindIn at member
      split at member
      · rcases List.mem_cons.mp member with rfl | later
        · exact .inr rfl
        · exact .inl (List.mem_cons_of_mem _ later)
      · rcases List.mem_cons.mp member with rfl | later
        · exact .inl List.mem_cons_self
        · exact (ih later).imp_left (List.mem_cons_of_mem _)

theorem Scope.mem_of_findIn {bindings : List (String × Binding)} {name : String}
    {binding : Binding} (found : findIn bindings name = some binding) :
    ∃ entry ∈ bindings, entry.2 = binding := by
  induction bindings with
  | nil => cases found
  | cons first rest ih =>
      unfold findIn at found
      split at found
      · cases found
        exact ⟨first, List.mem_cons_self, rfl⟩
      · obtain ⟨entry, later, same⟩ := ih found
        exact ⟨entry, List.mem_cons_of_mem _ later, same⟩

namespace Machine

variable {m : Machine}

/-- No binding is found outside the scopes that there are. -/
theorem mem_of_find? {scope : ScopeId} {name : String} {binding : Binding}
    (found : (m.scopeAt scope).find? name = some binding) :
    ∃ s ∈ m.scopes, ∃ entry ∈ s.bindings, entry.2 = binding := by
  obtain ⟨entry, member, same⟩ := Scope.mem_of_findIn found
  unfold scopeAt at member
  rw [Array.getD_eq_getD_getElem?] at member
  cases here : m.scopes[scope]? with
  | none => simp [here, Scope.fresh] at member
  | some s =>
      rw [here] at member
      exact ⟨s, Array.mem_of_getElem? here, entry, member, same⟩

theorem Sound.of_find? (sound : m.Sound r) {scope : ScopeId} {name : String} {binding : Binding}
    (found : (m.scopeAt scope).find? name = some binding) :
    binding.value.Sound r m.scopes.size := by
  obtain ⟨s, made, entry, member, rfl⟩ := mem_of_find? found
  exact sound.bindings s made entry member

theorem Sound.binding? (sound : m.Sound r) {scope : ScopeId} {name : String} {binding : Binding}
    (found : m.binding? scope name = some binding) : binding.value.Sound r m.scopes.size := by
  obtain ⟨target, -, found⟩ := Option.bind_eq_some_iff.mp found
  exact sound.of_find? found

/-- Only what a machine holds matters. -/
theorem Sound.of_held {after : Machine} (sound : m.Sound r) (scopes : after.scopes = m.scopes)
    (heap : after.heap = m.heap) (thrown : after.thrown = m.thrown) : m.Leads r after := by
  have frames : after.frames = m.frames := by rw [Machine.frames, scopes, Machine.frames]
  refine ⟨⟨sound.arena.of_frames frames, ?_, ?_, ?_⟩, .of_frames frames⟩
  · rw [scopes]
    exact sound.bindings
  · rw [scopes, heap]
    exact sound.heap
  · rw [scopes, thrown]
    exact sound.thrown

theorem Sound.withHeap (sound : m.Sound r) {h : Heap} (heapSound : h.Sound r m.scopes.size) :
    m.Leads r { m with heap := h } :=
  ⟨⟨sound.arena.of_frames rfl, sound.bindings, heapSound, sound.thrown⟩, .of_frames rfl⟩

theorem Sound.withThrown (sound : m.Sound r) {thrown : Option Value}
    (thrownSound : ∀ value ∈ thrown, value.Sound r m.scopes.size) :
    m.Leads r { m with thrown := thrown } :=
  ⟨⟨sound.arena.of_frames rfl, sound.bindings, sound.heap, thrownSound⟩, .of_frames rfl⟩

theorem frames_declare (scope : ScopeId) (name : String) (value : Value) (isMutable : Bool) :
    (m.declare scope name value isMutable).frames = m.frames := by
  refine List.ext_getElem? fun index => ?_
  simp only [getElem?_frames, declare, modifyScope, Array.getElem?_modify]
  split
  · rw [Option.map_map]
    rfl
  · rfl

theorem Sound.declare (sound : m.Sound r) (scope : ScopeId) (name : String) {value : Value}
    (valueSound : value.Sound r m.scopes.size) (isMutable : Bool) :
    m.Leads r (m.declare scope name value isMutable) := by
  have frames : (m.declare scope name value isMutable).frames = m.frames := frames_declare ..
  have size : (m.declare scope name value isMutable).scopes.size = m.scopes.size :=
    Array.size_modify ..
  refine ⟨⟨sound.arena.of_frames frames, ?_, size ▸ sound.heap, size ▸ sound.thrown⟩,
    .of_frames frames⟩
  rw [size]
  intro s member entry bound
  obtain ⟨index, found⟩ := Array.mem_iff_getElem?.mp member
  simp only [Machine.declare, modifyScope, Array.getElem?_modify] at found
  split at found
  · obtain ⟨old, here, rfl⟩ := Option.map_eq_some_iff.mp found
    rcases Scope.mem_bindIn bound with earlier | new
    · exact sound.bindings old (Array.mem_of_getElem? here) entry earlier
    · rw [new]
      exact valueSound
  · exact sound.bindings s (Array.mem_of_getElem? found) entry bound

theorem Sound.declareMissing (sound : m.Sound r) (scope : ScopeId) (name : String) :
    m.Leads r (m.declareMissing scope name) := by
  unfold Machine.declareMissing
  split
  · exact .refl sound
  · exact sound.declare scope name (show Value.Sound r _ .undefined from trivial) true

theorem Sound.declareAllMissing (sound : m.Sound r) (scope : ScopeId) (names : List String) :
    m.Leads r (m.declareAllMissing scope names) := by
  simp only [Machine.declareAllMissing]
  generalize m.functionScopeOf scope = target
  induction names generalizing m with
  | nil => exact .refl sound
  | cons name rest ih =>
      have first := sound.declareMissing target name
      exact first.trans (ih first.sound)

theorem Sound.newScope (sound : m.Sound r) {parent : ScopeId} (made : parent < m.scopes.size)
    (isFunction : Bool) :
    m.Leads r { m with scopes := m.scopes.push (.fresh (some parent) isFunction) } := by
  have grown : m.scopes.size ≤ (m.scopes.push (.fresh (some parent) isFunction)).size := by
    rw [Array.size_push]
    exact Nat.le_succ _
  have later : m.Later { m with scopes := m.scopes.push (.fresh (some parent) isFunction) } :=
    ⟨[.fresh (some parent) isFunction], by simp [frames, Scope.frame, Scope.fresh]⟩
  refine ⟨⟨⟨?_, ?_⟩, ?_, sound.heap.mono grown, fun value member => ?_⟩, later⟩
  · obtain ⟨s, found, parent⟩ := sound.arena.root
    obtain ⟨s', found', parent', -⟩ := later.scope found
    exact ⟨s', found', parent'.trans parent⟩
  · intro scope s found positive
    rw [Array.getElem?_push] at found
    split at found
    · next last =>
      cases found
      exact ⟨parent, rfl, last ▸ made⟩
    · exact sound.arena.inner scope s found positive
  · intro s member entry bound
    rcases Array.mem_push.mp member with old | rfl
    · exact (sound.bindings s old entry bound).mono grown
    · cases bound
  · exact (sound.thrown value member).mono grown

end Machine

/-! ## Operations -/

/-- What an operation has to be given on a machine. -/
def Operation.Sound (r : Ration limits) (m : Machine) : Operation → Prop
  | .stringify value => value.Sound r m.scopes.size
  | .newArray items => ItemsSound r m.scopes.size items
  | .newObject record => ∀ entry ∈ record, entry.2.Sound r m.scopes.size
  | .newClosure definition scope => scope < m.scopes.size ∧ definition.Spelled r.spelling
  | .newBound method => method.Sound r
  | .modifyArray ref change => ItemsSound r m.scopes.size (change (m.heap.arrayAt ref))
  | .setProperty target _ value =>
      target.Sound r m.scopes.size ∧ value.Sound r m.scopes.size
  | .newScope parent _ => parent < m.scopes.size
  | .declare scope _ value _ => scope < m.scopes.size ∧ value.Sound r m.scopes.size
  | .declareMissing scope _ => scope < m.scopes.size
  | .resolves scope _ => scope < m.scopes.size
  | .lookup scope _ => scope < m.scopes.size
  | .assign scope _ value => scope < m.scopes.size ∧ value.Sound r m.scopes.size
  | _ => True

/-- What an operation may answer. -/
def Operation.Returns (r : Ration limits) (scopes : Nat) : (op : Operation) → op.Answer → Prop
  | .heap, h => h.Sound r scopes
  | .stringify _, text => r.Text text
  | .newArray _, value => value.Sound r scopes
  | .newObject _, value => value.Sound r scopes
  | .newClosure _ _, value => value.Sound r scopes
  | .newBound _, value => value.Sound r scopes
  | .newScope _ _, scope => scope < scopes
  | .lookup _ _, value => value.Sound r scopes
  | _, _ => True

/-- Where nothing checks a length, the event itself has to keep to the ration:
    objects of any size are made and written, with keys of any length; errors
    have their messages, and a change of case may make a text longer. -/
def Event.Spares (r : Ration limits) : Event → Prop
  | .performed (.newObject record) _ _ =>
      r.allows record.length ∧ (∀ entry ∈ record, r.Text entry.1) ∧
        ∀ text, record = errorRecord "Error" text → r.Text text
  | .performed (.setProperty (.object ref) key _) _ after =>
      r.Text key ∧ r.allows (after.heap.objectAt ref).length
  | .entered (.call (.bound _ (.string text .toUpperCase)) _) _ => r.Text (Text.upper text)
  | .entered (.call (.bound _ (.string text .toLowerCase)) _) _ => r.Text (Text.lower text)
  | .caught _ (.thrown _) _ given => ∀ text, given = .string text → r.Text text
  | .caught _ error _ _ => r.Text error.scriptView.2
  | _ => True

/-- The event that performing an operation is. -/
abbrev Operation.event (op : Operation) (env : Environment) (m : Machine) : Event :=
  .performed op (op.run env m).error? (op.run env m).machine

section

variable {env : Environment} {r : Ration env.limits} {m : Machine}

theorem Action.setProperty_sound (sound : m.Sound r) {target value : Value} {key : String}
    (valueSound : value.Sound r m.scopes.size)
    (spared : ((Operation.setProperty target key value).event env m).Spares r) :
    m.Leads r (Action.setProperty target key value env m).machine := by
  unfold Action.setProperty
  cases decided : m.heap.changeFor env.limits target key value with
  | error error => exact .refl sound
  | ok change =>
      refine sound.withHeap ?_
      cases target with
      | object ref =>
          cases decided
          simp only [Operation.run, Action.setProperty, Heap.changeFor, Outcome.machine_ok,
            Event.Spares] at spared
          exact sound.heap.modifyObject spared.1 valueSound spared.2
      | array ref =>
          have items := sound.heap.arrayAt ref
          simp only [Heap.changeFor] at decided
          split at decided
          · split at decided
            · cases decided
            · next length _ =>
              split at decided
              · cases decided
              · next fits =>
                cases decided
                refine sound.heap.modifyArray (Heap.resized_sound items ?_)
                exact r.shorter (Nat.le_of_not_lt fits) r.checked
          · split at decided
            · cases decided
              exact sound.heap
            · next index _ =>
              split at decided
              · cases decided
              · next fits =>
                cases decided
                refine sound.heap.modifyArray (Heap.placed_sound items valueSound ?_)
                intro outside
                exact r.shorter (by omega) r.checked
      | undefined => cases decided
      | null => cases decided
      | _ =>
          cases decided
          exact sound.heap

theorem Action.assign_sound (sound : m.Sound r) {scope : ScopeId} {name : String} {value : Value}
    (valueSound : value.Sound r m.scopes.size) :
    m.Leads r (Action.assign scope name value env m).machine := by
  simp only [Action.assign]
  split
  · split
    · exact sound.declare _ name valueSound true
    · exact .refl sound
  · exact sound.declare globalScope name valueSound true

/-- Also an operation that fails leaves a sound machine. -/
theorem Operation.run_sound (sound : m.Sound r) (op : Operation) (given : op.Sound r m)
    (spared : (op.event env m).Spares r) : m.Leads r (op.run env m).machine := by
  cases op with
  | tick =>
      have same : (Action.tick env m).machine = { m with steps := m.steps + 1 } := by
        simp only [Action.tick]
        split
        · rfl
        · split <;> rfl
      rw [run, same]
      exact sound.of_held rfl rfl rfl
  | checkLength requested =>
      simp only [run, Action.checkLength]
      split <;> exact .refl sound
  | stringify value =>
      simp only [run, Action.stringify]
      split <;> exact .refl sound
  | newArray items => exact sound.withHeap (sound.heap.newArray given)
  | newObject record =>
      exact sound.withHeap (sound.heap.newObject ⟨spared.1, spared.2.1, given⟩)
  | modifyArray ref change => exact sound.withHeap (sound.heap.modifyArray given)
  | setProperty target key value => exact Action.setProperty_sound sound given.2 spared
  | newScope parent isFunction => exact sound.newScope given isFunction
  | declare scope name value isMutable => exact sound.declare scope name given.2 isMutable
  | declareMissing scope names => exact sound.declareAllMissing scope names
  | lookup scope name =>
      simp only [run, Action.lookup]
      split <;> exact .refl sound
  | assign scope name value => exact Action.assign_sound sound given.2
  | newClosure definition scope => exact sound.of_held rfl rfl rfl
  | newBound method => exact sound.of_held rfl rfl rfl
  | draw => exact sound.of_held rfl rfl rfl
  | write entry => exact sound.of_held rfl rfl rfl
  | _ => exact .refl sound

/-- The answer is sound as well. -/
theorem Operation.run_returns (sound : m.Sound r) (op : Operation) (given : op.Sound r m)
    {answer : op.Answer} {after : Machine} (ran : op.run env m = .ok answer after) :
    op.Returns r after.scopes.size answer := by
  cases op with
  | heap =>
      cases ran
      exact sound.heap
  | stringify value =>
      simp only [run, Action.stringify] at ran
      cases written : value.displayWithin m.heap env.limits.maxCollectionLen with
      | error overflow => cases overflow <;> simp [written] at ran
      | ok text =>
          rw [written] at ran
          cases ran
          exact r.shorter (Value.displayWithin_le written) r.checked
  | newArray items => cases ran; trivial
  | newObject record => cases ran; trivial
  | newClosure definition scope => cases ran; exact given
  | newBound method => cases ran; exact given
  | newScope parent isFunction =>
      cases ran
      exact Nat.lt_of_lt_of_eq (Nat.lt_succ_self _) (Array.size_push ..).symm
  | lookup scope name =>
      simp only [run, Action.lookup] at ran
      split at ran
      · next binding found =>
        cases ran
        exact sound.binding? found
      · cases ran
  | _ => trivial

/-- A check that is passed allows the length. -/
theorem Action.checkLength_allows {requested : Nat} {after : Machine}
    (ran : Action.checkLength requested env m = .ok () after) : r.allows requested := by
  unfold Action.checkLength at ran
  split at ran
  · cases ran
  · next fits => exact r.shorter (Nat.le_of_not_lt fits) r.checked

end

end StrategyQubo.Script
