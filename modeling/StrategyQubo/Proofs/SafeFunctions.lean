import StrategyQubo.Proofs.SafeEvaluations

namespace StrategyQubo.Script

/-! # Functions of the host are safe

Global functions and methods, given sound arguments, give sound values.
-/

open Eval

variable {env : Environment} {r : Ration env.limits} {m : Machine} {scopes : Nat}
  {arguments : List Value}

theorem argument_sound (given : ∀ value ∈ arguments, value.Sound r scopes) (index : Nat) :
    (argument arguments index).Sound r scopes := by
  rw [argument, List.getD_eq_getElem?_getD]
  cases found : arguments[index]? with
  | none => trivial
  | some value => exact given value (List.mem_of_getElem? found)

theorem itemsSound_toArray (given : ∀ value ∈ arguments, value.Sound r scopes)
    (allowed : r.allows arguments.length) : ItemsSound r scopes arguments.toArray :=
  ⟨by simpa using allowed, by simpa using given⟩

theorem positionValue_sound (index? : Option Nat) : (positionValue index?).Sound r scopes := by
  cases index? <;> trivial

theorem errorRecord_eq (name message : String) :
    errorRecord name message = [("name", .string name), ("message", .string message)] := by
  simp [errorRecord, Record.ofList, Record.set]

/-- A record of an error is small, but for its message. -/
theorem errorRecord_sound {name message : String} (short : name.utf8ByteSize ≤ 1024)
    (sound : r.Text message) : (errorRecord name message).Sound r scopes := by
  rw [errorRecord_eq]
  refine ⟨r.shorter (show 2 ≤ 1024 by decide) r.short, fun entry member => ?_,
    fun entry member => ?_⟩
  · simp only [List.mem_cons, List.not_mem_nil, or_false] at member
    rcases member with rfl | rfl
    · exact r.text_of_short (show "name".utf8ByteSize ≤ 1024 by decide)
    · exact r.text_of_short (show "message".utf8ByteSize ≤ 1024 by decide)
  · simp only [List.mem_cons, List.not_mem_nil, or_false] at member
    rcases member with rfl | rfl
    · exact r.text_of_short short
    · exact sound

/-! ## Global functions -/

section

variable (sound : m.Sound r)

include sound

theorem listEntry_gives {listing : Listing} {target : Value} {key : String}
    (given : target.Sound r m.scopes.size) (keySound : r.Text key) :
    (listEntry listing target key).Gives r (Value.Sound r) m := by
  cases listing with
  | keys => exact .pure sound keySound
  | values => exact getProperty_gives sound given key
  | entries =>
      refine (getProperty_gives sound given key).bind fun value after leads valueSound => ?_
      refine operate_gives leads.sound (.newArray _) fun _ => ⟨?_, ?_⟩
      · exact r.shorter (show 2 ≤ 1024 by decide) r.short
      · intro item member
        simp only [List.mem_toArray, List.mem_cons, List.not_mem_nil, or_false] at member
        rcases member with rfl | rfl
        · exact keySound
        · exact valueSound

theorem listEntries_gives (listing : Listing) {target : Value} {keys : List String}
    (found : Array Value) (given : target.Sound r m.scopes.size)
    (keysSound : ∀ key ∈ keys, r.Text key) (room : r.allows (found.size + keys.length))
    (foundSound : ∀ value ∈ found, value.Sound r m.scopes.size) :
    (listEntries listing target keys found).Gives r (ItemsSound r) m := by
  induction keys generalizing m found with
  | nil => exact .pure sound ⟨room, foundSound⟩
  | cons key rest ih =>
      obtain ⟨keySound, keysSound⟩ := List.forall_mem_cons.mp keysSound
      refine (listEntry_gives sound given keySound).bind fun entry after leads entrySound => ?_
      refine ih leads.sound _ (given.mono leads.grown) keysSound ?_ ?_
      · rw [Array.size_push, Nat.add_assoc, Nat.add_comm 1]
        exact room
      · exact Array.forall_mem_push.mpr ⟨entrySound, leads.values foundSound⟩

theorem makeArray_gives (given : ∀ value ∈ arguments, value.Sound r m.scopes.size) :
    (makeArray arguments).Gives r (Value.Sound r) m := by
  unfold makeArray
  split
  · split
    · exact typeError_gives _
    · refine Gives.checkLength fun allowed => ?_
      refine operate_gives sound (.newArray _) fun _ => ⟨by simpa using allowed, ?_⟩
      intro value member
      rw [Array.eq_of_mem_replicate member]
      trivial
  · refine Gives.checkLength fun allowed => ?_
    exact operate_gives sound (.newArray _) fun _ => itemsSound_toArray given allowed

theorem Builtin.apply_gives (builtin : Builtin)
    (given : ∀ value ∈ arguments, value.Sound r m.scopes.size) :
    (builtin.apply arguments).Gives r (Value.Sound r) m := by
  have first := argument_sound given 0
  refine Gives.heap ?_
  cases builtin with
  | makeArray => exact makeArray_gives sound given
  | makeError =>
      refine operate_gives sound (.newObject _) fun spared => ?_
      exact (errorRecord_sound (by decide) (spared.2.2 _ rfl)).values
  | list listing =>
      dsimp only
      split
      · exact typeError_gives _
      · obtain ⟨room, keysSound⟩ := sound.heap.ownKeys first
        have listed := listEntries_gives sound listing #[] first keysSound (by simpa using room)
          (by simp)
        exact listed.bind fun items after leads itemsSound =>
          operate_gives leads.sound (.newArray items) fun _ => itemsSound
  | random =>
      exact (operate_gives sound (.draw) fun _ => trivial).bind
        fun _ _ leads _ => .pure leads.sound trivial
  | toText =>
      cases arguments with
      | nil => exact .pure sound (r.text_of_short (by decide))
      | cons value rest =>
          exact Gives.stringify sound _ first fun text textSound => .pure sound textSound
  | toNumber => cases arguments <;> exact .pure sound trivial
  | console level =>
      exact (operate_gives sound (.write _) fun _ => trivial).bind
        fun _ _ leads _ => .pure leads.sound trivial
  | _ => exact .pure sound trivial

/-! ## Numbers and strings -/

theorem numberMethodText_gives (value : Float) (method : NumberMethod) (option : Value) :
    (numberMethodText value method option).Gives r (Value.Sound r) m := by
  refine Gives.heap ?_
  cases written : method.apply m.heap value option with
  | ok text => exact .pure sound (r.text_of_short (NumberMethod.utf8ByteSize_apply_le written))
  | error fault => exact typeError_gives fault

/-- Only a change of case can make a text longer. -/
theorem StringMethod.apply_gives {method : StringMethod} {text : String} {identity : Nat}
    {under : List Task} (textSound : r.Text text)
    (spared : (Event.entered (.call (.bound identity (.string text method)) arguments)
      under).Spares r) :
    (method.apply text arguments).Gives r (Value.Sound r) m := by
  refine Gives.heap ?_
  cases method with
  | split =>
      refine Gives.checkLength fun allowed => ?_
      refine operate_gives sound (.newArray _) fun _ => ⟨by simpa using allowed, ?_⟩
      intro value member
      obtain ⟨piece, found, rfl⟩ := List.mem_map.mp (List.mem_toArray.mp member)
      split at found
      · rw [List.mem_singleton.mp found]
        exact textSound
      · exact r.text_of_le (utf8ByteSize_splitText_le found) textSound
  | indexOf => exact .pure sound (positionValue_sound _)
  | includes => exact .pure sound trivial
  | toUpperCase => exact .pure sound spared
  | toLowerCase => exact .pure sound spared
  | trim => exact .pure sound (r.text_of_le (utf8ByteSize_trim_le text) textSound)
  | slice => exact .pure sound (r.text_of_le (utf8ByteSize_between_le _ _ text) textSound)
  | charAt => exact .pure sound (r.text_of_le (utf8ByteSize_charAtText_le _ text _) textSound)

/-! ## Arrays -/

theorem joinPiece_gives {receiver item : Value} (given : item.Sound r m.scopes.size) :
    (joinPiece receiver item).Gives r (fun _ => r.Text) m := by
  unfold joinPiece
  split
  · exact .pure sound (r.text_of_short (by decide))
  · exact operate_gives sound (.stringify item) fun _ => given

theorem joinLater_gives {receiver : Value} {separator text : String} {items : List Value}
    (given : ∀ item ∈ items, item.Sound r m.scopes.size) (textSound : r.Text text) :
    (joinLater receiver separator items text).Gives r (fun _ => r.Text) m := by
  induction items generalizing m text with
  | nil => exact .pure sound textSound
  | cons item rest ih =>
      obtain ⟨first, later⟩ := List.forall_mem_cons.mp given
      refine (joinPiece_gives sound first).bind fun piece after leads _ => ?_
      refine Gives.checkLength fun allowed => ih leads.sound ?_ allowed
      exact leads.values later

theorem joinAll_gives {receiver : Value} {separator : String} {items : List Value}
    (given : ∀ item ∈ items, item.Sound r m.scopes.size) :
    (joinAll receiver separator items).Gives r (fun _ => r.Text) m := by
  cases items with
  | nil => exact .pure sound (r.text_of_short (by decide))
  | cons item rest =>
      obtain ⟨first, later⟩ := List.forall_mem_cons.mp given
      refine (joinPiece_gives sound first).bind fun text after leads _ => ?_
      refine Gives.checkLength fun allowed => joinLater_gives leads.sound ?_ allowed
      exact leads.values later

theorem joinWith_gives (ref : ArrayRef) (separator : String) :
    (joinWith ref separator).Gives r (Value.Sound r) m := by
  unfold joinWith
  split
  · exact Gives.stringify sound (.array ref) trivial fun text textSound => .pure sound textSound
  · refine Gives.heap ?_
    have items := (sound.heap.arrayAt ref).items
    refine (joinAll_gives sound fun item member =>
      items item (Array.mem_toList_iff.mp member)).bind ?_
    exact fun text after leads textSound => .pure leads.sound textSound

theorem joinText_gives (ref : ArrayRef) (separator : Value) :
    (joinText ref separator).Gives r (Value.Sound r) m := by
  cases separator with
  | undefined => exact joinWith_gives sound ref ","
  | _ => exact Gives.heap (joinWith_gives sound ref _)

theorem appended_gives {items : Array Value} {value : Value}
    (itemsSound : ∀ item ∈ items, item.Sound r m.scopes.size)
    (given : value.Sound r m.scopes.size) :
    (appended items value).Gives r
      (fun scopes items => ∀ item ∈ items, item.Sound r scopes) m := by
  cases value with
  | array ref =>
      have others := (sound.heap.arrayAt ref).items
      exact Gives.heap (.pure sound (Array.forall_mem_append.mpr ⟨itemsSound, others⟩))
  | _ => exact .pure sound (Array.forall_mem_push.mpr ⟨given, itemsSound⟩)

theorem concatAll_gives {items : Array Value} (itemsSound : ItemsSound r m.scopes.size items)
    (given : ∀ value ∈ arguments, value.Sound r m.scopes.size) :
    (concatAll arguments items).Gives r (ItemsSound r) m := by
  induction arguments generalizing m items with
  | nil => exact .pure sound itemsSound
  | cons value rest ih =>
      obtain ⟨first, later⟩ := List.forall_mem_cons.mp given
      refine (appended_gives sound itemsSound.items first).bind fun items after leads grown => ?_
      refine Gives.checkLength fun allowed => ih leads.sound ⟨allowed, grown⟩ ?_
      exact leads.values later

theorem callbackOf_gives (method : ArrayMethod)
    (given : ∀ value ∈ arguments, value.Sound r m.scopes.size) :
    (callbackOf method arguments).Gives r (Value.Sound r) m := by
  simp only [callbackOf]
  split
  · exact .pure sound (argument_sound given 0)
  · exact Gives.heap (typeError_gives _)

/-! ### Walks -/

theorem walkEnd_gives (method : ArrayMethod) {gathered : Array Value}
    (gatheredSound : ItemsSound r m.scopes.size gathered) :
    (walkEnd method gathered).Gives r (Value.Sound r) m := by
  have made : (Eval.newArray gathered).Gives r (Value.Sound r) m :=
    operate_gives sound (.newArray gathered) fun _ => gatheredSound
  cases method with
  | map => exact made
  | filter => exact made
  | _ => exact .pure sound trivial

/-- A step gathers one element more at most. -/
def WalkStep.Sound (r : Ration env.limits) (scopes size : Nat) : WalkStep → Prop
  | .next gathered => gathered.size ≤ size + 1 ∧ ∀ value ∈ gathered, value.Sound r scopes
  | .done value => value.Sound r scopes

omit sound in
theorem walkStep_sound (method : ArrayMethod) {gathered : Array Value} (index : Nat)
    {item result : Value} (gatheredSound : ∀ value ∈ gathered, value.Sound r scopes)
    (itemSound : item.Sound r scopes) (resultSound : result.Sound r scopes) :
    (walkStep method gathered index item result).Sound r scopes gathered.size := by
  have same : (WalkStep.next gathered).Sound r scopes gathered.size :=
    ⟨Nat.le_succ _, gatheredSound⟩
  have pushed {value : Value} (valueSound : value.Sound r scopes) :
      (WalkStep.next (gathered.push value)).Sound r scopes gathered.size :=
    ⟨Nat.le_of_eq (Array.size_push ..), Array.forall_mem_push.mpr ⟨valueSound, gatheredSound⟩⟩
  have decided (value : Value) (valueSound : value.Sound r scopes) {decides : Bool} :
      (if decides then WalkStep.done value else .next gathered).Sound r scopes gathered.size := by
    cases decides with
    | false => exact same
    | true => exact valueSound
  cases method with
  | map => exact pushed resultSound
  | filter =>
      change (WalkStep.next _).Sound r scopes gathered.size
      split
      · exact pushed itemSound
      · exact same
  | some => exact decided (.bool true) trivial
  | find => exact decided item itemSound
  | findIndex => exact decided (naturalValue index) trivial
  | every =>
      change (if _ then WalkStep.next gathered else .done (.bool false)).Sound r scopes
        gathered.size
      split
      · exact same
      · trivial
  | _ => exact same

theorem walk_gives (method : ArrayMethod) (ref : ArrayRef) {function : Value} {left index : Nat}
    {gathered : Array Value} (callable : function.Sound r m.scopes.size)
    (gatheredSound : ∀ value ∈ gathered, value.Sound r m.scopes.size)
    (room : r.allows (gathered.size + left)) :
    (walk method ref function left index gathered).Gives r (Value.Sound r) m := by
  induction left generalizing m index gathered with
  | zero => exact walkEnd_gives sound method ⟨room, gatheredSound⟩
  | succ left ih =>
      refine Gives.heap ?_
      cases found : (m.heap.arrayAt ref)[index]? with
      | none =>
          exact walkEnd_gives sound method ⟨r.shorter (Nat.le_add_right _ _) room, gatheredSound⟩
      | some item =>
          have itemSound := sound.heap.item found
          have called := call_gives (m := m) [item, naturalValue index, .array ref] callable ?_
          · refine called.bind fun result after leads resultSound => ?_
            have stepSound := walkStep_sound method index
              (leads.values gatheredSound) (itemSound.mono leads.grown) resultSound
            cases taken : walkStep method gathered index item result with
            | done value =>
                rw [taken] at stepSound
                exact .pure leads.sound stepSound
            | next gathered' =>
                rw [taken] at stepSound
                refine ih leads.sound (callable.mono leads.grown) stepSound.2 (r.shorter ?_ room)
                have more := stepSound.1
                omega
          · simp only [List.forall_mem_cons]
            exact ⟨itemSound, trivial, trivial, nofun⟩

theorem walkAll_gives (method : ArrayMethod) (ref : ArrayRef)
    (given : ∀ value ∈ arguments, value.Sound r m.scopes.size) :
    (walkAll method ref arguments).Gives r (Value.Sound r) m := by
  have room := (sound.heap.arrayAt ref).size
  refine Gives.heap ((callbackOf_gives sound method given).bind ?_)
  intro function after leads callable
  exact walk_gives leads.sound method ref callable (by simp) (by simpa using room)

/-! ### Folds -/

/-- What is sound of a fold under way. -/
def Fold.Sound (r : Ration env.limits) (scopes : Nat) (fold : Fold) : Prop :=
  fold.function.Sound r scopes ∧ fold.total.Sound r scopes

theorem foldStart_gives (ref : ArrayRef)
    (given : ∀ value ∈ arguments, value.Sound r m.scopes.size) :
    (foldStart ref arguments).Gives r (Fold.Sound r) m := by
  refine (callbackOf_gives sound .reduce given).bind fun function after leads callable => ?_
  cases initial : arguments[1]? with
  | some value =>
      have valueSound := given value (List.mem_of_getElem? initial)
      exact .pure leads.sound ⟨callable, valueSound.mono leads.grown⟩
  | none =>
      refine Gives.heap ?_
      cases found : (after.heap.arrayAt ref)[0]? with
      | some first => exact .pure leads.sound ⟨callable, leads.sound.heap.item found⟩
      | none => exact typeError_gives _

theorem foldTurn_gives (ref : ArrayRef) {fold : Fold} (given : fold.Sound r m.scopes.size) :
    (foldTurn ref fold).Gives r (Turn.Holds (Fold.Sound r) (Value.Sound r)) m := by
  refine Gives.heap ?_
  cases found : (m.heap.arrayAt ref)[fold.index]? with
  | none => exact .pure sound given.2
  | some item =>
      have called := call_gives (m := m)
        [fold.total, item, naturalValue fold.index, .array ref] given.1 ?_
      · exact called.bind fun total after leads totalSound =>
          .pure leads.sound ⟨given.1.mono leads.grown, totalSound⟩
      · simp only [List.forall_mem_cons]
        exact ⟨given.2, sound.heap.item found, trivial, trivial, nofun⟩

/-! ### Changes -/

theorem pushAll_gives (ref : ArrayRef)
    (given : ∀ value ∈ arguments, value.Sound r m.scopes.size) :
    (pushAll ref arguments).Gives r (Value.Sound r) m := by
  refine Gives.heap (Gives.checkLength fun allowed => ?_)
  have others : ∀ value ∈ arguments.toArray, value.Sound r m.scopes.size := by
    simpa using given
  have changed : ItemsSound r m.scopes.size (m.heap.arrayAt ref ++ arguments.toArray) :=
    ⟨by simpa using allowed,
      Array.forall_mem_append.mpr ⟨(sound.heap.arrayAt ref).items, others⟩⟩
  exact (operate_gives sound (.modifyArray ref (· ++ arguments.toArray)) fun _ => changed).bind
    fun _ _ leads _ => .pure leads.sound trivial

theorem popLast_gives (ref : ArrayRef) : (popLast ref).Gives r (Value.Sound r) m := by
  have items := sound.heap.arrayAt ref
  refine Gives.heap ?_
  have changed : ItemsSound r m.scopes.size (m.heap.arrayAt ref).pop := by
    refine ⟨r.shorter (by simp) items.size, fun value member => items.items value ?_⟩
    rw [← Array.mem_toList_iff, Array.toList_pop] at member
    exact Array.mem_toList_iff.mp (List.dropLast_subset _ member)
  refine (operate_gives sound (.modifyArray ref Array.pop) fun _ => changed).bind ?_
  intro _ after leads _
  refine .pure leads.sound ?_
  cases last : (m.heap.arrayAt ref).back? with
  | none => trivial
  | some value => exact (items.items value (Array.mem_of_back? last)).mono leads.grown

theorem fillRange_gives (ref : ArrayRef) {value : Value} (start stop : Value)
    (given : value.Sound r m.scopes.size) :
    (fillRange ref value start stop).Gives r (Value.Sound r) m := by
  have items := sound.heap.arrayAt ref
  refine Gives.heap ?_
  refine (operate_gives sound (.modifyArray ref _) fun _ => ⟨?_, ?_⟩).bind
    fun _ _ leads _ => .pure leads.sound trivial
  · simpa [filled] using items.size
  · intro other member
    obtain ⟨index, inside, rfl⟩ := Array.mem_mapIdx.mp member
    split
    · exact given
    · exact items.items _ (Array.getElem_mem inside)

theorem sliceRange_gives (ref : ArrayRef) (start stop : Value) :
    (sliceRange ref start stop).Gives r (Value.Sound r) m := by
  have items := sound.heap.arrayAt ref
  refine Gives.heap (operate_gives sound (.newArray _) fun _ => ⟨?_, ?_⟩)
  · refine r.shorter ?_ items.size
    rw [Array.size_extract]
    omega
  · intro value member
    rw [← Array.mem_toList_iff, Array.toList_extract] at member
    exact items.items value
      (Array.mem_toList_iff.mp (List.mem_of_mem_drop (List.mem_of_mem_take member)))

theorem reverseAll_gives (ref : ArrayRef) : (reverseAll ref).Gives r (Value.Sound r) m := by
  have items := sound.heap.arrayAt ref
  refine (operate_gives sound (.modifyArray ref Array.reverse) fun _ => ⟨?_, ?_⟩).bind
    fun _ _ leads _ => .pure leads.sound trivial
  · simpa using items.size
  · exact fun value member => items.items value (Array.mem_reverse.mp member)

theorem ArrayMethod.rule_gives (method : ArrayMethod) (ref : ArrayRef)
    (given : ∀ value ∈ arguments, value.Sound r m.scopes.size) :
    (method.rule ref arguments).Gives r (Value.Sound r) m := by
  have walked := walkAll_gives sound method ref given
  cases method with
  | push => exact pushAll_gives sound ref given
  | pop => exact popLast_gives sound ref
  | fill => exact fillRange_gives sound ref _ _ (argument_sound given 0)
  | indexOf => exact Gives.heap (.pure sound (positionValue_sound _))
  | includes => exact Gives.heap (.pure sound trivial)
  | join => exact joinText_gives sound ref _
  | slice => exact sliceRange_gives sound ref _ _
  | concat =>
      refine Gives.heap ((concatAll_gives sound (sound.heap.arrayAt ref) given).bind ?_)
      exact fun items after leads itemsSound =>
        operate_gives leads.sound (.newArray items) fun _ => itemsSound
  | reverse => exact reverseAll_gives sound ref
  | reduce =>
      refine ⟨Fold.Sound r, foldStart_gives sound ref given, fun fold after leads foldSound => ?_⟩
      exact foldTurn_gives leads.sound ref foldSound
  | _ => exact walked

theorem Bound.rule_gives {method : Bound} {identity : Nat} {under : List Task}
    (methodSound : method.Sound r) (given : ∀ value ∈ arguments, value.Sound r m.scopes.size)
    (spared : (Event.entered (.call (.bound identity method) arguments) under).Spares r) :
    (method.rule arguments).Gives r (Value.Sound r) m := by
  cases method with
  | array ref method => exact ArrayMethod.rule_gives sound method ref given
  | string text method => exact StringMethod.apply_gives sound methodSound spared
  | number value method => exact numberMethodText_gives sound value method _

end

end StrategyQubo.Script
