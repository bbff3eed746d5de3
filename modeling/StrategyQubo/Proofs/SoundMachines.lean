import StrategyQubo.Proofs.Ledger
import StrategyQubo.Proofs.NumberTexts
import StrategyQubo.Proofs.SpelledTrees
import StrategyQubo.Proofs.TextSizes

namespace StrategyQubo.Script

/-! # Sound machines

Two things about all that a machine holds: a closure sees a scope that there
is, and texts and arrays have lengths that are allowed.  Scopes form an arena:
each one is made inside an older one, and none is taken away.
-/

variable {limits : Limits}

/-- The lengths that texts and arrays may have.  The ration goes as far as the
    checks of evaluation do, and further than any text that is not checked
    because it is short. -/
structure Ration (limits : Limits) where
  allows : Nat → Prop
  shorter : ∀ {length other : Nat}, length ≤ other → allows other → allows length
  checked : allows limits.maxCollectionLen
  short : allows 1024

namespace Ration

/-- Any length at all. -/
def unlimited (limits : Limits) : Ration limits where
  allows _ := True
  shorter _ _ := trivial
  checked := trivial
  short := trivial

/-- What the collection limit allows. -/
def limited (limits : Limits) (room : 1024 ≤ limits.maxCollectionLen) : Ration limits where
  allows length := length ≤ limits.maxCollectionLen
  shorter := Nat.le_trans
  checked := Nat.le_refl _
  short := room

def Text (r : Ration limits) (text : String) : Prop :=
  r.allows text.utf8ByteSize

/-- Trees with texts that are allowed. -/
def spelling (r : Ration limits) : Spelling where
  name _ := True
  inner _ := True
  text := r.Text
  source source _ := r.Text source

theorem text_of_short (r : Ration limits) {text : String} (short : text.utf8ByteSize ≤ 1024) :
    r.Text text :=
  r.shorter short r.short

theorem text_of_le (r : Ration limits) {text whole : String}
    (part : text.utf8ByteSize ≤ whole.utf8ByteSize) (sound : r.Text whole) : r.Text text :=
  r.shorter part sound

end Ration

/-! ## What is held -/

section

variable (r : Ration limits) (scopes : Nat)

def Bound.Sound : Bound → Prop
  | .string text _ => r.Text text
  | _ => True

def Value.Sound : Value → Prop
  | .string text => r.Text text
  | .closure function => function.scope < scopes ∧ function.definition.Spelled r.spelling
  | .bound _ method => method.Sound r
  | _ => True

structure ItemsSound (items : Array Value) : Prop where
  size : r.allows items.size
  items : ∀ value ∈ items, value.Sound r scopes

structure Record.Sound (record : Record) : Prop where
  length : r.allows record.length
  keys : ∀ entry ∈ record, r.Text entry.1
  values : ∀ entry ∈ record, entry.2.Sound r scopes

structure Heap.Sound (h : Heap) : Prop where
  arrays : ∀ items ∈ h.arrays, ItemsSound r scopes items
  objects : ∀ record ∈ h.objects, Record.Sound r scopes record

def Flow.Sound : Flow → Prop
  | .returned value => value.Sound r scopes
  | _ => True

def Task.Sound : Task → Prop
  | .statement form scope => scope < scopes ∧ form.Spelled r.spelling
  | .expression form scope => scope < scopes ∧ form.Spelled r.spelling
  | .call function arguments =>
      function.Sound r scopes ∧ ∀ argument ∈ arguments, argument.Sound r scopes

/-- What a task may answer. -/
def Task.Returns : (task : Task) → task.Answer → Prop
  | .statement _ _, flow => flow.Sound r scopes
  | .expression _ _, value => value.Sound r scopes
  | .call _ _, value => value.Sound r scopes

end

section

variable {r : Ration limits} {scopes more : Nat}

/-- Scopes that come later do no harm. -/
theorem Value.Sound.mono {value : Value} (sound : value.Sound r scopes) (grown : scopes ≤ more) :
    value.Sound r more := by
  cases value with
  | closure closure => exact ⟨Nat.lt_of_lt_of_le sound.1 grown, sound.2⟩
  | _ => exact sound

theorem ItemsSound.mono {items : Array Value} (sound : ItemsSound r scopes items)
    (grown : scopes ≤ more) : ItemsSound r more items :=
  ⟨sound.size, fun value member => (sound.items value member).mono grown⟩

theorem Record.Sound.mono {record : Record} (sound : record.Sound r scopes)
    (grown : scopes ≤ more) : record.Sound r more :=
  ⟨sound.length, sound.keys, fun entry member => (sound.values entry member).mono grown⟩

theorem Heap.Sound.mono {h : Heap} (sound : h.Sound r scopes) (grown : scopes ≤ more) :
    h.Sound r more :=
  ⟨fun items member => (sound.arrays items member).mono grown,
    fun record member => (sound.objects record member).mono grown⟩

theorem Task.Sound.mono {task : Task} (sound : task.Sound r scopes) (grown : scopes ≤ more) :
    task.Sound r more := by
  cases task with
  | statement form scope => exact ⟨Nat.lt_of_lt_of_le sound.1 grown, sound.2⟩
  | expression form scope => exact ⟨Nat.lt_of_lt_of_le sound.1 grown, sound.2⟩
  | call function arguments =>
      exact ⟨sound.1.mono grown, fun argument member => (sound.2 argument member).mono grown⟩

theorem Task.Returns.mono {task : Task} {answer : task.Answer}
    (sound : task.Returns r scopes answer) (grown : scopes ≤ more) :
    task.Returns r more answer := by
  cases task with
  | statement form scope =>
      cases answer with
      | returned value => exact Value.Sound.mono sound grown
      | _ => trivial
  | expression form scope => exact Value.Sound.mono sound grown
  | call function arguments => exact Value.Sound.mono sound grown

end

/-! ## Arenas -/

/-- A scope as it was made, before anything was bound in it. -/
def Scope.frame (s : Scope) : Scope :=
  .fresh s.parent s.isFunction

def Machine.frames (m : Machine) : List Scope :=
  m.scopes.toList.map Scope.frame

/-- The first scope is the only one without a parent, and every other one has
    an older one for a parent. -/
structure Machine.Arena (m : Machine) : Prop where
  root : ∃ s, m.scopes[globalScope]? = some s ∧ s.parent = none
  inner : ∀ (scope : ScopeId) s, m.scopes[scope]? = some s → globalScope < scope →
    ∃ parent, s.parent = some parent ∧ parent < scope

/-- Scopes may have come, and none has gone or has become another one. -/
def Machine.Later (m after : Machine) : Prop :=
  m.frames <+: after.frames

namespace Machine

variable {m after last : Machine}

theorem length_frames (m : Machine) : m.frames.length = m.scopes.size := by
  simp [frames]

theorem getElem?_frames (m : Machine) (scope : ScopeId) :
    m.frames[scope]? = m.scopes[scope]?.map Scope.frame := by
  simp [frames]

theorem Later.refl (m : Machine) : m.Later m :=
  List.prefix_refl _

theorem Later.of_frames (same : after.frames = m.frames) : m.Later after :=
  ⟨[], by rw [List.append_nil, same]⟩

theorem Later.trans (first : m.Later after) (second : after.Later last) : m.Later last :=
  List.IsPrefix.trans first second

theorem Later.size_le (later : m.Later after) : m.scopes.size ≤ after.scopes.size := by
  simpa only [length_frames] using List.IsPrefix.length_le later

/-- What never changes of a scope. -/
theorem Later.scope {scope : ScopeId} {s : Scope} (later : m.Later after)
    (found : m.scopes[scope]? = some s) :
    ∃ s', after.scopes[scope]? = some s' ∧ s'.parent = s.parent ∧ s'.isFunction = s.isFunction := by
  have kept : after.frames[scope]? = some s.frame := by
    obtain ⟨made, split⟩ := later
    have framed : m.frames[scope]? = some s.frame := by rw [getElem?_frames, found, Option.map_some]
    rw [← split, List.getElem?_append_left (List.getElem?_eq_some_iff.mp framed).1, framed]
  rw [getElem?_frames] at kept
  obtain ⟨s', found', same⟩ := Option.map_eq_some_iff.mp kept
  have parent := congrArg Scope.parent same
  have isFunction := congrArg Scope.isFunction same
  exact ⟨s', found', parent, isFunction⟩

/-- Only the frames of the scopes matter. -/
theorem Arena.of_frames (arena : m.Arena) (same : after.frames = m.frames) : after.Arena := by
  have back {scope : ScopeId} {s : Scope} (found : after.scopes[scope]? = some s) :
      ∃ s', m.scopes[scope]? = some s' ∧ s'.parent = s.parent ∧ s'.isFunction = s.isFunction :=
    (Later.of_frames same.symm).scope found
  obtain ⟨s, found, parent⟩ := arena.root
  obtain ⟨s', found', parent', -⟩ := (Later.of_frames same).scope found
  refine ⟨⟨s', found', parent'.trans parent⟩, fun scope s found positive => ?_⟩
  obtain ⟨s', found', parent', -⟩ := back found
  obtain ⟨parent, has, older⟩ := arena.inner scope s' found' positive
  exact ⟨parent, parent' ▸ has, older⟩

end Machine

/-! ## Machines -/

/-- All that a machine holds is sound. -/
structure Machine.Sound (r : Ration limits) (m : Machine) : Prop where
  arena : m.Arena
  bindings : ∀ scope ∈ m.scopes, ∀ entry ∈ scope.bindings, entry.2.value.Sound r m.scopes.size
  heap : m.heap.Sound r m.scopes.size
  thrown : ∀ value ∈ m.thrown, value.Sound r m.scopes.size

/-- A sound machine that comes after another one. -/
structure Machine.Leads (r : Ration limits) (m after : Machine) : Prop where
  sound : after.Sound r
  later : m.Later after

namespace Machine.Leads

variable {r : Ration limits} {m after last : Machine}

theorem refl (sound : m.Sound r) : m.Leads r m :=
  ⟨sound, .refl m⟩

theorem trans (first : m.Leads r after) (second : after.Leads r last) : m.Leads r last :=
  ⟨second.sound, first.later.trans second.later⟩

theorem grown (leads : m.Leads r after) : m.scopes.size ≤ after.scopes.size :=
  leads.later.size_le

/-- A scope that there was is still there. -/
theorem stays (leads : m.Leads r after) {scope : ScopeId} (made : scope < m.scopes.size) :
    scope < after.scopes.size :=
  Nat.lt_of_lt_of_le made leads.grown

theorem values (leads : m.Leads r after) {these : Value → Prop}
    (sound : ∀ value, these value → value.Sound r m.scopes.size) :
    ∀ value, these value → value.Sound r after.scopes.size :=
  fun value this => (sound value this).mono leads.grown

end Machine.Leads

end StrategyQubo.Script
