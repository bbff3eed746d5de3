import StrategyQubo.Random.Stream
import StrategyQubo.Script.Convert
import StrategyQubo.Script.Fault
import StrategyQubo.Script.Limits

namespace StrategyQubo.Script

/-! # The machine

The state that evaluation reads and changes: scopes, heap, counters, the value
in flight, random draws and the log.  An evaluation ends with a value or an
error, and with a state in both cases; what ran before an error has happened.
-/

structure Binding where
  value : Value
  isMutable : Bool

/-- Bindings of one scope.  A `var` declaration belongs to the nearest
    function scope around it. -/
structure Scope where
  bindings : List (String × Binding)
  parent : Option ScopeId
  isFunction : Bool

namespace Scope

def fresh (parent : Option ScopeId) (isFunction : Bool) : Scope :=
  ⟨[], parent, isFunction⟩

def findIn : List (String × Binding) → String → Option Binding
  | [], _ => none
  | (bound, binding) :: rest, name => if bound = name then some binding else findIn rest name

def find? (s : Scope) (name : String) : Option Binding :=
  findIn s.bindings name

def binds (s : Scope) (name : String) : Bool :=
  (s.find? name).isSome

def bindIn : List (String × Binding) → String → Binding → List (String × Binding)
  | [], name, binding => [(name, binding)]
  | (bound, old) :: rest, name, binding =>
      if bound = name then (name, binding) :: rest else (bound, old) :: bindIn rest name binding

def bind (s : Scope) (name : String) (binding : Binding) : Scope :=
  { s with bindings := bindIn s.bindings name binding }

def names (s : Scope) : List String :=
  s.bindings.map (·.1)

end Scope

/-- An object as a script makes it for an error. -/
def errorRecord (name message : String) : Record :=
  Record.ofList [("name", .string name), ("message", .string message)]

def globalScope : ScopeId := 0

structure Machine where
  scopes : Array Scope
  heap : Heap
  /-- Functions made so far; each gets the count as its identity. -/
  identities : Nat
  steps : Nat
  /-- Script functions being called. -/
  depth : Nat
  /-- Statements and expressions under evaluation. -/
  nesting : Nat
  /-- The value of the last `throw` that no catch clause has taken. -/
  thrown : Option Value
  random : Random.Stream
  log : Array LogEntry

/-- What an evaluation runs under.  The clock tells the microseconds that have
    passed when so many steps are made. -/
structure Environment where
  limits : Limits
  clock : Nat → Nat

/-- How something that changes the machine ends: with a value or an error, and
    with a machine in both cases. -/
abbrev Outcome := EStateM.Result ScriptError Machine

/-- Changes the machine and ends with a value or an error. -/
abbrev Action (α : Type) := Environment → Machine → Outcome α

namespace Outcome

def machine {α : Type} : Outcome α → Machine
  | .ok _ m => m
  | .error _ m => m

def error? {α : Type} : Outcome α → Option ScriptError
  | .ok _ _ => none
  | .error error _ => some error

/-- Goes on with the value; an error is the end. -/
@[inline] def andThen {α β : Type} (outcome : Outcome α) (next : α → Machine → Outcome β) :
    Outcome β :=
  match outcome with
  | .ok value m => next value m
  | .error error m => .error error m

def mapMachine {α : Type} (change : Machine → Machine) : Outcome α → Outcome α
  | .ok value m => .ok value (change m)
  | .error error m => .error error (change m)

end Outcome

/-! ## Scopes -/

namespace Machine

def scopeAt (m : Machine) (scope : ScopeId) : Scope :=
  m.scopes.getD scope (.fresh none true)

/-- The nearest scope from this one outward that binds the name, in a chain of
    at most `bound` scopes. -/
def resolveWithin (m : Machine) (name : String) : Nat → ScopeId → Option ScopeId
  | 0, _ => none
  | bound + 1, scope =>
      if (m.scopeAt scope).binds name then
        some scope
      else
        match (m.scopeAt scope).parent with
        | some parent => resolveWithin m name bound parent
        | none => none

/-- Scopes are made inside older ones, so a chain is no longer than there are
    scopes. -/
def resolve (m : Machine) (scope : ScopeId) (name : String) : Option ScopeId :=
  m.resolveWithin name m.scopes.size scope

def functionScopeWithin (m : Machine) : Nat → ScopeId → ScopeId
  | 0, scope => scope
  | bound + 1, scope =>
      if (m.scopeAt scope).isFunction then
        scope
      else
        match (m.scopeAt scope).parent with
        | some parent => functionScopeWithin m bound parent
        | none => scope

/-- The scope that `var` declarations in this scope belong to. -/
def functionScopeOf (m : Machine) (scope : ScopeId) : ScopeId :=
  m.functionScopeWithin m.scopes.size scope

def modifyScope (m : Machine) (scope : ScopeId) (change : Scope → Scope) : Machine :=
  { m with scopes := m.scopes.modify scope change }

def declare (m : Machine) (scope : ScopeId) (name : String) (value : Value)
    (isMutable : Bool) : Machine :=
  m.modifyScope scope (·.bind name ⟨value, isMutable⟩)

/-- Binds a name that is not bound in the scope yet to `undefined`. -/
def declareMissing (m : Machine) (scope : ScopeId) (name : String) : Machine :=
  if (m.scopeAt scope).binds name then m else m.declare scope name .undefined true

/-- Binds in the nearest function scope the names that are not bound there
    yet. -/
def declareAllMissing (m : Machine) (scope : ScopeId) (names : List String) : Machine :=
  let target := m.functionScopeOf scope
  names.foldl (fun m name => m.declareMissing target name) m

def binding? (m : Machine) (scope : ScopeId) (name : String) : Option Binding :=
  (m.resolve scope name).bind fun found => (m.scopeAt found).find? name

def global? (m : Machine) (name : String) : Option Value :=
  ((m.scopeAt globalScope).find? name).map (·.value)

end Machine

end StrategyQubo.Script
