import StrategyQubo.Script.Machine
import StrategyQubo.Script.Property

namespace StrategyQubo.Script

/-! # Operations of the machine

The steps that evaluation is made of, each with what it answers and what it
does to the machine.  No operation evaluates anything.
-/

inductive Operation where
  | tick
  | typeError (fault : TypeFault)
  | heap
  /-- Refuses arrays and strings that are longer than the limit. -/
  | checkLength (requested : Nat)
  /-- String conversion that counts against the collection limit. -/
  | stringify (value : Value)
  | newArray (items : Array Value)
  | newObject (properties : Record)
  | newClosure (definition : FunctionDef) (scope : ScopeId)
  | newBound (method : Bound)
  | modifyArray (ref : ArrayRef) (change : Array Value → Array Value)
  | setProperty (target : Value) (key : String) (value : Value)
  | newScope (parent : ScopeId) (isFunction : Bool)
  | declare (scope : ScopeId) (name : String) (value : Value) (isMutable : Bool)
  | declareMissing (scope : ScopeId) (names : List String)
  | resolves (scope : ScopeId) (name : String)
  | lookup (scope : ScopeId) (name : String)
  | assign (scope : ScopeId) (name : String) (value : Value)
  | draw
  | write (entry : LogEntry)

@[reducible] def Operation.Answer : Operation → Type
  | tick => Unit
  | typeError _ => Empty
  | heap => Heap
  | checkLength _ => Unit
  | stringify _ => String
  | newArray _ => Value
  | newObject _ => Value
  | newClosure _ _ => Value
  | newBound _ => Value
  | modifyArray _ _ => Unit
  | setProperty _ _ _ => Unit
  | newScope _ _ => ScopeId
  | declare _ _ _ _ => Unit
  | declareMissing _ _ => Unit
  | resolves _ _ => Bool
  | lookup _ _ => Value
  | assign _ _ _ => Unit
  | draw => Float
  | write _ => Unit

namespace Action

/-- Takes one step of the budget, and looks at the clock now and then. -/
def tick : Action Unit := fun env m =>
  let m := { m with steps := m.steps + 1 }
  if env.limits.stepBudget < m.steps then
    .error (.stepBudgetExhausted env.limits.stepBudget) m
  else if m.steps % clockInterval = 0 ∧ env.limits.timeBudgetMs * 1000 < env.clock m.steps then
    .error (.timeBudgetExhausted env.limits.timeBudgetMs) m
  else
    .ok () m

def tooLarge (limits : Limits) (requested : Nat) : ScriptError :=
  .collectionTooLarge requested limits.maxCollectionLen

def checkLength (requested : Nat) : Action Unit := fun env m =>
  if env.limits.maxCollectionLen < requested then
    .error (tooLarge env.limits requested) m
  else
    .ok () m

def stringify (value : Value) : Action String := fun env m =>
  match value.displayWithin m.heap env.limits.maxCollectionLen with
  | .ok text => .ok text m
  | .error (.length bytes) => .error (tooLarge env.limits bytes) m
  | .error .depth => .error (.nestingTooDeep maxDisplayDepth) m

def newArray (items : Array Value) : Action Value := fun _ m =>
  let (ref, heap) := m.heap.newArray items
  .ok (.array ref) { m with heap := heap }

def newObject (properties : Record) : Action Value := fun _ m =>
  let (ref, heap) := m.heap.newObject properties
  .ok (.object ref) { m with heap := heap }

def newClosure (definition : FunctionDef) (scope : ScopeId) : Action Value := fun _ m =>
  .ok (.closure ⟨m.identities, definition, scope⟩) { m with identities := m.identities + 1 }

def newBound (method : Bound) : Action Value := fun _ m =>
  .ok (.bound m.identities method) { m with identities := m.identities + 1 }

def modifyArray (ref : ArrayRef) (change : Array Value → Array Value) : Action Unit := fun _ m =>
  .ok () { m with heap := m.heap.modifyArray ref change }

def setProperty (target : Value) (key : String) (value : Value) : Action Unit := fun env m =>
  match m.heap.changeFor env.limits target key value with
  | .ok change => .ok () { m with heap := change.apply m.heap }
  | .error error => .error error m

def newScope (parent : ScopeId) (isFunction : Bool) : Action ScopeId := fun _ m =>
  .ok m.scopes.size { m with scopes := m.scopes.push (.fresh (some parent) isFunction) }

def lookup (scope : ScopeId) (name : String) : Action Value := fun _ m =>
  match m.binding? scope name with
  | some binding => .ok binding.value m
  | none => .error (.reference name) m

/-- Assigns to the nearest binding; a name without one becomes global. -/
def assign (scope : ScopeId) (name : String) (value : Value) : Action Unit := fun _ m =>
  let target := (m.resolve scope name).getD globalScope
  match (m.scopeAt target).find? name with
  | some binding =>
      if binding.isMutable then
        .ok () (m.declare target name value true)
      else
        .error (.type (.constantAssignment name)) m
  | none => .ok () (m.declare globalScope name value true)

def draw : Action Float := fun _ m =>
  let (value, random) := m.random.next
  .ok value { m with random := random }

end Action

def Operation.run : (op : Operation) → Action op.Answer
  | tick => Action.tick
  | typeError fault => fun _ m => .error (.type fault) m
  | heap => fun _ m => .ok m.heap m
  | checkLength requested => Action.checkLength requested
  | stringify value => Action.stringify value
  | newArray items => Action.newArray items
  | newObject properties => Action.newObject properties
  | newClosure definition scope => Action.newClosure definition scope
  | newBound method => Action.newBound method
  | modifyArray ref change => Action.modifyArray ref change
  | setProperty target key value => Action.setProperty target key value
  | newScope parent isFunction => Action.newScope parent isFunction
  | declare scope name value isMutable => fun _ m => .ok () (m.declare scope name value isMutable)
  | declareMissing scope names => fun _ m => .ok () (m.declareAllMissing scope names)
  | resolves scope name => fun _ m => .ok (m.resolve scope name).isSome m
  | lookup scope name => Action.lookup scope name
  | assign scope name value => Action.assign scope name value
  | draw => Action.draw
  | write entry => fun _ m => .ok () { m with log := m.log.push entry }

end StrategyQubo.Script
