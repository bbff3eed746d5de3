import StrategyQubo.Script.Operation

namespace StrategyQubo.Script

/-! # Evaluations as programs

What evaluating a construct does is written as a program over the operations of
the machine.  Where a part has to be evaluated the program asks for it and goes
on with the answer, so that the program of one construct says nothing about how
its parts are evaluated.
-/

/-- How a statement ends. -/
inductive Flow where
  | normal
  | returned (value : Value)
  | broke
  | continued

/-- What can be evaluated. -/
inductive Task where
  | statement (statement : Stmt) (scope : ScopeId)
  | expression (expression : Expr) (scope : ScopeId)
  | call (function : Value) (arguments : List Value)

@[reducible] def Task.Answer : Task → Type
  | statement _ _ => Flow
  | expression _ _ => Value
  | call _ _ => Value

inductive Eval (α : Type) where
  | done (value : α)
  | perform (op : Operation) (next : op.Answer → Eval α)
  | ask (task : Task) (next : task.Answer → Eval α)

/-- What a turn of a loop leads to. -/
inductive Turn (σ α : Type) where
  | again (state : σ)
  | finished (value : α)

/-- The program of a task.  Most tasks are done once; the others repeat a turn,
    guard a part against errors, or end with an error of the script's own. -/
inductive Rule (α : Type) where
  | once (eval : Eval α)
  | repeated {σ : Type} (first : Eval σ) (turn : σ → Eval (Turn σ α))
  /-- The handler gets the caught value.  An answer of the finalizer takes the
      place of what came before it. -/
  | guarded (body : Eval α) (handler : Option (Value → Eval α))
      (finalizer : Option (Eval (Option α)))
  | throwing (value : Eval Value)

namespace Eval

def bind {α β : Type} : Eval α → (α → Eval β) → Eval β
  | .done value, next => next value
  | .perform op rest, next => .perform op fun answer => (rest answer).bind next
  | .ask task rest, next => .ask task fun answer => (rest answer).bind next

instance : Monad Eval where
  pure := .done
  bind := .bind

def operate (op : Operation) : Eval op.Answer := .perform op .done

/-! ## Parts -/

def evaluate (expression : Expr) (scope : ScopeId) : Eval Value :=
  .ask (.expression expression scope) .done

def execute (statement : Stmt) (scope : ScopeId) : Eval Flow :=
  .ask (.statement statement scope) .done

def call (function : Value) (arguments : List Value) : Eval Value :=
  .ask (.call function arguments) .done

/-! ## Operations -/

def typeError {α : Type} (fault : TypeFault) : Eval α := .perform (.typeError fault) Empty.elim

def tick : Eval Unit := operate .tick

def heap : Eval Heap := operate .heap

def checkLength (requested : Nat) : Eval Unit := operate (.checkLength requested)

def stringify (value : Value) : Eval String := operate (.stringify value)

def newArray (items : Array Value) : Eval Value := operate (.newArray items)

def newObject (properties : Record) : Eval Value := operate (.newObject properties)

def newClosure (definition : FunctionDef) (scope : ScopeId) : Eval Value :=
  operate (.newClosure definition scope)

def newBound (method : Bound) : Eval Value := operate (.newBound method)

def modifyArray (ref : ArrayRef) (change : Array Value → Array Value) : Eval Unit :=
  operate (.modifyArray ref change)

def setProperty (target : Value) (key : String) (value : Value) : Eval Unit :=
  operate (.setProperty target key value)

def newScope (parent : ScopeId) (isFunction : Bool) : Eval ScopeId :=
  operate (.newScope parent isFunction)

def declare (scope : ScopeId) (name : String) (value : Value) (isMutable : Bool) : Eval Unit :=
  operate (.declare scope name value isMutable)

def declareMissing (scope : ScopeId) (names : List String) : Eval Unit :=
  operate (.declareMissing scope names)

def resolves (scope : ScopeId) (name : String) : Eval Bool := operate (.resolves scope name)

def lookup (scope : ScopeId) (name : String) : Eval Value := operate (.lookup scope name)

def assign (scope : ScopeId) (name : String) (value : Value) : Eval Unit :=
  operate (.assign scope name value)

def draw : Eval Float := operate .draw

def write (entry : LogEntry) : Eval Unit := operate (.write entry)

/-! ## Properties and conversions -/

def getProperty (target : Value) (key : String) : Eval Value := do
  match (← heap).property target key with
  | .ok (.value value) => pure value
  | .ok (.method method) => newBound method
  | .error fault => typeError fault

def propertyKey (value : Value) : Eval String := do
  return value.propertyKey (← heap)

def toNumber (value : Value) : Eval Float := do
  return value.toNumber (← heap)

def display (value : Value) : Eval String := do
  return value.display (← heap)

/-! ## Hoisting -/

def declareFunctions (scope : ScopeId) : List (String × FunctionDef) → Eval Unit
  | [] => pure ()
  | (name, definition) :: rest => do
      declare scope name (← newClosure definition scope) true
      declareFunctions scope rest

def hoistFunctions (statements : List Stmt) (scope : ScopeId) : Eval Unit :=
  declareFunctions scope (Stmt.functionsOf statements)

/-- Binds what the statements declare for the function around them, then the
    functions they declare for the scope itself. -/
def hoist (statements : List Stmt) (scope : ScopeId) : Eval Unit := do
  declareMissing scope (Stmt.varNamesOfList statements)
  hoistFunctions statements scope

end Eval

end StrategyQubo.Script
