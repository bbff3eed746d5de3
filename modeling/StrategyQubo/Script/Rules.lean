import StrategyQubo.Script.Builtin

namespace StrategyQubo.Script

/-! # Rules

What evaluating each construct does, as a program that asks for its parts.
-/

open Eval

/-! ## Operators -/

def Value.joinsText : Value → Bool
  | .string _ => true
  | .array _ => true
  | .object _ => true
  | _ => false

def arithmetic (f : Float → Float → Float) (left right : Value) : Eval Value := do
  let h ← heap
  pure (.number (f (left.toNumber h) (right.toNumber h)))

def addValues (left right : Value) : Eval Value := do
  if left.joinsText || right.joinsText then
    let first ← stringify left
    let second ← stringify right
    let text := first ++ second
    checkLength text.utf8ByteSize
    pure (.string text)
  else
    arithmetic (· + ·) left right

def ordered (holds : Option Ordering → Bool) (left right : Value) : Eval Value := do
  pure (.bool (holds (left.compare? (← heap) right)))

def insideValue (left right : Value) : Eval Value := do
  let key ← propertyKey left
  match (← heap).hasKey? right key with
  | some found => pure (.bool found)
  | none => typeError (.searchIn key (← display right))

def BinaryOp.apply (op : BinaryOp) (left right : Value) : Eval Value :=
  match op with
  | add => addValues left right
  | subtract => arithmetic (· - ·) left right
  | multiply => arithmetic (· * ·) left right
  | divide => arithmetic (· / ·) left right
  | remainder => arithmetic Number.remainder left right
  | power => arithmetic Float.pow left right
  | less => ordered (· == some .lt) left right
  | greater => ordered (· == some .gt) left right
  | lessEqual => ordered (fun o => o == some .lt || o == some .eq) left right
  | greaterEqual => ordered (fun o => o == some .gt || o == some .eq) left right
  | equal => do pure (.bool (left.looseEquals (← heap) right))
  | notEqual => do pure (.bool !(left.looseEquals (← heap) right))
  | strictEqual => pure (.bool (left.strictEquals right))
  | strictNotEqual => pure (.bool !(left.strictEquals right))
  | inside => insideValue left right

def UnaryOp.apply (op : UnaryOp) (value : Value) : Eval Value :=
  match op with
  | negate => do pure (.number (-(← toNumber value)))
  | plus => do pure (.number (← toNumber value))
  | not => pure (.bool !value.truthy)
  | typeof => pure (.string value.typeName)

def LogicalOp.decides (op : LogicalOp) (left : Value) : Bool :=
  match op with
  | and => !left.truthy
  | or => left.truthy
  | nullish => !left.isNullish

/-! ## Places -/

/-- What can be assigned to: a name, or a property whose owner and key are
    values already. -/
inductive Place where
  | name (name : String)
  | property (owner key : Value)

def readPlace (place : Place) (scope : ScopeId) : Eval Value :=
  match place with
  | .name name => lookup scope name
  | .property owner key => do getProperty owner (← propertyKey key)

def writePlace (place : Place) (value : Value) (scope : ScopeId) : Eval Unit :=
  match place with
  | .name name => assign scope name value
  | .property owner key => do setProperty owner (← propertyKey key) value

/-- The place that an expression denotes; the parser lets no other expression
    be assigned to. -/
def placeOf (target : Expr) (scope : ScopeId) : Eval Place :=
  match target with
  | .identifier name => pure (.name name)
  | .member object property => do
      let owner ← evaluate object scope
      pure (.property owner (.string property))
  | .index object key => do
      let owner ← evaluate object scope
      let key ← evaluate key scope
      pure (.property owner key)
  | _ => pure (.property .undefined .undefined)

/-! ## Expressions -/

def evaluateAll (scope : ScopeId) : List Expr → List Value → Eval (List Value)
  | [], values => pure values.reverse
  | expression :: rest, values => do
      let value ← evaluate expression scope
      evaluateAll scope rest (value :: values)

def templateText (scope : ScopeId) : List TemplatePart → String → Eval String
  | [], text => pure text
  | .text content :: rest, text => do
      let text := text ++ content
      checkLength text.utf8ByteSize
      templateText scope rest text
  | .hole value :: rest, text => do
      let piece ← stringify (← evaluate value scope)
      let text := text ++ piece
      checkLength text.utf8ByteSize
      templateText scope rest text

def keyOf (scope : ScopeId) : PropertyKey → Eval String
  | .fixed name => pure name
  | .computed expression => do propertyKey (← evaluate expression scope)

def propertiesOf (scope : ScopeId) : List Property → Record → Eval Record
  | [], record => pure record
  | .entry key expression :: rest, record => do
      let key ← keyOf scope key
      let value ← evaluate expression scope
      propertiesOf scope rest (record.set key value)

/-- A name without a binding has the type `undefined`. -/
def typeOfExpression (operand : Expr) (scope : ScopeId) : Eval Value := do
  let unbound ← match operand with
    | .identifier name => do pure !(← resolves scope name)
    | _ => pure false
  if unbound then
    pure (.string "undefined")
  else
    pure (.string (← evaluate operand scope).typeName)

def updateExpression (increment before : Bool) (target : Expr) (scope : ScopeId) :
    Eval Value := do
  let place ← placeOf target scope
  let old ← toNumber (← readPlace place scope)
  let new := if increment then old + 1.0 else old - 1.0
  writePlace place (.number new) scope
  pure (.number (if before then new else old))

def assignExpression (op : Option BinaryOp) (target source : Expr) (scope : ScopeId) :
    Eval Value := do
  let place ← placeOf target scope
  let value ← match op with
    | some op => do
        let current ← readPlace place scope
        let operand ← evaluate source scope
        op.apply current operand
    | none => evaluate source scope
  writePlace place value scope
  pure value

def callExpression (callee : Expr) (arguments : List Expr) (scope : ScopeId) : Eval Value := do
  let function ← evaluate callee scope
  if function.isCallable then
    let values ← evaluateAll scope arguments []
    call function values
  else
    typeError (.notAFunction callee.description)

/-- A construction is a call whose result is replaced by a new object, unless
    it is an array or an object. -/
def constructExpression (callee : Expr) (arguments : List Expr) (scope : ScopeId) :
    Eval Value := do
  let function ← evaluate callee scope
  let values ← evaluateAll scope arguments []
  if function.isCallable then
    match ← call function values with
    | .array ref => pure (.array ref)
    | .object ref => pure (.object ref)
    | _ => newObject []
  else
    typeError (.notAConstructor callee.description)

def expressionRule (expression : Expr) (scope : ScopeId) : Eval Value :=
  match expression with
  | .number value => pure (.number value)
  | .string text => pure (.string text)
  | .bool value => pure (.bool value)
  | .null => pure .null
  | .undefined => pure .undefined
  | .template parts => do pure (.string (← templateText scope parts ""))
  | .identifier name => lookup scope name
  | .array elements => do
      checkLength elements.length
      newArray (← evaluateAll scope elements []).toArray
  | .object properties => do newObject (← propertiesOf scope properties [])
  | .function definition => newClosure definition scope
  | .unary .typeof operand => typeOfExpression operand scope
  | .unary op operand => do op.apply (← evaluate operand scope)
  | .update increment before target => updateExpression increment before target scope
  | .binary op left right => do
      let left ← evaluate left scope
      let right ← evaluate right scope
      op.apply left right
  | .logical op left right => do
      let left ← evaluate left scope
      if op.decides left then pure left else evaluate right scope
  | .conditional condition consequent alternative => do
      if (← evaluate condition scope).truthy then
        evaluate consequent scope
      else
        evaluate alternative scope
  | .assign op target source => assignExpression op target source scope
  | .member object property => do getProperty (← evaluate object scope) property
  | .index object key => do
      let owner ← evaluate object scope
      let key ← evaluate key scope
      getProperty owner (← propertyKey key)
  | .call callee arguments => callExpression callee arguments scope
  | .construct callee arguments => constructExpression callee arguments scope

/-! ## Statements -/

/-- Runs statements until one of them does not end normally. -/
def runAll (scope : ScopeId) : List Stmt → Eval Flow
  | [] => pure .normal
  | statement :: rest => do
      match ← execute statement scope with
      | .normal => runAll scope rest
      | flow => pure flow

/-- A block has a scope of its own if a statement directly in it binds a
    name. -/
def runBlock (statements : List Stmt) (scope : ScopeId) : Eval Flow := do
  if statements.any Stmt.bindsInBlock then
    let inner ← newScope scope false
    hoistFunctions statements inner
    runAll inner statements
  else
    runAll scope statements

/-- A `var` without a value leaves its name as it is. -/
def runDeclarators (kind : Declaration) (scope : ScopeId) : List Declarator → Eval Unit
  | [] => pure ()
  | .declare name initial :: rest => do
      let value ← match initial with
        | some expression => evaluate expression scope
        | none => pure .undefined
      match kind with
      | .var => if initial.isSome then assign scope name value else pure ()
      | .lexical => declare scope name value true
      | .constant => declare scope name value false
      runDeclarators kind scope rest

/-- What a loop does after its body: it ends with a flow, or goes on. -/
def Flow.afterBody? : Flow → Option Flow
  | .broke => some .normal
  | .returned value => some (.returned value)
  | .normal => none
  | .continued => none

def whileTurn (condition : Expr) (body : Stmt) (scope : ScopeId) : Eval (Turn Unit Flow) := do
  if (← evaluate condition scope).truthy then
    match (← execute body scope).afterBody? with
    | some flow => pure (.finished flow)
    | none => pure (.again ())
  else
    pure (.finished .normal)

def doWhileTurn (body : Stmt) (condition : Expr) (scope : ScopeId) : Eval (Turn Unit Flow) := do
  match (← execute body scope).afterBody? with
  | some flow => pure (.finished flow)
  | none =>
      if (← evaluate condition scope).truthy then
        pure (.again ())
      else
        pure (.finished .normal)

/-- A missing condition holds, and takes a step. -/
def forCondition (scope : ScopeId) : Option Expr → Eval Bool
  | some condition => do return (← evaluate condition scope).truthy
  | none => do
      tick
      pure true

/-- The state is the scope of the loop, the same one in all turns. -/
def forTurn (condition update : Option Expr) (body : Stmt) (scope : ScopeId) :
    Eval (Turn ScopeId Flow) := do
  if ← forCondition scope condition then
    match (← execute body scope).afterBody? with
    | some flow => pure (.finished flow)
    | none =>
        match update with
        | some expression =>
            let _ ← evaluate expression scope
            pure (.again scope)
        | none => pure (.again scope)
  else
    pure (.finished .normal)

/-- A header that declares names of its own gets one scope for all turns. -/
def forStart (initial : Option Stmt) (scope : ScopeId) : Eval ScopeId := do
  let inner ← match initial with
    | some (.declaration .lexical _) => newScope scope false
    | some (.declaration .constant _) => newScope scope false
    | _ => pure scope
  match initial with
  | some statement =>
      let _ ← execute statement inner
      pure inner
  | none => pure inner

/-- Runs the body of a loop over a collection for one item.  A name that the
    header declares is bound in a new scope for each item. -/
def walkBody (kind : Option Declaration) (name : String) (item : Value) (body : Stmt)
    (scope : ScopeId) : Eval Flow := do
  match kind with
  | some .lexical =>
      let inner ← newScope scope false
      declare inner name item true
      execute body inner
  | some .constant =>
      let inner ← newScope scope false
      declare inner name item false
      execute body inner
  | _ =>
      assign scope name item
      execute body scope

/-- The item of a collection at an index, read when its turn comes. -/
def itemAt (collection : Value) (index : Nat) : Eval (Option Value) := do
  match collection with
  | .array ref => pure ((← heap).arrayAt ref)[index]?
  | .string text => pure (text.toList[index]?.map charText)
  | other => typeError (.notIterable (← display other))

/-- The state is the collection and the index of the next item. -/
def forOfItem (kind : Option Declaration) (name : String) (body : Stmt) (scope : ScopeId)
    (state : Value × Nat) : Option Value → Eval (Turn (Value × Nat) Flow)
  | none => pure (.finished .normal)
  | some item => do
      match (← walkBody kind name item body scope).afterBody? with
      | some flow => pure (.finished flow)
      | none => pure (.again (state.1, state.2 + 1))

def forOfTurn (kind : Option Declaration) (name : String) (body : Stmt) (scope : ScopeId)
    (state : Value × Nat) : Eval (Turn (Value × Nat) Flow) := do
  forOfItem kind name body scope state (← itemAt state.1 state.2)

def forInTurns (kind : Option Declaration) (name : String) (body : Stmt) (scope : ScopeId) :
    List String → Eval Flow
  | [] => pure .normal
  | key :: rest => do
      match (← walkBody kind name (.string key) body scope).afterBody? with
      | some flow => pure flow
      | none => forInTurns kind name body scope rest

def runForIn (kind : Option Declaration) (name : String) (object : Expr) (body : Stmt)
    (scope : ScopeId) : Eval Flow := do
  let owner ← evaluate object scope
  forInTurns kind name body scope ((← heap).ownKeys owner)

/-- The clause has a scope of its own, also if it binds nothing. -/
def runHandler (binding : Option String) (handler : List Stmt) (scope : ScopeId)
    (caught : Value) : Eval Flow := do
  let inner ← newScope scope false
  match binding with
  | some name =>
      declare inner name caught true
      runBlock handler inner
  | none => runBlock handler inner

/-- A finalizer that ends normally answers nothing. -/
def runFinalizer (finalizer : List Stmt) (scope : ScopeId) : Eval (Option Flow) := do
  match ← runBlock finalizer scope with
  | .normal => pure none
  | flow => pure (some flow)

def runExpression (expression : Expr) (scope : ScopeId) : Eval Flow := do
  let _ ← evaluate expression scope
  pure .normal

def runReturn (value : Option Expr) (scope : ScopeId) : Eval Flow := do
  match value with
  | some expression => return .returned (← evaluate expression scope)
  | none => pure (.returned .undefined)

def runIfElse (condition : Expr) (consequent : Stmt) (alternative : Option Stmt)
    (scope : ScopeId) : Eval Flow := do
  if (← evaluate condition scope).truthy then
    execute consequent scope
  else
    match alternative with
    | some alternative => execute alternative scope
    | none => pure .normal

def statementRule (statement : Stmt) (scope : ScopeId) : Rule Flow :=
  match statement with
  | .declaration kind declarators => .once do
      runDeclarators kind scope declarators
      pure .normal
  | .function _ => .once (pure .normal)
  | .empty => .once (pure .normal)
  | .expression expression => .once (runExpression expression scope)
  | .returnWith value => .once (runReturn value scope)
  | .ifElse condition consequent alternative =>
      .once (runIfElse condition consequent alternative scope)
  | .whileLoop condition body => .repeated (pure ()) fun _ => whileTurn condition body scope
  | .doWhile body condition => .repeated (pure ()) fun _ => doWhileTurn body condition scope
  | .forLoop initial condition update body =>
      .repeated (forStart initial scope) (forTurn condition update body)
  | .forOf kind name iterable body =>
      .repeated (do return (← evaluate iterable scope, 0)) (forOfTurn kind name body scope)
  | .forIn kind name object body => .once (runForIn kind name object body scope)
  | .block statements => .once (runBlock statements scope)
  | .breakLoop => .once (pure .broke)
  | .continueLoop => .once (pure .continued)
  | .throwValue expression => .throwing (evaluate expression scope)
  | .tryBlock block binding handler finalizer =>
      .guarded (runBlock block scope) (handler.map fun handler => runHandler binding handler scope)
        (finalizer.map fun finalizer => runFinalizer finalizer scope)

/-! ## Calls -/

/-- Binds parameters to arguments; a parameter without one is `undefined`. -/
def bindParameters (scope : ScopeId) : List String → List Value → Eval Unit
  | [], _ => pure ()
  | name :: rest, [] => do
      declare scope name .undefined true
      bindParameters scope rest []
  | name :: rest, value :: values => do
      declare scope name value true
      bindParameters scope rest values

/-- The value that the body of a function returns.  A loop statement that ends
    outside a loop ends nothing else. -/
def runBody (scope : ScopeId) : List Stmt → Eval Value
  | [] => pure .undefined
  | statement :: rest => do
      match ← execute statement scope with
      | .returned value => pure value
      | _ => runBody scope rest

def invoke (closure : Closure) (arguments : List Value) : Eval Value := do
  let scope ← newScope closure.scope true
  bindParameters scope closure.definition.parameters arguments
  match closure.definition.body with
  | .expression expression => evaluate expression scope
  | .block statements =>
      hoist statements scope
      runBody scope statements

def callRule (function : Value) (arguments : List Value) : Rule Value :=
  match function with
  | .closure closure => .once (invoke closure arguments)
  | .builtin builtin => .once (builtin.apply arguments)
  | .bound _ method => method.rule arguments
  | other => .once do typeError (.notAFunction (← display other))

/-! ## Programs -/

/-- A statement that does not end normally ends the program. -/
def programRule (statements : List Stmt) : Eval Unit := do
  hoist statements globalScope
  let _ ← runAll globalScope statements

def Task.rule : (task : Task) → Rule task.Answer
  | .statement form scope => statementRule form scope
  | .expression form scope => .once (expressionRule form scope)
  | .call function arguments => callRule function arguments

end StrategyQubo.Script
