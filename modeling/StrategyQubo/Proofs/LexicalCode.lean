import Mathlib.Data.Set.Insert
import StrategyQubo.Proofs.ScopeRegions

namespace StrategyQubo.Script

/-! # Where code acts

Code that is evaluated in a scope looks up, binds and makes things in that scope
and in scopes that it makes there, and has its parts evaluated there too.  Only
calls lead elsewhere.
-/

open Eval

/-! ## Programs -/

/-- The scope in which a part is evaluated.  A call is not: what it does is up to
    the function. -/
def Task.at? : Task → Option ScopeId
  | .statement _ scope => some scope
  | .expression _ scope => some scope
  | .call _ _ => none

def Operation.made : (op : Operation) → op.Answer → Set ScopeId
  | .newScope _ _, scope => {scope}
  | _, _ => ∅

/-- All that is done and asked for is at one of the scopes, or at one that has been
    made since.  In the end it is as expected of the scopes that there are then. -/
def Eval.Local {α : Type} (expected : Set ScopeId → α → Prop) : Eval α → Set ScopeId → Prop
  | .done value, scopes => expected scopes value
  | .perform op next, scopes => (∀ scope ∈ op.at?, scope ∈ scopes) ∧
      ∀ answer, (next answer).Local expected (scopes ∪ op.made answer)
  | .ask task next, scopes => (∀ scope ∈ task.at?, scope ∈ scopes) ∧
      ∀ answer, (next answer).Local expected scopes

/-- One scope is enough. -/
def Eval.ActsAt {α : Type} (scope : ScopeId) (eval : Eval α) : Prop :=
  ∀ scopes : Set ScopeId, scope ∈ scopes → eval.Local (fun _ _ => True) scopes

/-- Between turns of a loop an invariant holds of the scopes and the state. -/
def Rule.ActsAt {α : Type} (scope : ScopeId) : Rule α → Prop
  | .once eval => eval.ActsAt scope
  | .repeated first turn => ∃ invariant, (∀ scopes, scope ∈ scopes → first.Local invariant scopes) ∧
      ∀ state scopes, scope ∈ scopes → invariant scopes state →
        (turn state).Local (fun wider reached => reached.Again (invariant wider)) scopes
  | .guarded body handler finalizer => body.ActsAt scope ∧
      (∀ clause ∈ handler, ∀ given, (clause given).ActsAt scope) ∧
        ∀ last ∈ finalizer, last.ActsAt scope
  | .throwing value => value.ActsAt scope

section

variable {α β : Type} {scope : ScopeId} {scopes : Set ScopeId}

namespace Eval

theorem Local.bind {first : Eval α} {next : α → Eval β} {expected : Set ScopeId → α → Prop}
    {expected' : Set ScopeId → β → Prop} (here : first.Local expected scopes)
    (later : ∀ wider value, scopes ⊆ wider → expected wider value →
      (next value).Local expected' wider) : (first >>= next).Local expected' scopes := by
  induction first generalizing scopes with
  | done value => exact later scopes value subset_rfl here
  | perform op rest ih =>
      refine ⟨here.1, fun answer => ih answer (here.2 answer) fun wider value grown => ?_⟩
      exact later wider value (Set.subset_union_left.trans grown)
  | ask task rest ih => exact ⟨here.1, fun answer => ih answer (here.2 answer) later⟩

theorem Local.mono {eval : Eval α} {expected weaker : Set ScopeId → α → Prop}
    (here : eval.Local expected scopes)
    (implies : ∀ wider value, expected wider value → weaker wider value) :
    eval.Local weaker scopes := by
  induction eval generalizing scopes with
  | done value => exact implies scopes value here
  | perform op next ih => exact ⟨here.1, fun answer => ih answer (here.2 answer)⟩
  | ask task next ih => exact ⟨here.1, fun answer => ih answer (here.2 answer)⟩

theorem done_actsAt (value : α) : (pure value : Eval α).ActsAt scope :=
  fun _ _ => trivial

theorem ActsAt.bind {first : Eval α} {next : α → Eval β} (here : first.ActsAt scope)
    (later : ∀ value, (next value).ActsAt scope) : (first >>= next).ActsAt scope :=
  fun scopes within => (here scopes within).bind fun wider value grown _ =>
    later value wider (grown within)

theorem operate_actsAt {op : Operation} (at_ : ∀ place ∈ op.at?, place = scope) :
    (operate op).ActsAt scope :=
  fun _ within => ⟨fun place found => at_ place found ▸ within, fun _ => trivial⟩

theorem ask_actsAt {task : Task} (at_ : ∀ place ∈ task.at?, place = scope) :
    (Eval.ask task .done).ActsAt scope :=
  fun _ within => ⟨fun place found => at_ place found ▸ within, fun _ => trivial⟩

/-- What is done in a scope that has just been made can be done there. -/
theorem newScope_actsAt {isFunction : Bool} {next : ScopeId → Eval α}
    (later : ∀ inner, (next inner).ActsAt inner) :
    (newScope scope isFunction >>= next).ActsAt scope := by
  intro scopes within
  refine ⟨fun place found => ?_, fun inner => later inner _ (Set.mem_union_right _ rfl)⟩
  cases found
  exact within

theorem evaluate_actsAt (expression : Expr) : (evaluate expression scope).ActsAt scope :=
  ask_actsAt fun _ found => (Option.some.inj found).symm

theorem execute_actsAt (statement : Stmt) : (execute statement scope).ActsAt scope :=
  ask_actsAt fun _ found => (Option.some.inj found).symm

theorem call_actsAt (function : Value) (arguments : List Value) :
    (call function arguments).ActsAt scope :=
  ask_actsAt nofun

theorem heap_actsAt : heap.ActsAt scope :=
  operate_actsAt nofun

theorem typeError_actsAt (fault : TypeFault) : (typeError fault : Eval α).ActsAt scope :=
  fun _ _ => ⟨nofun, fun never => never.elim⟩

theorem checkLength_actsAt (requested : Nat) : (checkLength requested).ActsAt scope :=
  operate_actsAt nofun

theorem stringify_actsAt (value : Value) : (stringify value).ActsAt scope :=
  operate_actsAt nofun

theorem declare_actsAt (name : String) (value : Value) (isMutable : Bool) :
    (declare scope name value isMutable).ActsAt scope :=
  operate_actsAt fun _ found => (Option.some.inj found).symm

theorem assign_actsAt (name : String) (value : Value) : (assign scope name value).ActsAt scope :=
  operate_actsAt fun _ found => (Option.some.inj found).symm

theorem newClosure_actsAt (definition : FunctionDef) : (newClosure definition scope).ActsAt scope :=
  operate_actsAt fun _ found => (Option.some.inj found).symm

theorem display_actsAt (value : Value) : (display value).ActsAt scope :=
  heap_actsAt.bind fun _ => done_actsAt _

theorem propertyKey_actsAt (value : Value) : (propertyKey value).ActsAt scope :=
  heap_actsAt.bind fun _ => done_actsAt _

theorem toNumber_actsAt (value : Value) : (toNumber value).ActsAt scope :=
  heap_actsAt.bind fun _ => done_actsAt _

theorem getProperty_actsAt (target : Value) (key : String) :
    (getProperty target key).ActsAt scope := by
  apply heap_actsAt.bind
  intro h
  split
  · exact done_actsAt _
  · exact operate_actsAt nofun
  · exact typeError_actsAt _

end Eval

/-! ## Operators and places -/

theorem addValues_actsAt (left right : Value) : (addValues left right).ActsAt scope := by
  unfold addValues
  split
  · exact (stringify_actsAt left).bind fun _ => (stringify_actsAt right).bind fun _ =>
      (checkLength_actsAt _).bind fun _ => done_actsAt _
  · exact heap_actsAt.bind fun _ => done_actsAt _

theorem insideValue_actsAt (left right : Value) : (insideValue left right).ActsAt scope := by
  apply (propertyKey_actsAt left).bind
  intro key
  apply heap_actsAt.bind
  intro h
  split
  · exact done_actsAt _
  · exact (display_actsAt right).bind fun _ => typeError_actsAt _

theorem BinaryOp.apply_actsAt (op : BinaryOp) (left right : Value) :
    (op.apply left right).ActsAt scope := by
  cases op with
  | add => exact addValues_actsAt left right
  | inside => exact insideValue_actsAt left right
  | strictEqual => exact done_actsAt _
  | strictNotEqual => exact done_actsAt _
  | _ => exact heap_actsAt.bind fun _ => done_actsAt _

theorem UnaryOp.apply_actsAt (op : UnaryOp) (value : Value) : (op.apply value).ActsAt scope := by
  cases op with
  | negate => exact (toNumber_actsAt value).bind fun _ => done_actsAt _
  | plus => exact (toNumber_actsAt value).bind fun _ => done_actsAt _
  | _ => exact done_actsAt _

theorem readPlace_actsAt (place : Place) : (readPlace place scope).ActsAt scope := by
  cases place with
  | name name => exact operate_actsAt fun _ found => (Option.some.inj found).symm
  | property owner key => exact (propertyKey_actsAt key).bind fun _ => getProperty_actsAt owner _

theorem writePlace_actsAt (place : Place) (value : Value) :
    (writePlace place value scope).ActsAt scope := by
  cases place with
  | name name => exact assign_actsAt name value
  | property owner key => exact (propertyKey_actsAt key).bind fun _ => operate_actsAt nofun

theorem placeOf_actsAt (target : Expr) : (placeOf target scope).ActsAt scope := by
  cases target with
  | member object property => exact (evaluate_actsAt object).bind fun _ => done_actsAt _
  | index object key =>
      exact (evaluate_actsAt object).bind fun _ => (evaluate_actsAt key).bind fun _ => done_actsAt _
  | _ => exact done_actsAt _

/-! ## Expressions -/

theorem evaluateAll_actsAt (parts : List Expr) (values : List Value) :
    (evaluateAll scope parts values).ActsAt scope := by
  induction parts generalizing values with
  | nil => exact done_actsAt _
  | cons first rest ih => exact (evaluate_actsAt first).bind fun _ => ih _

theorem templateText_actsAt (parts : List TemplatePart) (text : String) :
    (templateText scope parts text).ActsAt scope := by
  induction parts generalizing text with
  | nil => exact done_actsAt _
  | cons part rest ih =>
      cases part with
      | text content => exact (checkLength_actsAt _).bind fun _ => ih _
      | hole value =>
          exact (evaluate_actsAt value).bind fun _ => (stringify_actsAt _).bind fun _ =>
            (checkLength_actsAt _).bind fun _ => ih _

theorem keyOf_actsAt (key : PropertyKey) : (keyOf scope key).ActsAt scope := by
  cases key with
  | fixed name => exact done_actsAt _
  | computed part => exact (evaluate_actsAt part).bind fun _ => propertyKey_actsAt _

theorem propertiesOf_actsAt (properties : List Property) (record : Record) :
    (propertiesOf scope properties record).ActsAt scope := by
  induction properties generalizing record with
  | nil => exact done_actsAt _
  | cons property rest ih =>
      obtain ⟨key, value⟩ := property
      exact (keyOf_actsAt key).bind fun _ => (evaluate_actsAt value).bind fun _ => ih _

theorem typeOfExpression_actsAt (operand : Expr) : (typeOfExpression operand scope).ActsAt scope := by
  have typed (unbound : Bool) : Eval.ActsAt scope (if unbound then
      (pure (.string "undefined") : Eval Value)
      else do pure (.string (← evaluate operand scope).typeName)) := by
    split
    · exact done_actsAt _
    · exact (evaluate_actsAt operand).bind fun _ => done_actsAt _
  cases operand with
  | identifier name =>
      have looks : (resolves scope name).ActsAt scope :=
        operate_actsAt fun _ found => (Option.some.inj found).symm
      exact looks.bind fun found => typed !found
  | _ => exact typed false

theorem updateExpression_actsAt (increment before : Bool) (target : Expr) :
    (updateExpression increment before target scope).ActsAt scope :=
  (placeOf_actsAt target).bind fun place => (readPlace_actsAt place).bind fun old =>
    (toNumber_actsAt old).bind fun _ => (writePlace_actsAt place _).bind fun _ => done_actsAt _

theorem assignExpression_actsAt (op : Option BinaryOp) (target source : Expr) :
    (assignExpression op target source scope).ActsAt scope := by
  apply (placeOf_actsAt target).bind
  intro place
  have written (value : Value) : Eval.ActsAt scope (do
      writePlace place value scope
      pure value) :=
    (writePlace_actsAt place value).bind fun _ => done_actsAt _
  cases op with
  | none => exact (evaluate_actsAt source).bind written
  | some op =>
      exact (readPlace_actsAt place).bind fun _ => (evaluate_actsAt source).bind fun _ =>
        (op.apply_actsAt _ _).bind written

theorem callExpression_actsAt (callee : Expr) (arguments : List Expr) :
    (callExpression callee arguments scope).ActsAt scope := by
  apply (evaluate_actsAt callee).bind
  intro function
  split
  · exact (evaluateAll_actsAt arguments []).bind fun _ => call_actsAt _ _
  · exact typeError_actsAt _

theorem constructExpression_actsAt (callee : Expr) (arguments : List Expr) :
    (constructExpression callee arguments scope).ActsAt scope := by
  apply (evaluate_actsAt callee).bind
  intro function
  apply (evaluateAll_actsAt arguments []).bind
  intro values
  split
  · apply (call_actsAt function values).bind
    intro made
    split
    · exact done_actsAt _
    · exact done_actsAt _
    · exact operate_actsAt nofun
  · exact typeError_actsAt _

theorem expressionRule_actsAt (expression : Expr) :
    (expressionRule expression scope).ActsAt scope := by
  have evaluates (part : Expr) : (evaluate part scope).ActsAt scope := evaluate_actsAt part
  cases expression with
  | template parts => exact (templateText_actsAt parts "").bind fun _ => done_actsAt _
  | identifier name => exact operate_actsAt fun _ found => (Option.some.inj found).symm
  | array elements =>
      exact (checkLength_actsAt _).bind fun _ => (evaluateAll_actsAt elements []).bind fun _ =>
        operate_actsAt nofun
  | object properties => exact (propertiesOf_actsAt properties []).bind fun _ => operate_actsAt nofun
  | function definition => exact newClosure_actsAt definition
  | unary op operand =>
      cases op with
      | typeof => exact typeOfExpression_actsAt operand
      | _ => exact (evaluates operand).bind fun _ => UnaryOp.apply_actsAt _ _
  | update increment before target => exact updateExpression_actsAt increment before target
  | binary op left right =>
      exact (evaluates left).bind fun _ => (evaluates right).bind fun _ => op.apply_actsAt _ _
  | logical op left right =>
      apply (evaluates left).bind
      intro value
      split
      · exact done_actsAt _
      · exact evaluates right
  | conditional condition consequent alternative =>
      apply (evaluates condition).bind
      intro value
      split
      · exact evaluates consequent
      · exact evaluates alternative
  | assign op target source => exact assignExpression_actsAt op target source
  | member object property => exact (evaluates object).bind fun _ => getProperty_actsAt _ property
  | index object key =>
      exact (evaluates object).bind fun _ => (evaluates key).bind fun _ =>
        (propertyKey_actsAt _).bind fun _ => getProperty_actsAt _ _
  | call callee arguments => exact callExpression_actsAt callee arguments
  | construct callee arguments => exact constructExpression_actsAt callee arguments
  | _ => exact done_actsAt _

/-! ## Statements -/

theorem declareFunctions_actsAt (functions : List (String × FunctionDef)) :
    (declareFunctions scope functions).ActsAt scope := by
  induction functions with
  | nil => exact done_actsAt _
  | cons function rest ih =>
      exact (newClosure_actsAt function.2).bind fun value =>
        (declare_actsAt function.1 value true).bind fun _ => ih

theorem runAll_actsAt (statements : List Stmt) : (runAll scope statements).ActsAt scope := by
  induction statements with
  | nil => exact done_actsAt _
  | cons statement rest ih =>
      apply (execute_actsAt statement).bind
      intro flow
      cases flow with
      | normal => exact ih
      | _ => exact done_actsAt _

theorem runBlock_actsAt (statements : List Stmt) : (runBlock statements scope).ActsAt scope := by
  unfold runBlock
  split
  · apply newScope_actsAt
    intro inner
    exact (declareFunctions_actsAt _).bind fun _ => runAll_actsAt statements
  · exact runAll_actsAt statements

/-- A name of a declaration is bound, and the declarators behind it run. -/
theorem bindDeclarator_actsAt (kind : Declaration) (name : String) (given : Bool) (value : Value)
    {rest : List Declarator} (others : (runDeclarators kind scope rest).ActsAt scope) :
    Eval.ActsAt scope (do
      match kind with
      | .var => if given then assign scope name value else pure ()
      | .lexical => declare scope name value true
      | .constant => declare scope name value false
      runDeclarators kind scope rest) := by
  cases kind with
  | var =>
      dsimp only
      split
      · exact (assign_actsAt name value).bind fun _ => others
      · exact others
  | lexical => exact (declare_actsAt name value true).bind fun _ => others
  | constant => exact (declare_actsAt name value false).bind fun _ => others

theorem runDeclarators_actsAt (kind : Declaration) (declarators : List Declarator) :
    (runDeclarators kind scope declarators).ActsAt scope := by
  induction declarators with
  | nil => exact done_actsAt _
  | cons declarator rest ih =>
      obtain ⟨name, initial⟩ := declarator
      cases initial with
      | none => exact bindDeclarator_actsAt kind name false .undefined ih
      | some expression =>
          exact (evaluate_actsAt expression).bind fun value =>
            bindDeclarator_actsAt kind name true value ih

theorem runHandler_actsAt (binding : Option String) (handler : List Stmt) (caught : Value) :
    (runHandler binding handler scope caught).ActsAt scope := by
  apply newScope_actsAt
  intro inner
  cases binding with
  | none => exact runBlock_actsAt handler
  | some name => exact (declare_actsAt name caught true).bind fun _ => runBlock_actsAt handler

theorem runFinalizer_actsAt (finalizer : List Stmt) :
    (runFinalizer finalizer scope).ActsAt scope := by
  apply (runBlock_actsAt finalizer).bind
  intro flow
  cases flow <;> exact done_actsAt _

theorem runIfElse_actsAt (condition : Expr) (consequent : Stmt) (alternative : Option Stmt) :
    (runIfElse condition consequent alternative scope).ActsAt scope := by
  apply (evaluate_actsAt condition).bind
  intro value
  split
  · exact execute_actsAt consequent
  · cases alternative with
    | none => exact done_actsAt _
    | some other => exact execute_actsAt other

/-! ## Loops -/

/-- A turn that needs no state but the scope in which the loop runs. -/
theorem Eval.ActsAt.again {σ : Type} {turn : Eval (Turn σ α)} (here : turn.ActsAt scope) :
    ∀ scopes, scope ∈ scopes →
      turn.Local (fun _ reached => reached.Again fun _ => True) scopes := by
  intro scopes within
  apply (here scopes within).mono
  intro wider reached _
  cases reached <;> trivial

theorem whileTurn_actsAt (condition : Expr) (body : Stmt) :
    (whileTurn condition body scope).ActsAt scope := by
  apply (evaluate_actsAt condition).bind
  intro value
  split
  · apply (execute_actsAt body).bind
    intro flow
    cases flow.afterBody? <;> exact done_actsAt _
  · exact done_actsAt _

theorem doWhileTurn_actsAt (body : Stmt) (condition : Expr) :
    (doWhileTurn body condition scope).ActsAt scope := by
  apply (execute_actsAt body).bind
  intro flow
  cases flow.afterBody? with
  | some last => exact done_actsAt _
  | none =>
      apply (evaluate_actsAt condition).bind
      intro value
      split <;> exact done_actsAt _

/-- The scope of a counting loop is the one around it or a new one. -/
theorem forStart_local (initial : Option Stmt) (within : scope ∈ scopes) :
    (forStart initial scope).Local (fun wider inner => inner ∈ wider) scopes := by
  have starts {inner : ScopeId} {scopes : Set ScopeId} (statement : Stmt) (within : inner ∈ scopes) :
      Eval.Local (fun wider inner => inner ∈ wider) (do
        let _ ← execute statement inner
        pure inner) scopes :=
    (execute_actsAt statement scopes within).bind fun wider _ grown _ => grown within
  have apart (statement : Stmt) : Eval.Local (fun wider inner => inner ∈ wider) (do
      let inner ← newScope scope false
      let _ ← execute statement inner
      pure inner) scopes := by
    refine ⟨fun place found => ?_, fun inner => ?_⟩
    · cases found
      exact within
    · exact starts statement (Set.mem_union_right _ rfl)
  cases initial with
  | none => exact within
  | some statement =>
      cases statement with
      | declaration kind declarators =>
          cases kind with
          | var => exact starts _ within
          | _ => exact apart _
      | _ => exact starts _ within

theorem forTurn_local (condition update : Option Expr) (body : Stmt) (within : scope ∈ scopes) :
    (forTurn condition update body scope).Local
      (fun wider reached => reached.Again (· ∈ wider)) scopes := by
  have holds : (forCondition scope condition).ActsAt scope := by
    cases condition with
    | some expression => exact (evaluate_actsAt expression).bind fun _ => done_actsAt _
    | none =>
        have ticks : tick.ActsAt scope := operate_actsAt nofun
        exact ticks.bind fun _ => done_actsAt _
  -- The state that comes out is the scope itself, so it is followed through the turn.
  apply (holds scopes within).bind
  intro wider value grown _
  split
  · apply (execute_actsAt body wider (grown within)).bind
    intro wider' flow grown' _
    cases flow.afterBody? with
    | some last => trivial
    | none =>
        cases update with
        | some expression =>
            apply (evaluate_actsAt expression wider' (grown' (grown within))).bind
            intro last _ grown'' _
            exact grown'' (grown' (grown within))
        | none => exact grown' (grown within)
  · trivial

theorem walkBody_actsAt (kind : Option Declaration) (name : String) (item : Value) (body : Stmt) :
    (walkBody kind name item body scope).ActsAt scope := by
  have apart (isMutable : Bool) : Eval.ActsAt scope (do
      let inner ← newScope scope false
      declare inner name item isMutable
      execute body inner) := by
    apply newScope_actsAt
    intro inner
    exact (declare_actsAt name item isMutable).bind fun _ => execute_actsAt body
  have around : Eval.ActsAt scope (do
      assign scope name item
      execute body scope) :=
    (assign_actsAt name item).bind fun _ => execute_actsAt body
  cases kind with
  | none => exact around
  | some kind =>
      cases kind with
      | var => exact around
      | lexical => exact apart true
      | constant => exact apart false

theorem itemAt_actsAt (collection : Value) (index : Nat) :
    (itemAt collection index).ActsAt scope := by
  cases collection with
  | array ref => exact heap_actsAt.bind fun _ => done_actsAt _
  | string text => exact done_actsAt _
  | _ => exact (display_actsAt _).bind fun _ => typeError_actsAt _

theorem forOfTurn_actsAt (kind : Option Declaration) (name : String) (body : Stmt)
    (state : Value × Nat) : (forOfTurn kind name body scope state).ActsAt scope := by
  apply (itemAt_actsAt state.1 state.2).bind
  intro item?
  cases item? with
  | none => exact done_actsAt _
  | some item =>
      apply (walkBody_actsAt kind name item body).bind
      intro flow
      cases flow.afterBody? <;> exact done_actsAt _

theorem forInTurns_actsAt (kind : Option Declaration) (name : String) (body : Stmt)
    (keys : List String) : (forInTurns kind name body scope keys).ActsAt scope := by
  induction keys with
  | nil => exact done_actsAt _
  | cons key rest ih =>
      apply (walkBody_actsAt kind name (.string key) body).bind
      intro flow
      cases flow.afterBody? with
      | some last => exact done_actsAt _
      | none => exact ih

/-! ## Tasks -/

theorem statementRule_actsAt (statement : Stmt) : (statementRule statement scope).ActsAt scope := by
  cases statement with
  | declaration kind declarators =>
      exact (runDeclarators_actsAt kind declarators).bind fun _ => done_actsAt _
  | expression value => exact (evaluate_actsAt value).bind fun _ => done_actsAt _
  | returnWith value =>
      cases value with
      | none => exact done_actsAt _
      | some value => exact (evaluate_actsAt value).bind fun _ => done_actsAt _
  | ifElse condition consequent alternative =>
      exact runIfElse_actsAt condition consequent alternative
  | whileLoop condition body =>
      exact ⟨fun _ _ => True, fun _ _ => trivial, fun _ scopes within _ =>
        (whileTurn_actsAt condition body).again scopes within⟩
  | doWhile body condition =>
      exact ⟨fun _ _ => True, fun _ _ => trivial, fun _ scopes within _ =>
        (doWhileTurn_actsAt body condition).again scopes within⟩
  | forLoop initial condition update body =>
      exact ⟨fun scopes inner => inner ∈ scopes, fun _ => forStart_local initial,
        fun _ _ _ => forTurn_local condition update body⟩
  | forOf kind name iterable body =>
      exact ⟨fun _ _ => True, (evaluate_actsAt iterable).bind fun _ => done_actsAt _,
        fun state scopes within _ => (forOfTurn_actsAt kind name body state).again scopes within⟩
  | forIn kind name object body =>
      exact (evaluate_actsAt object).bind fun _ => heap_actsAt.bind fun _ =>
        forInTurns_actsAt kind name body _
  | block statements => exact runBlock_actsAt statements
  | throwValue value => exact evaluate_actsAt value
  | tryBlock tried binding handler finalizer =>
      refine ⟨runBlock_actsAt tried, fun clause handled given => ?_, fun final ended => ?_⟩
      · obtain ⟨statements, -, rfl⟩ := Option.map_eq_some_iff.mp handled
        exact runHandler_actsAt binding statements given
      · obtain ⟨statements, -, rfl⟩ := Option.map_eq_some_iff.mp ended
        exact runFinalizer_actsAt statements
  | _ => exact done_actsAt _

theorem bindParameters_actsAt (parameters : List String) (arguments : List Value) :
    (bindParameters scope parameters arguments).ActsAt scope := by
  induction parameters generalizing arguments with
  | nil => exact done_actsAt _
  | cons name rest ih =>
      cases arguments with
      | nil => exact (declare_actsAt name .undefined true).bind fun _ => ih []
      | cons value values => exact (declare_actsAt name value true).bind fun _ => ih values

theorem runBody_actsAt (statements : List Stmt) : (runBody scope statements).ActsAt scope := by
  induction statements with
  | nil => exact done_actsAt _
  | cons statement rest ih =>
      apply (execute_actsAt statement).bind
      intro flow
      cases flow with
      | returned value => exact done_actsAt _
      | _ => exact ih

theorem invoke_actsAt (closure : Closure) (arguments : List Value) :
    (invoke closure arguments).ActsAt closure.scope := by
  apply newScope_actsAt
  intro inner
  apply (bindParameters_actsAt closure.definition.parameters arguments).bind
  intro _
  cases closure.definition.body with
  | expression expression => exact evaluate_actsAt expression
  | block statements =>
      have missing : (declareMissing inner (Stmt.varNamesOfList statements)).ActsAt inner :=
        operate_actsAt fun _ found => (Option.some.inj found).symm
      exact missing.bind fun _ => (declareFunctions_actsAt _).bind fun _ =>
        runBody_actsAt statements

end

/-- The scope in which code belongs that is evaluated or called. -/
def Task.home? : Task → Option ScopeId
  | .call (.closure closure) _ => some closure.scope
  | task => task.at?

/-- Code acts where it belongs. -/
theorem Task.rule_actsAt {task : Task} {scope : ScopeId} (home : task.home? = some scope) :
    task.rule.ActsAt scope := by
  cases task with
  | statement form scope =>
      cases home
      exact statementRule_actsAt form
  | expression form scope =>
      cases home
      exact expressionRule_actsAt form
  | call function arguments =>
      cases function with
      | closure closure =>
          cases home
          exact invoke_actsAt closure arguments
      | _ => cases home

end StrategyQubo.Script
