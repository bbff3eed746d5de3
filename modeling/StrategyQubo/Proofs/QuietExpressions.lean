import StrategyQubo.Proofs.Asking

namespace StrategyQubo.Script

/-! # Quiet expressions

Evaluating an expression makes no scope and declares nothing.  It asks for other
expressions and for calls, and leaves what these do to them.
-/

open Eval

variable {allowed : Task → Prop}

namespace Eval

theorem propertyKey_quiet (value : Value) : (propertyKey value).Quiet allowed :=
  heap_quiet.bind fun _ => trivial

theorem toNumber_quiet (value : Value) : (toNumber value).Quiet allowed :=
  heap_quiet.bind fun _ => trivial

theorem lookup_quiet (scope : ScopeId) (name : String) : (lookup scope name).Quiet allowed :=
  operate_quiet rfl

theorem assign_quiet (scope : ScopeId) (name : String) (value : Value) :
    (assign scope name value).Quiet allowed :=
  operate_quiet rfl

end Eval

/-! ## Operators and places -/

theorem addValues_quiet (left right : Value) : (addValues left right).Quiet allowed := by
  unfold addValues
  split
  · exact (stringify_quiet left).bind fun _ => (stringify_quiet right).bind fun _ =>
      (checkLength_quiet _).bind fun _ => trivial
  · exact heap_quiet.bind fun _ => trivial

theorem insideValue_quiet (left right : Value) : (insideValue left right).Quiet allowed := by
  refine (propertyKey_quiet left).bind fun key => heap_quiet.bind fun h => ?_
  cases h.hasKey? right key with
  | some found => trivial
  | none => exact (display_quiet right).bind fun _ => typeError_quiet _

theorem BinaryOp.apply_quiet (op : BinaryOp) (left right : Value) :
    (op.apply left right).Quiet allowed := by
  cases op with
  | add => exact addValues_quiet left right
  | inside => exact insideValue_quiet left right
  | strictEqual => trivial
  | strictNotEqual => trivial
  | _ => exact heap_quiet.bind fun _ => trivial

theorem UnaryOp.apply_quiet (op : UnaryOp) (value : Value) : (op.apply value).Quiet allowed := by
  cases op with
  | negate => exact (toNumber_quiet value).bind fun _ => trivial
  | plus => exact (toNumber_quiet value).bind fun _ => trivial
  | _ => trivial

theorem readPlace_quiet (place : Place) (scope : ScopeId) :
    (readPlace place scope).Quiet allowed := by
  cases place with
  | name name => exact lookup_quiet scope name
  | property owner key =>
      exact (propertyKey_quiet key).bind fun _ => getProperty_quiet owner _

theorem writePlace_quiet (place : Place) (value : Value) (scope : ScopeId) :
    (writePlace place value scope).Quiet allowed := by
  cases place with
  | name name => exact assign_quiet scope name value
  | property owner key => exact (propertyKey_quiet key).bind fun _ => operate_quiet rfl

/-! ## Expressions -/

section

variable (expressions : ∀ expression scope, allowed (.expression expression scope))

include expressions

theorem evaluate_quiet (expression : Expr) (scope : ScopeId) :
    (evaluate expression scope).Quiet allowed :=
  ⟨expressions expression scope, fun _ => trivial⟩

theorem placeOf_quiet (target : Expr) (scope : ScopeId) : (placeOf target scope).Quiet allowed := by
  have evaluates (part : Expr) := evaluate_quiet expressions part scope
  cases target with
  | member object property => exact (evaluates object).bind fun _ => trivial
  | index object key => exact (evaluates object).bind fun _ => (evaluates key).bind fun _ => trivial
  | _ => trivial

theorem evaluateAll_quiet (scope : ScopeId) (parts : List Expr) (values : List Value) :
    (evaluateAll scope parts values).Quiet allowed := by
  induction parts generalizing values with
  | nil => trivial
  | cons first rest ih => exact (evaluate_quiet expressions first scope).bind fun _ => ih _

theorem templateText_quiet (scope : ScopeId) (parts : List TemplatePart) (text : String) :
    (templateText scope parts text).Quiet allowed := by
  induction parts generalizing text with
  | nil => trivial
  | cons part rest ih =>
      cases part with
      | text content => exact (checkLength_quiet _).bind fun _ => ih _
      | hole value =>
          exact (evaluate_quiet expressions value scope).bind fun _ =>
            (stringify_quiet _).bind fun _ => (checkLength_quiet _).bind fun _ => ih _

theorem propertiesOf_quiet (scope : ScopeId) (properties : List Property) (record : Record) :
    (propertiesOf scope properties record).Quiet allowed := by
  have evaluates (part : Expr) := evaluate_quiet expressions part scope
  induction properties generalizing record with
  | nil => trivial
  | cons property rest ih =>
      obtain ⟨key, value⟩ := property
      have named : (keyOf scope key).Quiet allowed := by
        cases key with
        | fixed name => trivial
        | computed part => exact (evaluates part).bind fun _ => propertyKey_quiet _
      exact named.bind fun _ => (evaluates value).bind fun _ => ih _

theorem typeOfExpression_quiet (operand : Expr) (scope : ScopeId) :
    (typeOfExpression operand scope).Quiet allowed := by
  have typed (unbound : Bool) : Quiet allowed (if unbound then
      (pure (.string "undefined") : Eval Value)
      else do pure (.string (← evaluate operand scope).typeName)) := by
    split
    · trivial
    · exact (evaluate_quiet expressions operand scope).bind fun _ => trivial
  cases operand with
  | identifier name => exact (operate_quiet rfl).bind fun found => typed !found
  | _ => exact typed false

theorem updateExpression_quiet (increment before : Bool) (target : Expr) (scope : ScopeId) :
    (updateExpression increment before target scope).Quiet allowed :=
  (placeOf_quiet expressions target scope).bind fun place =>
    (readPlace_quiet place scope).bind fun old => (toNumber_quiet old).bind fun _ =>
      (writePlace_quiet place _ scope).bind fun _ => trivial

theorem assignExpression_quiet (op : Option BinaryOp) (target source : Expr) (scope : ScopeId) :
    (assignExpression op target source scope).Quiet allowed := by
  have evaluates := evaluate_quiet expressions source scope
  refine (placeOf_quiet expressions target scope).bind fun place => ?_
  have written (value : Value) : Quiet allowed (do
      writePlace place value scope
      pure value) :=
    (writePlace_quiet place value scope).bind fun _ => trivial
  cases op with
  | none => exact evaluates.bind written
  | some op =>
      exact (readPlace_quiet place scope).bind fun _ => evaluates.bind fun _ =>
        (op.apply_quiet _ _).bind written

variable (calls : ∀ function arguments, allowed (.call function arguments))

include calls

omit expressions in
theorem call_quiet (function : Value) (arguments : List Value) :
    (call function arguments).Quiet allowed :=
  ⟨calls function arguments, fun _ => trivial⟩

theorem callExpression_quiet (callee : Expr) (arguments : List Expr) (scope : ScopeId) :
    (callExpression callee arguments scope).Quiet allowed := by
  refine (evaluate_quiet expressions callee scope).bind fun function => ?_
  split
  · exact (evaluateAll_quiet expressions scope arguments []).bind fun _ =>
      call_quiet calls _ _
  · exact typeError_quiet _

theorem constructExpression_quiet (callee : Expr) (arguments : List Expr) (scope : ScopeId) :
    (constructExpression callee arguments scope).Quiet allowed := by
  refine (evaluate_quiet expressions callee scope).bind fun function =>
    (evaluateAll_quiet expressions scope arguments []).bind fun values => ?_
  split
  · refine (call_quiet calls function values).bind fun made => ?_
    cases made with
    | array ref => trivial
    | object ref => trivial
    | _ => exact newObject_quiet []
  · exact typeError_quiet _

theorem expressionRule_quiet (expression : Expr) (scope : ScopeId) :
    (expressionRule expression scope).Quiet allowed := by
  have evaluates (part : Expr) := evaluate_quiet expressions part scope
  cases expression with
  | template parts => exact (templateText_quiet expressions scope parts "").bind fun _ => trivial
  | identifier name => exact lookup_quiet scope name
  | array elements =>
      exact (checkLength_quiet _).bind fun _ =>
        (evaluateAll_quiet expressions scope elements []).bind fun _ => newArray_quiet _
  | object properties =>
      exact (propertiesOf_quiet expressions scope properties []).bind fun _ => newObject_quiet _
  | function definition => exact operate_quiet rfl
  | unary op operand =>
      cases op with
      | typeof => exact typeOfExpression_quiet expressions operand scope
      | _ => exact (evaluates operand).bind fun _ => UnaryOp.apply_quiet _ _
  | update increment before target =>
      exact updateExpression_quiet expressions increment before target scope
  | binary op left right =>
      exact (evaluates left).bind fun _ => (evaluates right).bind fun _ => op.apply_quiet _ _
  | logical op left right =>
      refine (evaluates left).bind fun value => ?_
      split
      · trivial
      · exact evaluates right
  | conditional condition consequent alternative =>
      refine (evaluates condition).bind fun value => ?_
      split
      · exact evaluates consequent
      · exact evaluates alternative
  | assign op target source => exact assignExpression_quiet expressions op target source scope
  | member object property => exact (evaluates object).bind fun _ => getProperty_quiet _ _
  | index object key =>
      exact (evaluates object).bind fun _ => (evaluates key).bind fun _ =>
        (propertyKey_quiet _).bind fun _ => getProperty_quiet _ _
  | call callee arguments => exact callExpression_quiet expressions calls callee arguments scope
  | construct callee arguments =>
      exact constructExpression_quiet expressions calls callee arguments scope
  | _ => trivial

end

end StrategyQubo.Script
