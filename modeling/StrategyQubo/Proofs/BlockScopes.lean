import StrategyQubo.Proofs.GainedNames
import StrategyQubo.Proofs.QuietExpressions
import StrategyQubo.Proofs.ScopeArena

namespace StrategyQubo.Script

/-! # Scopes of blocks

A block runs in a scope of its own if a statement directly in it binds a name,
and in the scope around it otherwise.  What it may bind there all the same are
declarations that stand, without braces, for the body of a conditional or of a
loop.  By one rule after the other, nothing else is bound there.
-/

open Eval

/-! ## Exposed names -/

def Declaration.isScoped : Declaration → Bool
  | var => false
  | lexical => true
  | constant => true

def Stmt.isScopedDeclaration : Stmt → Bool
  | .declaration kind _ => kind.isScoped
  | _ => false

mutual

/-- The names that a statement may bind in the scope in which it runs, those
    apart that the function around it declares. -/
def Stmt.exposed : Stmt → List String
  | .declaration kind declarators =>
      if kind.isScoped then Declarator.namesOf declarators else []
  | .ifElse _ consequent alternative => consequent.exposed ++ Stmt.exposedOfOption alternative
  | .whileLoop _ body => body.exposed
  | .doWhile body _ => body.exposed
  | .forLoop initial _ _ body =>
      if initial.any Stmt.isScopedDeclaration then []
      else Stmt.exposedOfOption initial ++ body.exposed
  | .forOf kind _ _ body => if kind.any Declaration.isScoped then [] else body.exposed
  | .forIn kind _ _ body => if kind.any Declaration.isScoped then [] else body.exposed
  | .block statements =>
      if statements.any Stmt.bindsInBlock then [] else Stmt.exposedOf statements
  | .tryBlock tried _ _ finalizer =>
      (if tried.any Stmt.bindsInBlock then [] else Stmt.exposedOf tried) ++
        Stmt.exposedOfOptionBlock finalizer
  | _ => []

def Stmt.exposedOfOption : Option Stmt → List String
  | none => []
  | some statement => statement.exposed

def Stmt.exposedOf : List Stmt → List String
  | [] => []
  | first :: rest => first.exposed ++ Stmt.exposedOf rest

def Stmt.exposedOfOptionBlock : Option (List Stmt) → List String
  | none => []
  | some statements =>
      if statements.any Stmt.bindsInBlock then [] else Stmt.exposedOf statements

end

/-- What the statements expose as a block. -/
def Stmt.exposedOfBlock (statements : List Stmt) : List String :=
  if statements.any Stmt.bindsInBlock then [] else Stmt.exposedOf statements

/-! ## Function scopes -/

/-- A scope of a function is the one that `var` declarations in it belong to. -/
theorem Machine.functionScopeOf_eq_self {m : Machine} {scope : ScopeId} {s : Scope}
    (found : m.scopes[scope]? = some s) (isFunction : s.isFunction = true) :
    m.functionScopeOf scope = scope := by
  obtain ⟨made, -⟩ := Array.getElem?_eq_some_iff.mp found
  obtain ⟨bound, size⟩ := Nat.exists_eq_add_one.mpr (Nat.zero_lt_of_lt made)
  rw [functionScopeOf, size, functionScopeWithin, scopeAt_of_found found, if_pos isFunction]

/-! ## Rules -/

/-- What a statement exposes may be bound where it runs. -/
def Task.Contained (own : ScopeId → String → Prop) : Task → Prop
  | .statement form scope => ∀ name ∈ form.exposed, own scope name
  | _ => True

/-- Programs that bind what they may and ask for such statements. -/
abbrev Eval.Contained {α : Type} (env : Environment) (own : ScopeId → String → Prop)
    (base : ScopeId) (eval : Eval α) : Prop :=
  eval.Confines env own base (Task.Contained own) fun _ => True

/-- So does a turn of a loop, and goes on from states that are as expected. -/
abbrev Eval.ContainedTurn {σ α : Type} (env : Environment) (own : ScopeId → String → Prop)
    (base : ScopeId) (expected : σ → Prop) (turn : Eval (Turn σ α)) : Prop :=
  turn.Confines env own base (Task.Contained own) (Turn.Again expected)

section

variable {env : Environment} {own : ScopeId → String → Prop} {base scope : ScopeId}

theorem evaluate_contained (expression : Expr) (scope : ScopeId) :
    (evaluate expression scope).Contained env own base :=
  ask_confines trivial

theorem execute_contained {statement : Stmt} (exposes : ∀ name ∈ statement.exposed, own scope name) :
    (execute statement scope).Contained env own base :=
  ask_confines exposes

/-! ### Blocks -/

theorem runAll_contained {statements : List Stmt}
    (exposes : ∀ name ∈ Stmt.exposedOf statements, own scope name) :
    (runAll scope statements).Contained env own base := by
  induction statements with
  | nil => exact .pure trivial
  | cons statement rest ih =>
      obtain ⟨first, others⟩ := List.forall_mem_append.mp exposes
      refine (execute_contained first).behind fun flow => ?_
      cases flow with
      | normal => exact ih others
      | _ => exact .pure trivial

theorem declareFunctions_contained (free : ∀ name, own scope name)
    (functions : List (String × FunctionDef)) :
    (declareFunctions scope functions).Contained env own base := by
  induction functions with
  | nil => exact .pure trivial
  | cons entry rest ih =>
      refine (operate_confines (.newClosure entry.2 scope) fun _ => trivial).behind fun value => ?_
      exact (declare_confines (free entry.1) value true).behind fun _ => ih

variable (fresh : ∀ scope name, base ≤ scope → own scope name)

include fresh

theorem runBlock_contained {statements : List Stmt}
    (exposes : ∀ name ∈ Stmt.exposedOfBlock statements, own scope name) :
    (runBlock statements scope).Contained env own base := by
  unfold runBlock
  unfold Stmt.exposedOfBlock at exposes
  split
  · refine (newScope_confines scope false).bind fun inner new => ?_
    have free : ∀ name, own inner name := fun name => fresh inner name new
    exact (declareFunctions_contained free _).behind fun _ => runAll_contained fun name _ => free name
  · next direct =>
    rw [if_neg direct] at exposes
    exact runAll_contained exposes

omit fresh in
theorem runDeclarators_contained {kind : Declaration} {declarators : List Declarator}
    (exposes : kind.isScoped = true → ∀ name ∈ Declarator.namesOf declarators, own scope name) :
    (runDeclarators kind scope declarators).Contained env own base := by
  induction declarators with
  | nil => exact .pure trivial
  | cons declarator rest ih =>
      obtain ⟨name, initial⟩ := declarator
      have later := ih fun inBlock other member =>
        exposes inBlock other (List.mem_cons_of_mem _ member)
      have binds (value : Value) : Eval.Contained env own base (do
          match kind with
          | .var => if initial.isSome then assign scope name value else pure ()
          | .lexical => declare scope name value true
          | .constant => declare scope name value false
          runDeclarators kind scope rest) := by
        cases kind with
        | var =>
            dsimp only
            split
            · exact (operate_confines (.assign scope name value) fun _ => trivial).behind fun _ => later
            · exact later
        | lexical =>
            exact (declare_confines (exposes rfl name List.mem_cons_self) value true).behind
              fun _ => later
        | constant =>
            exact (declare_confines (exposes rfl name List.mem_cons_self) value false).behind
              fun _ => later
      cases initial with
      | none => exact binds .undefined
      | some expression => exact (evaluate_contained expression scope).behind binds

/-! ### Loops -/

omit fresh in
theorem whileTurn_contained (condition : Expr) {body : Stmt}
    (exposes : ∀ name ∈ body.exposed, own scope name) :
    (whileTurn condition body scope).ContainedTurn env own base fun _ => True := by
  refine (evaluate_contained condition scope).behind fun value => ?_
  split
  · refine (execute_contained exposes).behind fun flow => ?_
    cases flow.afterBody? <;> exact .pure trivial
  · exact .pure trivial

omit fresh in
theorem doWhileTurn_contained {body : Stmt} (condition : Expr)
    (exposes : ∀ name ∈ body.exposed, own scope name) :
    (doWhileTurn body condition scope).ContainedTurn env own base fun _ => True := by
  refine (execute_contained exposes).behind fun flow => ?_
  cases flow.afterBody? with
  | some last => exact .pure trivial
  | none =>
      refine (evaluate_contained condition scope).behind fun value => ?_
      split <;> exact .pure trivial

theorem forStart_contained {initial : Option Stmt} {condition update : Option Expr} {body : Stmt}
    (exposes : ∀ name ∈ (Stmt.forLoop initial condition update body).exposed, own scope name) :
    (forStart initial scope).Confines env own base (Task.Contained own)
      fun inner => ∀ name ∈ body.exposed, own inner name := by
  have starts {statement : Stmt} {inner : ScopeId} (first : ∀ name ∈ statement.exposed, own inner name)
      (later : ∀ name ∈ body.exposed, own inner name) :
      Eval.Confines env own base (Task.Contained own) (fun inner => ∀ name ∈ body.exposed, own inner name)
        (do
          let _ ← execute statement inner
          pure inner) :=
    (execute_contained first).behind fun _ => .pure later
  have apart (statement : Stmt) : Eval.Confines env own base (Task.Contained own)
      (fun inner => ∀ name ∈ body.exposed, own inner name) (do
        let inner ← newScope scope false
        let _ ← execute statement inner
        pure inner) :=
    (newScope_confines scope false).bind fun inner new =>
      starts (fun name _ => fresh inner name new) fun name _ => fresh inner name new
  cases initial with
  | none => exact .pure exposes
  | some statement =>
      cases inBlock : statement.isScopedDeclaration with
      | true =>
          cases statement with
          | declaration kind declarators =>
              cases kind with
              | var => cases inBlock
              | _ => exact apart _
          | _ => cases inBlock
      | false =>
          simp only [Stmt.exposed, Option.any_some, inBlock, Stmt.exposedOfOption] at exposes
          obtain ⟨first, later⟩ := List.forall_mem_append.mp exposes
          cases statement with
          | declaration kind declarators =>
              cases kind with
              | var => exact starts first later
              | _ => cases inBlock
          | _ => exact starts first later

omit fresh in
theorem forTurn_contained (condition update : Option Expr) {body : Stmt}
    (exposes : ∀ name ∈ body.exposed, own scope name) :
    (forTurn condition update body scope).ContainedTurn env own base
      fun inner => ∀ name ∈ body.exposed, own inner name := by
  have holds : (forCondition scope condition).Contained env own base := by
    cases condition with
    | some expression => exact (evaluate_contained expression scope).behind fun _ => .pure trivial
    | none => exact (operate_confines .tick fun _ => trivial).behind fun _ => .pure trivial
  refine holds.behind fun value => ?_
  split
  · refine (execute_contained exposes).behind fun flow => ?_
    cases flow.afterBody? with
    | some last => exact .pure trivial
    | none =>
        cases update with
        | some expression => exact (evaluate_contained expression scope).behind fun _ => .pure exposes
        | none => exact .pure exposes
  · exact .pure trivial

theorem walkBody_contained {kind : Option Declaration} (name : String) (item : Value) {body : Stmt}
    (exposes : kind.any Declaration.isScoped = false → ∀ name ∈ body.exposed, own scope name) :
    (walkBody kind name item body scope).Contained env own base := by
  have apart (isMutable : Bool) : Eval.Contained env own base (do
      let inner ← newScope scope false
      declare inner name item isMutable
      execute body inner) :=
    (newScope_confines scope false).bind fun inner new =>
      (declare_confines (fresh inner name new) item isMutable).behind fun _ =>
        execute_contained fun name _ => fresh inner name new
  have inside (exposes : ∀ name ∈ body.exposed, own scope name) : Eval.Contained env own base (do
      assign scope name item
      execute body scope) :=
    (operate_confines (.assign scope name item) fun _ => trivial).behind fun _ =>
      execute_contained exposes
  cases kind with
  | none => exact inside (exposes rfl)
  | some kind =>
      cases kind with
      | var => exact inside (exposes rfl)
      | lexical => exact apart true
      | constant => exact apart false

theorem forOfTurn_contained {kind : Option Declaration} (name : String) {body : Stmt}
    (exposes : kind.any Declaration.isScoped = false → ∀ name ∈ body.exposed, own scope name)
    (state : Value × Nat) :
    (forOfTurn kind name body scope state).ContainedTurn env own base fun _ => True := by
  have item : (itemAt state.1 state.2).Quiet (Task.Contained own) := by
    cases state.1 with
    | array ref => exact heap_quiet.bind fun _ => trivial
    | string text => trivial
    | _ => exact (display_quiet _).bind fun _ => typeError_quiet _
  refine item.confines.behind fun item? => ?_
  cases item? with
  | none => exact .pure trivial
  | some item =>
      refine (walkBody_contained fresh name item exposes).behind fun flow => ?_
      cases flow.afterBody? <;> exact .pure trivial

theorem forInTurns_contained {kind : Option Declaration} (name : String) {body : Stmt}
    (exposes : kind.any Declaration.isScoped = false → ∀ name ∈ body.exposed, own scope name)
    (keys : List String) : (forInTurns kind name body scope keys).Contained env own base := by
  induction keys with
  | nil => exact .pure trivial
  | cons key rest ih =>
      refine (walkBody_contained fresh name (.string key) exposes).behind fun flow => ?_
      cases flow.afterBody? with
      | some last => exact .pure trivial
      | none => exact ih

/-! ### Statements -/

theorem runHandler_contained (binding : Option String) (handler : List Stmt) (caught : Value) :
    (runHandler binding handler scope caught).Contained env own base := by
  refine (newScope_confines scope false).bind fun inner new => ?_
  have free (name : String) : own inner name := fresh inner name new
  have handles : (runBlock handler inner).Contained env own base :=
    runBlock_contained fresh fun name _ => free name
  cases binding with
  | none => exact handles
  | some name => exact (declare_confines (free name) caught true).behind fun _ => handles

theorem runFinalizer_contained {finalizer : List Stmt}
    (exposes : ∀ name ∈ Stmt.exposedOfBlock finalizer, own scope name) :
    (runFinalizer finalizer scope).Contained env own base := by
  refine (runBlock_contained fresh exposes).behind fun flow => ?_
  cases flow <;> exact .pure trivial

omit fresh in
theorem runIfElse_contained (condition : Expr) {consequent : Stmt} {alternative : Option Stmt}
    (exposes : ∀ name ∈ (Stmt.ifElse condition consequent alternative).exposed, own scope name) :
    (runIfElse condition consequent alternative scope).Contained env own base := by
  obtain ⟨first, second⟩ := List.forall_mem_append.mp exposes
  refine (evaluate_contained condition scope).behind fun value => ?_
  split
  · exact execute_contained first
  · cases alternative with
    | none => exact .pure trivial
    | some other => exact execute_contained second

theorem statementRule_contained {statement : Stmt}
    (exposes : ∀ name ∈ statement.exposed, own scope name) :
    (statementRule statement scope).Confines env own base (Task.Contained own) := by
  have evaluates (expression : Expr) : (evaluate expression scope).Contained env own base :=
    evaluate_contained expression scope
  cases statement with
  | declaration kind declarators =>
      refine (runDeclarators_contained fun inBlock => ?_).behind fun _ => .pure trivial
      simpa only [Stmt.exposed, inBlock, if_true] using exposes
  | function definition => exact .pure trivial
  | expression value => exact (evaluates value).behind fun _ => .pure trivial
  | returnWith value =>
      cases value with
      | none => exact .pure trivial
      | some value => exact (evaluates value).behind fun _ => .pure trivial
  | ifElse condition consequent alternative => exact runIfElse_contained condition exposes
  | whileLoop condition body =>
      exact ⟨fun _ => True, .pure trivial, fun _ _ => whileTurn_contained condition exposes⟩
  | doWhile body condition =>
      exact ⟨fun _ => True, .pure trivial, fun _ _ => doWhileTurn_contained condition exposes⟩
  | forLoop initial condition update body =>
      exact ⟨_, forStart_contained fresh exposes, fun inner exposes =>
        forTurn_contained condition update exposes⟩
  | forOf kind name iterable body =>
      refine ⟨fun _ => True, (evaluates iterable).behind fun _ => .pure trivial, fun state _ =>
        forOfTurn_contained fresh name (fun outside => ?_) state⟩
      simpa [Stmt.exposed, outside] using exposes
  | forIn kind name object body =>
      refine (evaluates object).behind fun owner => heap_quiet.confines.behind fun h =>
        forInTurns_contained fresh name (fun outside => ?_) _
      simpa [Stmt.exposed, outside] using exposes
  | block statements => exact runBlock_contained fresh exposes
  | breakLoop => exact .pure trivial
  | continueLoop => exact .pure trivial
  | throwValue value => exact evaluates value
  | tryBlock tried binding handler finalizer =>
      obtain ⟨first, last⟩ := List.forall_mem_append.mp exposes
      refine ⟨runBlock_contained fresh first, fun clause handled given => ?_, fun final ended => ?_⟩
      · obtain ⟨statements, -, rfl⟩ := Option.map_eq_some_iff.mp handled
        exact runHandler_contained fresh binding statements given
      · obtain ⟨statements, rfl, rfl⟩ := Option.map_eq_some_iff.mp ended
        exact runFinalizer_contained fresh last
  | empty => exact .pure trivial

/-! ### Calls -/

omit fresh in
theorem bindParameters_contained (free : ∀ name, own scope name) (parameters : List String)
    (arguments : List Value) : (bindParameters scope parameters arguments).Contained env own base := by
  induction parameters generalizing arguments with
  | nil => exact .pure trivial
  | cons name rest ih =>
      cases arguments with
      | nil => exact (declare_confines (free name) .undefined true).behind fun _ => ih []
      | cons value values => exact (declare_confines (free name) value true).behind fun _ => ih values

omit fresh in
theorem runBody_contained (free : ∀ name, own scope name) (statements : List Stmt) :
    (runBody scope statements).Contained env own base := by
  induction statements with
  | nil => exact .pure trivial
  | cons statement rest ih =>
      refine (execute_contained fun name _ => free name).behind fun flow => ?_
      cases flow with
      | returned value => exact .pure trivial
      | _ => exact ih

/-- What `var` declares in the body belongs to the scope of the call, which stays
    a function scope while its parameters are bound. -/
theorem invoke_contained (closure : Closure) (arguments : List Value) :
    (invoke closure arguments).Contained env own base := by
  refine fun m room => ⟨trivial, fun scope opened ran => ?_⟩
  cases ran
  have free (name : String) : own m.scopes.size name := fresh _ name room
  have opens : m.Gains own _ := m.gains_newScope closure.scope true
  refine (bindParameters_contained free closure.definition.parameters arguments _
    (Nat.le_trans room opens.grown)).bind fun _ bound since => ?_
  have later := opens.later.trans since.1
  have reached := Nat.le_trans room later.size_le
  cases closure.definition.body with
  | expression expression =>
      exact (evaluate_contained expression _ bound reached).mono fun _ _ ended =>
        ⟨later.trans ended.1, trivial⟩
  | block statements =>
      obtain ⟨s, found, -, isFunction⟩ := since.1.scope (Array.getElem?_push_size)
      have here := Machine.functionScopeOf_eq_self found isFunction
      have missing : (Operation.declareMissing m.scopes.size
          (Stmt.varNamesOfList statements)).Confined own bound := by
        intro name _
        rw [here]
        exact free name
      refine (operate_confined missing).bind fun _ hoisted declared => ?_
      have rest : Eval.Contained env own base (do
          declareFunctions m.scopes.size (Stmt.functionsOf statements)
          runBody m.scopes.size statements) :=
        (declareFunctions_contained free _).behind fun _ => runBody_contained free statements
      exact (rest hoisted (Nat.le_trans reached declared.size_le)).mono fun _ _ ended =>
        ⟨(later.trans declared).trans ended.1, trivial⟩

/-- No task binds more than it may. -/
theorem Task.rule_contained {task : Task} (contained : task.Contained own) :
    task.rule.Confines env own base (Task.Contained own) := by
  cases task with
  | statement form scope => exact statementRule_contained fresh contained
  | expression form scope =>
      have quiet : (expressionRule form scope).Quiet (Task.Contained own) :=
        expressionRule_quiet (fun _ _ => trivial) (fun _ _ => trivial) form scope
      exact quiet.confines
  | call function arguments =>
      cases host : (Task.call function arguments).isHostCall with
      | true =>
          have quiet : (callRule function arguments).Quiet (Task.Contained own) :=
            callRule_quiet (fun _ _ => trivial) host
          exact quiet.confines
      | false =>
          cases function with
          | closure closure => exact invoke_contained fresh closure arguments
          | _ => cases host

end

end StrategyQubo.Script
