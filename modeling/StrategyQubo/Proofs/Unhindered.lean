import StrategyQubo.Proofs.Outcome

namespace StrategyQubo.Script

/-! # Unhindered evaluations

What programs and tasks do as long as no limit is reached.
-/

namespace Outcome

variable {α β γ : Type}

theorem andThen_assoc (outcome : Outcome α) (next : α → Machine → Outcome β)
    (last : β → Machine → Outcome γ) :
    (outcome.andThen next).andThen last = outcome.andThen fun value m =>
      (next value m).andThen last := by
  cases outcome <;> rfl

theorem andThen_done (outcome : Outcome α) :
    (outcome.andThen fun value m => .ok value m) = outcome := by
  cases outcome <;> rfl

end Outcome

/-! ## Programs -/

section

variable {α β : Type} (answer : (task : Task) → Action task.Answer) (env : Environment)
  (m : Machine)

theorem Eval.run_bind (first : Eval α) (next : α → Eval β) :
    (first >>= next).run answer env m =
      (first.run answer env m).andThen fun value m => (next value).run answer env m := by
  change (first.bind next).run answer env m = _
  induction first generalizing m with
  | done value => rfl
  | perform op rest ih =>
      rw [Eval.bind, Eval.run, Eval.run, Outcome.andThen_assoc]
      exact congrArg _ (funext fun value => funext fun m => ih value m)
  | ask task rest ih =>
      rw [Eval.bind, Eval.run, Eval.run, Outcome.andThen_assoc]
      exact congrArg _ (funext fun value => funext fun m => ih value m)

theorem Eval.run_operate (op : Operation) : (operate op).run answer env m = op.run env m :=
  Outcome.andThen_done _

theorem Eval.run_evaluate (expression : Expr) (scope : ScopeId) :
    (evaluate expression scope).run answer env m = answer (.expression expression scope) env m :=
  Outcome.andThen_done _

theorem Eval.run_execute (statement : Stmt) (scope : ScopeId) :
    (execute statement scope).run answer env m = answer (.statement statement scope) env m :=
  Outcome.andThen_done _

theorem Eval.run_call (function : Value) (arguments : List Value) :
    (call function arguments).run answer env m = answer (.call function arguments) env m :=
  Outcome.andThen_done _

end

/-! ## Tasks -/

section

variable {env : Environment} {m : Machine}

theorem Environment.NeverStrikes.tick_ok (calm : env.NeverStrikes)
    (budget : m.steps < env.limits.stepBudget) :
    Action.tick env m = .ok () { m with steps := m.steps + 1 } := by
  rw [calm.tick, if_neg (Nat.not_lt.mpr budget)]

theorem Environment.NeverStrikes.enterNested_ok (calm : env.NeverStrikes)
    (budget : m.steps < env.limits.stepBudget) (shallow : m.nesting < maxEvalDepth) :
    Action.enterNested env m =
      .ok () { m with steps := m.steps + 1, nesting := m.nesting + 1 } := by
  rw [Action.enterNested, if_neg (Nat.not_le.mpr shallow), calm.tick_ok budget]
  rfl

theorem Environment.NeverStrikes.enterClosure_ok (calm : env.NeverStrikes)
    (budget : m.steps < env.limits.stepBudget) (shallow : m.depth < env.limits.callDepth) :
    Action.enterClosure env m =
      .ok () { m with steps := m.steps + 1, depth := m.depth + 1 } := by
  rw [Action.enterClosure, calm.tick_ok budget]
  exact if_neg (Nat.not_le.mpr shallow)

/-- Where a task is granted, it ends as its rule does. -/
theorem Task.evaluate_granted {task : Task} {rank : Nat} {value : task.Answer}
    {granted after : Machine} (entered : task.enter env m = .ok () granted)
    (ran : task.rule.run (Task.evaluate rank) (rank + 1) env granted = .ok value after) :
    Task.evaluate (rank + 1) task env m = .ok value (task.leave after) := by
  change (task.enter env m).andThen _ = _
  rw [entered, Outcome.andThen_ok, ran]
  rfl

theorem Task.evaluate_expression (calm : env.NeverStrikes)
    (budget : m.steps < env.limits.stepBudget) (shallow : m.nesting < maxEvalDepth)
    {expression : Expr} {scope : ScopeId} {rank : Nat} {value : Value} {after : Machine}
    (ran : (expressionRule expression scope).run (Task.evaluate rank) env
      { m with steps := m.steps + 1, nesting := m.nesting + 1 } = .ok value after) :
    Task.evaluate (rank + 1) (.expression expression scope) env m =
      .ok value { after with nesting := after.nesting - 1 } :=
  evaluate_granted (calm.enterNested_ok budget shallow) ran

theorem Task.evaluate_statement (calm : env.NeverStrikes)
    (budget : m.steps < env.limits.stepBudget) (shallow : m.nesting < maxEvalDepth)
    {statement : Stmt} {scope : ScopeId} {rank : Nat} {flow : Flow} {after : Machine}
    (ran : (statementRule statement scope).run (Task.evaluate rank) (rank + 1) env
      { m with steps := m.steps + 1, nesting := m.nesting + 1 } = .ok flow after) :
    Task.evaluate (rank + 1) (.statement statement scope) env m =
      .ok flow { after with nesting := after.nesting - 1 } :=
  evaluate_granted (calm.enterNested_ok budget shallow) ran

theorem Task.evaluate_call (calm : env.NeverStrikes)
    (budget : m.steps < env.limits.stepBudget) (shallow : m.depth < env.limits.callDepth)
    {closure : Closure} {arguments : List Value} {rank : Nat} {value : Value} {after : Machine}
    (ran : (invoke closure arguments).run (Task.evaluate rank) env
      { m with steps := m.steps + 1, depth := m.depth + 1 } = .ok value after) :
    Task.evaluate (rank + 1) (.call (.closure closure) arguments) env m =
      .ok value { after with depth := after.depth - 1 } :=
  evaluate_granted (calm.enterClosure_ok budget shallow) ran

end

end StrategyQubo.Script
