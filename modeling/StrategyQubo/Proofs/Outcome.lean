import StrategyQubo.Script.Evaluate

namespace StrategyQubo.Script

/-! # Laws of outcomes

What each way of ending means for the code around it.
-/

namespace Outcome

variable {α β : Type} {error : ScriptError} {m : Machine}

@[simp] theorem machine_ok (value : α) : machine (.ok value m) = m := rfl

@[simp] theorem machine_error : machine (.error error m : Outcome α) = m := rfl

@[simp] theorem error?_ok (value : α) : error? (.ok value m) = none := rfl

@[simp] theorem error?_error : error? (.error error m : Outcome α) = some error := rfl

@[simp] theorem machine_mapMachine (change : Machine → Machine) (outcome : Outcome α) :
    (outcome.mapMachine change).machine = change outcome.machine := by
  cases outcome <;> rfl

@[simp] theorem error?_mapMachine (change : Machine → Machine) (outcome : Outcome α) :
    (outcome.mapMachine change).error? = outcome.error? := by
  cases outcome <;> rfl

@[simp] theorem andThen_ok (value : α) (next : α → Machine → Outcome β) :
    andThen (.ok value m) next = next value m := rfl

@[simp] theorem andThen_error (next : α → Machine → Outcome β) :
    andThen (.error error m) next = .error error m := rfl

theorem exists_of_andThen_eq_ok {outcome : Outcome α} {next : α → Machine → Outcome β}
    {value : β} {after : Machine} (ran : outcome.andThen next = .ok value after) :
    ∃ first middle, outcome = .ok first middle ∧ next first middle = .ok value after := by
  cases outcome with
  | ok first middle => exact ⟨first, middle, rfl, ran⟩
  | error error middle => cases ran

/-! ## Finalizers -/

section

variable (answer : (task : Task) → Action task.Answer) (env : Environment)

@[simp] theorem finalized_ok (value : α) (finalizer : Eval (Option α)) :
    finalized answer (.ok value m) (some finalizer) env =
      (finalizer.run answer env m).andThen fun last m => .ok (last.getD value) m := rfl

theorem finalized_caught (catchable : error.isCatchable = true) (finalizer : Eval (Option α)) :
    finalized answer (.error error m) (some finalizer) env =
      (finalizer.run answer env m).andThen fun last m =>
        match last with
        | some last => .ok last m
        | none => .error error m :=
  if_pos catchable

theorem finalized_passed (final : error.isCatchable = false)
    (finalizer : Option (Eval (Option α))) :
    finalized answer (.error error m) finalizer env = .error error m := by
  cases finalizer with
  | none => rfl
  | some finalizer => simp [finalized, final]

end

end Outcome

/-! ## Scopes -/

theorem Scope.findIn_bindIn (bindings : List (String × Binding)) (name : String)
    (binding : Binding) : findIn (bindIn bindings name binding) name = some binding := by
  induction bindings with
  | nil => simp [bindIn, findIn]
  | cons entry rest ih =>
      by_cases same : entry.1 = name
      · simp [bindIn, findIn, same]
      · simp [bindIn, findIn, same, ih]

theorem Machine.declare_binds {m : Machine} {scope : ScopeId} (made : scope < m.scopes.size)
    (name : String) (value : Value) (isMutable : Bool) :
    ((m.declare scope name value isMutable).scopeAt scope).find? name = some ⟨value, isMutable⟩ := by
  simp [declare, modifyScope, scopeAt, Array.getD, made, Array.getElem_modify_self, Scope.find?,
    Scope.bind, Scope.findIn_bindIn]

/-! ## The clock -/

/-- The time budget suffices however many steps are made. -/
def Environment.NeverStrikes (env : Environment) : Prop :=
  ∀ steps, env.clock steps ≤ env.limits.timeBudgetMs * 1000

theorem Environment.NeverStrikes.tick {env : Environment} (calm : env.NeverStrikes) (m : Machine) :
    Action.tick env m =
      if env.limits.stepBudget < m.steps + 1 then
        .error (.stepBudgetExhausted env.limits.stepBudget) { m with steps := m.steps + 1 }
      else
        .ok () { m with steps := m.steps + 1 } := by
  have silent := calm (m.steps + 1)
  simp only [Action.tick]
  split
  · rfl
  · rw [if_neg (by omega)]

end StrategyQubo.Script
