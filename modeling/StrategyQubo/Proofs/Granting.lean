import StrategyQubo.Proofs.Outcome

namespace StrategyQubo.Script

/-! # What is granted

What operations change of the machine beside the data of the script, and what a
task takes when it is entered: steps, nesting and calls.
-/

namespace Task

/-- A statement or an expression. -/
def isNested : Task → Bool
  | statement _ _ => true
  | expression _ _ => true
  | _ => false

/-- A call of a script function or of a function of the host. -/
def isCall : Task → Bool
  | call _ _ => true
  | _ => false

def isClosureCall : Task → Bool
  | call (.closure _) _ => true
  | _ => false

def isHostCall (task : Task) : Bool :=
  task.isCall && !task.isClosureCall

end Task

variable (env : Environment) (m : Machine)

/-! ## Operations -/

theorem Machine.declareAllMissing_frame (scope : ScopeId) (names : List String) :
    ∃ scopes, m.declareAllMissing scope names = { m with scopes := scopes } := by
  simp only [declareAllMissing]
  generalize m.functionScopeOf scope = target
  induction names generalizing m with
  | nil => exact ⟨_, rfl⟩
  | cons name rest ih =>
      obtain ⟨scopes, changed⟩ := ih (m.declareMissing target name)
      refine ⟨scopes, ?_⟩
      rw [List.foldl_cons, changed]
      unfold declareMissing
      split <;> rfl

/-- The error of a budget that so many steps exhaust. -/
def ScriptError.IsBudget (error : ScriptError) (env : Environment) (steps : Nat) : Prop :=
  error = .stepBudgetExhausted env.limits.stepBudget ∧ env.limits.stepBudget < steps ∨
  error = .timeBudgetExhausted env.limits.timeBudgetMs

theorem ScriptError.IsBudget.final {error : ScriptError} {env : Environment} {steps : Nat}
    (budget : error.IsBudget env steps) : error.isCatchable = false := by
  rcases budget with ⟨rfl, -⟩ | rfl <;> rfl

/-- A tick always takes a step, and ends with an error if that exhausts a
    budget. -/
theorem Action.tick_cases :
    (tick env m = .ok () { m with steps := m.steps + 1 } ∧ m.steps + 1 ≤ env.limits.stepBudget) ∨
    ∃ error, error.IsBudget env (m.steps + 1) ∧
      tick env m = .error error { m with steps := m.steps + 1 } := by
  simp only [tick]
  by_cases exhausted : env.limits.stepBudget < m.steps + 1
  · rw [if_pos exhausted]
    exact .inr ⟨_, .inl ⟨rfl, exhausted⟩, rfl⟩
  · rw [if_neg exhausted]
    split
    · exact .inr ⟨_, .inr rfl, rfl⟩
    · exact .inl ⟨rfl, Nat.le_of_not_lt exhausted⟩

/-- What no operation touches.  Only a tick takes a step. -/
theorem Operation.run_frame (op : Operation) :
    ∃ scopes heap identities steps random log, (op.run env m).machine =
      { m with
        scopes := scopes, heap := heap, identities := identities, steps := steps,
        random := random, log := log } ∧ (op ≠ .tick → steps = m.steps) := by
  cases op with
  | tick =>
      rcases Action.tick_cases env m with ⟨ticked, -⟩ | ⟨error, -, failed⟩
      · exact ⟨_, _, _, _, _, _, by rw [run, ticked]; rfl, fun other => absurd rfl other⟩
      · exact ⟨_, _, _, _, _, _, by rw [run, failed]; rfl, fun other => absurd rfl other⟩
  | declareMissing scope names =>
      obtain ⟨scopes, changed⟩ := m.declareAllMissing_frame scope names
      exact ⟨scopes, _, _, _, _, _, changed, fun _ => rfl⟩
  | checkLength requested =>
      simp only [run, Action.checkLength]
      split <;> exact ⟨_, _, _, _, _, _, rfl, fun _ => rfl⟩
  | stringify value =>
      simp only [run, Action.stringify]
      split <;> exact ⟨_, _, _, _, _, _, rfl, fun _ => rfl⟩
  | setProperty target key value =>
      simp only [run, Action.setProperty]
      split <;> exact ⟨_, _, _, _, _, _, rfl, fun _ => rfl⟩
  | lookup scope name =>
      simp only [run, Action.lookup]
      split <;> exact ⟨_, _, _, _, _, _, rfl, fun _ => rfl⟩
  | assign scope name value =>
      simp only [run, Action.assign]
      split
      · split <;> exact ⟨_, _, _, _, _, _, rfl, fun _ => rfl⟩
      · exact ⟨_, _, _, _, _, _, rfl, fun _ => rfl⟩
  | _ => exact ⟨_, _, _, _, _, _, rfl, fun _ => rfl⟩

theorem Operation.run_depth (op : Operation) : (op.run env m).machine.depth = m.depth := by
  obtain ⟨_, _, _, _, _, _, frame, -⟩ := op.run_frame env m
  rw [frame]

theorem Operation.run_thrown (op : Operation) : (op.run env m).machine.thrown = m.thrown := by
  obtain ⟨_, _, _, _, _, _, frame, -⟩ := op.run_frame env m
  rw [frame]

/-- A property assignment is refused for the kind of its target or for its
    size. -/
theorem Heap.changeFor_error {h : Heap} {limits : Limits} {target value : Value} {key : String}
    {error : ScriptError} (refused : h.changeFor limits target key value = .error error) :
    (∃ fault, error = .type fault) ∨
    ∃ requested, error = .collectionTooLarge requested limits.maxCollectionLen := by
  cases target with
  | array ref =>
      simp only [changeFor] at refused
      split at refused
      · cases length : arrayLength? (value.toNumber h) with
        | none =>
            simp only [length, Except.error.injEq] at refused
            exact .inl ⟨_, refused.symm⟩
        | some requested =>
            simp only [length] at refused
            split at refused
            · cases refused
              exact .inr ⟨_, rfl⟩
            · cases refused
      · cases found : arrayIndex? key with
        | none => simp [found] at refused
        | some index =>
            simp only [found] at refused
            split at refused
            · cases refused
              exact .inr ⟨_, rfl⟩
            · cases refused
  | undefined =>
      cases refused
      exact .inl ⟨_, rfl⟩
  | null =>
      cases refused
      exact .inl ⟨_, rfl⟩
  | _ => cases refused

/-- Only throw statements throw. -/
theorem Operation.run_not_thrown (op : Operation) (text : String) (after : Machine) :
    op.run env m ≠ .error (.thrown text) after := by
  intro thrown
  cases op with
  | tick =>
      rcases Action.tick_cases env m with ⟨ticked, -⟩ | ⟨error, budget, failed⟩
      · cases ticked.symm.trans thrown
      · cases failed.symm.trans thrown
        cases budget.final
  | checkLength requested =>
      simp only [run, Action.checkLength] at thrown
      split at thrown <;> cases thrown
  | stringify value =>
      simp only [run, Action.stringify] at thrown
      split at thrown <;> cases thrown
  | setProperty target key value =>
      simp only [run, Action.setProperty] at thrown
      split at thrown
      · cases thrown
      · rename_i refused
        cases thrown
        rcases Heap.changeFor_error refused with ⟨_, same⟩ | ⟨_, same⟩ <;> cases same
  | lookup scope name =>
      simp only [run, Action.lookup] at thrown
      split at thrown <;> cases thrown
  | assign scope name value =>
      simp only [run, Action.assign] at thrown
      split at thrown
      · split at thrown <;> cases thrown
      · cases thrown
  | _ => cases thrown

/-! ## Tasks -/

/-- What holds when a task has been entered. -/
structure Task.Granted (task : Task) (after : Machine) : Prop where
  machine : after = { m with
    steps := m.steps + 1
    nesting := m.nesting + task.isNested.toNat
    depth := m.depth + task.isClosureCall.toNat }
  steps : after.steps ≤ env.limits.stepBudget
  nesting : task.isNested = true → after.nesting ≤ maxEvalDepth
  depth : task.isClosureCall = true → after.depth ≤ env.limits.callDepth

/-- What holds when a task is not entered: a budget is exhausted or there is no
    room for one more statement, expression or call. -/
structure Task.Refused (task : Task) (error : ScriptError) (after : Machine) : Prop where
  machine : after = { m with steps := after.steps }
  steps : m.steps ≤ after.steps ∧ after.steps ≤ m.steps + 1
  reason : error.IsBudget env after.steps ∨
    error = .nestingTooDeep maxEvalDepth ∧ task.isNested = true ∧ maxEvalDepth ≤ m.nesting ∨
    error = .callDepthExceeded env.limits.callDepth ∧ task.isClosureCall = true ∧
      env.limits.callDepth ≤ m.depth

def Task.Decided (task : Task) : Prop :=
  (∃ after, task.enter env m = .ok () after ∧ task.Granted env m after) ∨
  ∃ error after, task.enter env m = .error error after ∧ task.Refused env m error after

variable {env m}

theorem Task.Refused.final {task : Task} {error : ScriptError} {after : Machine}
    (refused : task.Refused env m error after) : error.isCatchable = false := by
  rcases refused.reason with budget | ⟨rfl, -⟩ | ⟨rfl, -⟩
  · exact budget.final
  · rfl
  · rfl

theorem Task.Refused.of_tick {error : ScriptError} (budget : error.IsBudget env (m.steps + 1))
    (task : Task) : task.Refused env m error { m with steps := m.steps + 1 } :=
  ⟨rfl, ⟨Nat.le_succ _, Nat.le_refl _⟩, .inl budget⟩

private theorem Task.enter_nested (task : Task) (enter : task.enter = Action.enterNested)
    (nested : task.isNested = true) (noClosure : task.isClosureCall = false) :
    task.Decided env m := by
  unfold Decided
  rw [enter]
  unfold Action.enterNested
  by_cases full : maxEvalDepth ≤ m.nesting
  · rw [if_pos full]
    exact .inr ⟨_, m, rfl, rfl, ⟨Nat.le_refl _, Nat.le_succ _⟩, .inr (.inl ⟨rfl, nested, full⟩)⟩
  · rw [if_neg full]
    rcases Action.tick_cases env m with ⟨ticked, steps⟩ | ⟨error, budget, failed⟩
    · rw [ticked]
      refine .inl ⟨_, rfl, ?_, steps, fun _ => Nat.lt_of_not_le full, ?_⟩
      · simp [nested, noClosure]
      · simp [noClosure]
    · rw [failed]
      exact .inr ⟨_, _, rfl, .of_tick budget task⟩

private theorem Task.enter_closure (closure : Closure) (arguments : List Value) :
    (call (.closure closure) arguments).Decided env m := by
  change (∃ after, Action.enterClosure env m = .ok () after ∧ _) ∨
    ∃ error after, Action.enterClosure env m = .error error after ∧ _
  unfold Action.enterClosure
  rcases Action.tick_cases env m with ⟨ticked, steps⟩ | ⟨error, budget, failed⟩
  · rw [ticked, Outcome.andThen_ok]
    by_cases full : env.limits.callDepth ≤ m.depth
    · rw [if_pos full]
      refine .inr ⟨_, _, rfl, rfl, ⟨Nat.le_succ _, Nat.le_refl _⟩, ?_⟩
      exact .inr (.inr ⟨rfl, rfl, full⟩)
    · rw [if_neg full]
      exact .inl ⟨_, rfl, rfl, steps, nofun, fun _ => Nat.lt_of_not_le full⟩
  · rw [failed]
    exact .inr ⟨_, _, rfl, .of_tick budget _⟩

private theorem Task.enter_host (task : Task) (enter : task.enter = Action.tick)
    (noNesting : task.isNested = false) (noClosure : task.isClosureCall = false) :
    task.Decided env m := by
  unfold Decided
  rw [enter]
  rcases Action.tick_cases env m with ⟨ticked, steps⟩ | ⟨error, budget, failed⟩
  · refine .inl ⟨_, ticked, ?_, steps, ?_, ?_⟩
    · simp [noNesting, noClosure]
    · simp [noNesting]
    · simp [noClosure]
  · exact .inr ⟨_, _, failed, .of_tick budget task⟩

theorem Task.enter_cases (task : Task) (env : Environment) (m : Machine) :
    task.Decided env m := by
  cases task with
  | statement form scope => exact enter_nested _ rfl rfl rfl
  | expression form scope => exact enter_nested _ rfl rfl rfl
  | call function arguments =>
      cases function with
      | closure closure => exact enter_closure closure arguments
      | _ => exact enter_host _ rfl rfl rfl

theorem Task.leave_eq (task : Task) (m : Machine) :
    task.leave m = { m with
      nesting := m.nesting - task.isNested.toNat
      depth := m.depth - task.isClosureCall.toNat } := by
  cases task with
  | call function arguments => cases function <;> rfl
  | _ => rfl

end StrategyQubo.Script
