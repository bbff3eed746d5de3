import StrategyQubo.Script.Rules

namespace StrategyQubo.Script

/-! # Evaluation

Tasks are evaluated by their rules, and the parts that a rule asks for are
evaluated in turn.
-/

/-! ## Running a rule -/

section

variable {α : Type} (answer : (task : Task) → Action task.Answer)

/-- Runs a program; `answer` evaluates what it asks for. -/
def Eval.run : Eval α → Action α
  | .done value, _, m => .ok value m
  | .perform op next, env, m =>
      (op.run env m).andThen fun value m => (next value).run env m
  | .ask task next, env, m =>
      (answer task env m).andThen fun value m => (next value).run env m

/-- What an evaluation answers that is cut off. -/
def Action.cutOff : Action α := fun env m =>
  .error (.stepBudgetExhausted env.limits.stepBudget) m

/-- Repeats a turn, `bound` times at most. -/
def Action.repeated {σ : Type} (turn : σ → Action (Turn σ α)) : Nat → σ → Action α
  | 0, _, env, m => cutOff env m
  | bound + 1, state, env, m =>
      (turn state env m).andThen fun reached m =>
        match reached with
        | .again state => repeated turn bound state env m
        | .finished value => .ok value m

/-- What a catch clause gets, and the machine without it: for a `throw` the
    value in flight, or else an object that describes the error. -/
def Machine.catching (m : Machine) : ScriptError → Value × Machine
  | .thrown text => (m.thrown.getD (.string text), { m with thrown := none })
  | other =>
      let (ref, heap) := m.heap.newObject (errorRecord other.scriptView.1 other.scriptView.2)
      (.object ref, { m with heap := heap })

/-- The handler runs if the body fails with an error that can be caught. -/
def Outcome.handled (body : Outcome α) (handler : Option (Value → Eval α)) (env : Environment) :
    Outcome α :=
  match body, handler with
  | .error error m, some handler =>
      if error.isCatchable then
        let (caught, m) := m.catching error
        (handler caught).run answer env m
      else
        .error error m
  | outcome, _ => outcome

/-- The finalizer runs unless a limit has been hit.  What it ends with, if not
    normally, takes the place of the outcome before it. -/
def Outcome.finalized (before : Outcome α) (finalizer : Option (Eval (Option α)))
    (env : Environment) : Outcome α :=
  match before, finalizer with
  | outcome, none => outcome
  | .ok value m, some finalizer =>
      (finalizer.run answer env m).andThen fun last m => .ok (last.getD value) m
  | .error error m, some finalizer =>
      if error.isCatchable then
        (finalizer.run answer env m).andThen fun last m =>
          match last with
          | some last => .ok last m
          | none => .error error m
      else
        .error error m

/-- Fails with the value, which stays in flight until a catch clause takes
    it. -/
def Machine.throwing (m : Machine) (value : Value) : Outcome α :=
  .error (.thrown (value.display m.heap)) { m with thrown := some value }

def Rule.run (turns : Nat) : Rule α → Action α
  | .once eval, env, m => eval.run answer env m
  | .repeated first turn, env, m =>
      (first.run answer env m).andThen fun state m =>
        Action.repeated (fun state => (turn state).run answer) turns state env m
  | .guarded body handler finalizer, env, m =>
      Outcome.finalized answer (Outcome.handled answer (body.run answer env m) handler env)
        finalizer env
  | .throwing value, env, m =>
      (value.run answer env m).andThen fun value m => m.throwing value

end

/-! ## Evaluating tasks -/

/-- Evaluates one level deeper than what is under evaluation. -/
def Action.enterNested : Action Unit := fun env m =>
  if maxEvalDepth ≤ m.nesting then
    .error (.nestingTooDeep maxEvalDepth) m
  else
    (tick env m).andThen fun _ m => .ok () { m with nesting := m.nesting + 1 }

/-- Evaluates inside one more call of a script function. -/
def Action.enterClosure : Action Unit := fun env m =>
  (tick env m).andThen fun _ m =>
    if env.limits.callDepth ≤ m.depth then
      .error (.callDepthExceeded env.limits.callDepth) m
    else
      .ok () { m with depth := m.depth + 1 }

/-- What has to be granted before the rule of a task runs.  Each task takes a
    step, and expressions and statements count as nesting. -/
def Task.enter : Task → Action Unit
  | statement _ _ => Action.enterNested
  | expression _ _ => Action.enterNested
  | call (.closure _) _ => Action.enterClosure
  | call _ _ => Action.tick

/-- Gives back what entering the task has taken. -/
def Task.leave : Task → Machine → Machine
  | statement _ _, m => { m with nesting := m.nesting - 1 }
  | expression _ _, m => { m with nesting := m.nesting - 1 }
  | call (.closure _) _, m => { m with depth := m.depth - 1 }
  | call _ _, m => m

/-- Evaluates a task, as far as its parts are nested no deeper than `rank`. -/
def Task.evaluate : Nat → (task : Task) → Action task.Answer
  | 0, _ => Action.cutOff
  | rank + 1, task => fun env m =>
      (task.enter env m).andThen fun _ m =>
        (task.rule.run (evaluate rank) (rank + 1) env m).mapMachine task.leave

/-- A rank that nothing reaches with the steps that are left: a task takes a
    step before its parts do. -/
def Environment.rank (env : Environment) (m : Machine) : Nat :=
  env.limits.stepBudget - m.steps + 1

/-- Runs a program over the machine from outside. -/
def Eval.start {α : Type} (eval : Eval α) : Action α := fun env m =>
  eval.run (Task.evaluate (env.rank m)) env m

/-- Runs the statements of a program in the global scope. -/
def runProgram (program : Program) : Action Unit :=
  (programRule program.body).start

/-- Calls a function from outside. -/
def callFunction (function : Value) (arguments : List Value) : Action Value :=
  (Eval.call function arguments).start

end StrategyQubo.Script
