import StrategyQubo.Proofs.Outcome

namespace StrategyQubo.Script

/-! # Ledgers

Evaluation once more, with a ledger of what is done on the way.  Events stand
in the order in which they happen; without them a ledger is the outcome that
evaluation has anyway.
-/

/-- Something that happens in an evaluation.  The tasks that a task is a part
    of stand `under` it, innermost first. -/
inductive Event where
  | performed (op : Operation) (error? : Option ScriptError) (after : Machine)
  | entered (task : Task) (under : List Task)
  | refused (task : Task) (under : List Task) (error : ScriptError) (after : Machine)
  | left (task : Task) (error? : Option ScriptError) (after : Machine)
  | threw (value : Value)
  /-- A catch clause takes an error and is given a value for it.  So many events
      have happened `since` the one that raised the error. -/
  | caught (under : List Task) (error : ScriptError) (since : Nat) (given : Value)
  | cutOff

/-- The events of an evaluation and its outcome.  If that is an error, so many
    events have happened `since` the one that raised it. -/
structure Ledger (α : Type) where
  events : List Event
  since : Nat
  outcome : Outcome α

namespace Ledger

variable {α β : Type}

def single (event : Event) (outcome : Outcome α) : Ledger α :=
  ⟨[event], 0, outcome⟩

def andThen (first : Ledger α) (next : α → Machine → Ledger β) : Ledger β :=
  match first.outcome with
  | .ok value m =>
      let second := next value m
      ⟨first.events ++ second.events, second.since, second.outcome⟩
  | .error error m => ⟨first.events, first.since, .error error m⟩

end Ledger

/-! ## Keeping a ledger -/

section

variable {α : Type} (answer : (task : Task) → Environment → Machine → Ledger task.Answer)

def Eval.ledger : Eval α → Environment → Machine → Ledger α
  | .done value, _, m => ⟨[], 0, .ok value m⟩
  | .perform op next, env, m =>
      let outcome := op.run env m
      (Ledger.single (.performed op outcome.error? outcome.machine) outcome).andThen
        fun value m => (next value).ledger env m
  | .ask task next, env, m => (answer task env m).andThen fun value m => (next value).ledger env m

def Ledger.repeated {σ : Type} (turn : σ → Environment → Machine → Ledger (Turn σ α)) :
    Nat → σ → Environment → Machine → Ledger α
  | 0, _, env, m => single .cutOff (Action.cutOff env m)
  | bound + 1, state, env, m =>
      (turn state env m).andThen fun reached m =>
        match reached with
        | .again state => repeated turn bound state env m
        | .finished value => ⟨[], 0, .ok value m⟩

def Ledger.handled (under : List Task) (body : Ledger α) (handler : Option (Value → Eval α))
    (env : Environment) : Ledger α :=
  match body.outcome, handler with
  | .error error m, some handler =>
      if error.isCatchable then
        let (given, m) := m.catching error
        let rest := (handler given).ledger answer env m
        ⟨body.events ++ .caught under error body.since given :: rest.events, rest.since, rest.outcome⟩
      else
        body
  | _, _ => body

/-- A finalizer that ends normally leaves an error to the event that raised
    it; one that does not leaves nothing of it. -/
def Ledger.finalized (before : Ledger α) (finalizer : Option (Eval (Option α)))
    (env : Environment) : Ledger α :=
  match before.outcome, finalizer with
  | _, none => before
  | .ok value _, some finalizer =>
      before.andThen fun _ m =>
        (finalizer.ledger answer env m).andThen fun last m => ⟨[], 0, .ok (last.getD value) m⟩
  | .error error m, some finalizer =>
      if error.isCatchable then
        let final := finalizer.ledger answer env m
        let events := before.events ++ final.events
        match final.outcome with
        | .ok (some last) m => ⟨events, 0, .ok last m⟩
        | .ok none m => ⟨events, before.since + final.events.length, .error error m⟩
        | .error error m => ⟨events, final.since, .error error m⟩
      else
        before

def Rule.ledger (under : List Task) (turns : Nat) :
    Rule α → Environment → Machine → Ledger α
  | .once eval, env, m => eval.ledger answer env m
  | .repeated first turn, env, m =>
      (first.ledger answer env m).andThen fun state m =>
        Ledger.repeated (fun state => (turn state).ledger answer) turns state env m
  | .guarded body handler finalizer, env, m =>
      Ledger.finalized answer
        (Ledger.handled answer under (body.ledger answer env m) handler env) finalizer env
  | .throwing value, env, m =>
      (value.ledger answer env m).andThen fun value m => Ledger.single (.threw value) (m.throwing value)

end

/-- Evaluates a task that is a part of the tasks `under` it. -/
def Task.ledger : Nat → List Task → (task : Task) → Environment → Machine → Ledger task.Answer
  | 0, _, _ => fun env m => .single .cutOff (Action.cutOff env m)
  | rank + 1, under, task => fun env m =>
      match task.enter env m with
      | .error error m => .single (.refused task under error m) (.error error m)
      | .ok () m =>
          let inner := task.rule.ledger (ledger rank (task :: under)) (task :: under) (rank + 1) env m
          let outcome := inner.outcome.mapMachine task.leave
          ⟨.entered task under :: inner.events ++ [.left task outcome.error? outcome.machine],
            inner.since + 1, outcome⟩

/-- The ledger of what runs from outside. -/
def Eval.history {α : Type} (eval : Eval α) (env : Environment) (m : Machine) : Ledger α :=
  eval.ledger (Task.ledger (env.rank m) []) env m

/-! ## Events -/

section

variable {α β : Type} {answer : (task : Task) → Environment → Machine → Ledger task.Answer}

theorem Ledger.handled_none (under : List Task) (body : Ledger α) (env : Environment) :
    body.handled answer under none env = body := by
  unfold handled
  split <;> trivial

theorem Ledger.finalized_none (before : Ledger α) (env : Environment) :
    before.finalized answer none env = before := by
  unfold finalized
  split <;> trivial

/-- What has happened stays, whatever comes next. -/
theorem Ledger.prefix_andThen (first : Ledger α) (next : α → Machine → Ledger β) :
    first.events <+: (first.andThen next).events := by
  unfold andThen
  cases first.outcome with
  | ok value m => exact List.prefix_append _ _
  | error error m => exact List.prefix_rfl

theorem Ledger.prefix_handled (under : List Task) (body : Ledger α)
    (handler : Option (Value → Eval α)) (env : Environment) :
    body.events <+: (body.handled answer under handler env).events := by
  unfold handled
  split
  · split
    · exact List.prefix_append _ _
    · exact List.prefix_rfl
  · exact List.prefix_rfl

theorem Ledger.prefix_finalized (before : Ledger α) (finalizer : Option (Eval (Option α)))
    (env : Environment) : before.events <+: (before.finalized answer finalizer env).events := by
  unfold finalized
  split
  · exact List.prefix_rfl
  · exact before.prefix_andThen _
  · split
    · dsimp only
      split <;> exact List.prefix_append _ _
    · exact List.prefix_rfl

/-- What a finalizer makes of an error that is caught, by how it ends itself. -/
def Outcome.replacing (error : ScriptError) (last : Option α) (m : Machine) : Outcome α :=
  match last with
  | some last => .ok last m
  | none => .error error m

theorem Ledger.finalized_caught
    (answer : (task : Task) → Environment → Machine → Ledger task.Answer) (env : Environment)
    (m : Machine) (events : List Event) (since : Nat) {error : ScriptError}
    (catchable : error.isCatchable = true) (finalizer : Eval (Option α)) :
    ∃ later, (⟨events, since, .error error m⟩ : Ledger α).finalized answer (some finalizer) env =
      ⟨events ++ (finalizer.ledger answer env m).events, later,
        (finalizer.ledger answer env m).outcome.andThen (Outcome.replacing error)⟩ := by
  simp only [finalized, catchable, if_true]
  rcases (finalizer.ledger answer env m).outcome with ⟨_ | last, after⟩ | ⟨failed, after⟩ <;>
    exact ⟨_, rfl⟩

end

/-! ## Outcomes -/

theorem Ledger.andThen_outcome {α β : Type} (first : Ledger α)
    (next : α → Machine → Ledger β) :
    (first.andThen next).outcome =
      first.outcome.andThen fun value m => (next value m).outcome := by
  unfold andThen
  cases first.outcome <;> rfl

section

variable {α : Type} {kept : (task : Task) → Environment → Machine → Ledger task.Answer}
  {answer : (task : Task) → Action task.Answer}
  (answers : ∀ task env m, (kept task env m).outcome = answer task env m)

include answers

theorem Eval.ledger_outcome (eval : Eval α) (env : Environment) (m : Machine) :
    (eval.ledger kept env m).outcome = eval.run answer env m := by
  induction eval generalizing m with
  | done value => rfl
  | perform op next ih => simp only [ledger, Ledger.andThen_outcome, Ledger.single, ih, run]
  | ask task next ih => simp only [ledger, Ledger.andThen_outcome, answers, ih, run]

omit answers in
theorem Ledger.repeated_outcome {σ : Type}
    {turn : σ → Environment → Machine → Ledger (Turn σ α)} {plain : σ → Action (Turn σ α)}
    (turns : ∀ state env m, (turn state env m).outcome = plain state env m) (bound : Nat)
    (state : σ) (env : Environment) (m : Machine) :
    (Ledger.repeated turn bound state env m).outcome = Action.repeated plain bound state env m := by
  induction bound generalizing state m with
  | zero => rfl
  | succ bound ih =>
      simp only [repeated, Ledger.andThen_outcome, turns, Action.repeated]
      congr 1
      funext reached m
      cases reached with
      | again state => exact ih state m
      | finished value => rfl

theorem Ledger.handled_outcome (under : List Task) (body : Ledger α)
    (handler : Option (Value → Eval α)) (env : Environment) :
    (body.handled kept under handler env).outcome = body.outcome.handled answer handler env := by
  rcases body with ⟨events, since, outcome⟩
  cases outcome with
  | ok value m => rfl
  | error error m =>
      cases handler with
      | none => rfl
      | some handler =>
          unfold handled Outcome.handled
          cases catchable : error.isCatchable with
          | false => simp [catchable]
          | true => simp [catchable, Eval.ledger_outcome answers]

theorem Ledger.finalized_outcome (before : Ledger α) (finalizer : Option (Eval (Option α)))
    (env : Environment) :
    (before.finalized kept finalizer env).outcome =
      before.outcome.finalized answer finalizer env := by
  rcases before with ⟨events, since, outcome⟩
  cases finalizer with
  | none => cases outcome <;> rfl
  | some finalizer =>
      cases outcome with
      | ok value m =>
          simp [finalized, Ledger.andThen_outcome, Eval.ledger_outcome answers]
      | error error m =>
          cases catchable : error.isCatchable with
          | false => simp [finalized, catchable, Outcome.finalized_passed]
          | true =>
              rw [Outcome.finalized_caught _ _ catchable, ← Eval.ledger_outcome answers]
              simp only [finalized, catchable, if_true]
              rcases (finalizer.ledger kept env m).outcome with ⟨_ | last, m'⟩ | ⟨error', m'⟩ <;> rfl

theorem Rule.ledger_outcome (under : List Task) (turns : Nat) (rule : Rule α)
    (env : Environment) (m : Machine) :
    (rule.ledger kept under turns env m).outcome = rule.run answer turns env m := by
  cases rule with
  | once eval => exact Eval.ledger_outcome answers eval env m
  | repeated first turn =>
      simp only [ledger, run, Ledger.andThen_outcome, Eval.ledger_outcome answers]
      congr 1
      funext state m
      exact Ledger.repeated_outcome
        (fun state env m => Eval.ledger_outcome answers (turn state) env m) turns state env m
  | guarded body handler finalizer =>
      simp only [ledger, run, Ledger.finalized_outcome answers, Ledger.handled_outcome answers,
        Eval.ledger_outcome answers]
  | throwing value =>
      simp only [ledger, run, Ledger.andThen_outcome, Eval.ledger_outcome answers, Ledger.single]

end

theorem Task.ledger_outcome (rank : Nat) (under : List Task) (task : Task) (env : Environment)
    (m : Machine) : (task.ledger rank under env m).outcome = task.evaluate rank env m := by
  induction rank generalizing under task env m with
  | zero => rfl
  | succ rank ih =>
      simp only [ledger, evaluate]
      cases task.enter env m with
      | error error m => rfl
      | ok value m =>
          simp only [Outcome.andThen_ok, Rule.ledger_outcome (ih (task :: under))]

/-- Keeping a ledger changes nothing of an evaluation. -/
theorem Eval.history_outcome {α : Type} (eval : Eval α) (env : Environment) (m : Machine) :
    (eval.history env m).outcome = eval.start env m :=
  eval.ledger_outcome (Task.ledger_outcome (env.rank m) []) env m

end StrategyQubo.Script
