import StrategyQubo.Proofs.Asking
import StrategyQubo.Proofs.Granting
import StrategyQubo.Proofs.Ledger

namespace StrategyQubo.Script

/-! # Courses of evaluations

How the events of an evaluation hang together, with the values forgotten that
its parts answer.  No course is ever cut off.  A law of all evaluations is a law
of courses, and is proved by induction on them.
-/

/-- In a try statement whose catch clause has a name, the handler begins with
    binding that name, in a scope of its own, to the value it is given. -/
def BindsGiven (under : List Task) (given : Value) (events : List Event) : Prop :=
  ∀ block name handler finalizer scope outer,
    under = .statement (.tryBlock block (some name) (some handler) finalizer) scope :: outer →
      ∃ opened inner bound rest,
        events = .performed (.newScope scope false) none opened ::
          .performed (.declare inner name given true) none bound :: rest ∧
        (bound.scopeAt inner).find? name = some ⟨given, true⟩

/-- The course from one machine to another, of tasks that are parts of those
    `under` them.  A failure is an error and the count of events since it was
    raised. -/
inductive Course (env : Environment) : List Task → Machine → List Event →
    Option (ScriptError × Nat) → Machine → Prop where
  | nothing {under m} : Course env under m [] none m
  | performed {under m} (op : Operation) :
      Course env under m
        [.performed op (op.run env m).error? (op.run env m).machine]
        ((op.run env m).error?.map fun error => (error, 0)) (op.run env m).machine
  | threw {under m} (value : Value) :
      Course env under m [.threw value] (some (.thrown (value.display m.heap), 0))
        { m with thrown := some value }
  | refused {under m after error} (task : Task)
      (asked : ∀ parent ∈ under.head?, parent.MayAsk task)
      (refused : task.Refused env m error after) :
      Course env under m [.refused task under error after] (some (error, 0)) after
  | task {under m entered events failure? last} (task : Task)
      (asked : ∀ parent ∈ under.head?, parent.MayAsk task)
      (granted : task.Granted env m entered)
      (inner : Course env (task :: under) entered events failure? last) :
      Course env under m
        (.entered task under :: events ++ [.left task (failure?.map (·.1)) (task.leave last)])
        (failure?.map fun (error, since) => (error, since + 1)) (task.leave last)
  | andThen {under m first middle second failure? after}
      (begun : Course env under m first none middle)
      (rest : Course env under middle second failure? after) :
      Course env under m (first ++ second) failure? after
  | caught {under m first error since middle second failure? after}
      (body : Course env under m first (some (error, since)) middle)
      (catchable : error.isCatchable = true)
      (binds : BindsGiven under (middle.catching error).1 second)
      (handler : Course env under (middle.catching error).2 second failure? after) :
      Course env under m
        (first ++ .caught under error since (middle.catching error).1 :: second) failure? after
  | passed {under m first error since middle second after}
      (before : Course env under m first (some (error, since)) middle)
      (catchable : error.isCatchable = true)
      (finalizer : Course env under middle second none after) :
      Course env under m (first ++ second) (some (error, since + second.length)) after
  | replaced {under m first error since middle second failure? after}
      (before : Course env under m first (some (error, since)) middle)
      (catchable : error.isCatchable = true)
      (finalizer : Course env under middle second failure? after) :
      Course env under m (first ++ second) failure? after

/-! ## Steps -/

theorem Machine.catching_frame (m : Machine) (error : ScriptError) :
    ∃ heap thrown, (m.catching error).2 = { m with heap := heap, thrown := thrown } := by
  cases error <;> exact ⟨_, _, rfl⟩

section

variable {env : Environment} {m after : Machine}

/-- No error that a script can catch leaves more steps behind than the budget
    has. -/
def Machine.StepsWithin (m : Machine) (error? : Option ScriptError) (env : Environment) : Prop :=
  m.steps ≤ env.limits.stepBudget + 1 ∧
    ((∀ error ∈ error?, error.isCatchable = true) → m.steps ≤ env.limits.stepBudget)

theorem Operation.run_steps (op : Operation) (env : Environment) (m : Machine) :
    m.steps ≤ (op.run env m).machine.steps ∧
    (m.steps ≤ env.limits.stepBudget →
      (op.run env m).machine.StepsWithin (op.run env m).error? env) := by
  unfold Machine.StepsWithin
  by_cases noTick : op = .tick
  · subst noTick
    rcases Action.tick_cases env m with ⟨ticked, within⟩ | ⟨error, budget, failed⟩
    · simp only [run, ticked, Outcome.machine_ok, Outcome.error?_ok]
      omega
    · simp only [run, failed, Outcome.machine_error, Outcome.error?_error]
      refine ⟨by omega, fun within => ⟨by omega, fun catchable => ?_⟩⟩
      simp [budget.final] at catchable
  · obtain ⟨_, _, _, _, _, _, frame, steps⟩ := op.run_frame env m
    simp only [frame, steps noTick]
    omega

variable {under : List Task} {events : List Event} {failure? : Option (ScriptError × Nat)}

theorem Course.steps_le (course : Course env under m events failure? after) :
    m.steps ≤ after.steps := by
  induction course with
  | nothing => exact Nat.le_refl _
  | performed op => exact (op.run_steps env _).1
  | threw value => exact Nat.le_refl _
  | refused task asked refused => exact refused.steps.1
  | task task asked granted inner ih =>
      rw [task.leave_eq]
      rw [granted.machine] at ih
      exact Nat.le_of_succ_le ih
  | andThen begun rest first second => exact Nat.le_trans first second
  | @caught _ _ _ error _ middle _ _ _ body catchable binds handler first second =>
      obtain ⟨_, _, frame⟩ := middle.catching_frame error
      rw [frame] at second
      exact Nat.le_trans first second
  | passed before catchable finalizer first second => exact Nat.le_trans first second
  | replaced before catchable finalizer first second => exact Nat.le_trans first second

theorem Course.steps_within (course : Course env under m events failure? after)
    (within : m.steps ≤ env.limits.stepBudget) :
    after.StepsWithin (failure?.map (·.1)) env := by
  induction course with
  | nothing => exact ⟨by omega, fun _ => within⟩
  | performed op => simpa [Option.map_map, Function.comp_def] using (op.run_steps env _).2 within
  | threw value => exact ⟨Nat.le_succ_of_le within, fun _ => within⟩
  | refused task asked refused =>
      have steps := refused.steps
      have final := refused.final
      exact ⟨by omega, fun catchable => by simp [final] at catchable⟩
  | task task asked granted inner ih =>
      rw [task.leave_eq]
      simpa [Machine.StepsWithin, Option.map_map, Function.comp_def] using ih granted.steps
  | andThen begun rest first second => exact second ((first within).2 (by simp))
  | @caught _ _ _ error _ middle _ _ _ body catchable binds handler first second =>
      obtain ⟨_, _, frame⟩ := middle.catching_frame error
      rw [frame] at second
      exact second ((first within).2 (by simp [catchable]))
  | passed before catchable finalizer first second =>
      have steps := second ((first within).2 (by simp [catchable]))
      exact ⟨steps.1, fun _ => steps.2 (by simp)⟩
  | replaced before catchable finalizer first second =>
      exact second ((first within).2 (by simp [catchable]))

end

/-! ## Ledgers follow courses -/

namespace Ledger

variable {α β : Type} {env : Environment} {under : List Task} {m : Machine}

def failure? (ledger : Ledger α) : Option (ScriptError × Nat) :=
  ledger.outcome.error?.map fun error => (error, ledger.since)

def Follows (ledger : Ledger α) (env : Environment) (under : List Task) (m : Machine) : Prop :=
  Course env under m ledger.events ledger.failure? ledger.outcome.machine

theorem Follows.steps_le {ledger : Ledger α} (follows : ledger.Follows env under m) {value : α}
    {after : Machine} (ended : ledger.outcome = .ok value after) : m.steps ≤ after.steps := by
  simpa [ended] using Course.steps_le follows

theorem Follows.andThen {first : Ledger α} {next : α → Machine → Ledger β}
    (follows : first.Follows env under m)
    (later : ∀ value after, first.outcome = .ok value after →
      (next value after).Follows env under after) :
    (first.andThen next).Follows env under m := by
  unfold Follows failure? Ledger.andThen
  cases ended : first.outcome with
  | ok value after =>
      have begun : Course env under m first.events none after := by
        simpa [Follows, failure?, ended] using follows
      exact begun.andThen (later value after ended)
  | error error after =>
      simpa [Follows, failure?, ended] using follows

theorem Follows.goesOn {ledger : Ledger α} (follows : ledger.Follows env under m) {value : α}
    {after : Machine} (ended : ledger.outcome = .ok value after) :
    Course env under m ledger.events none after := by
  simpa [Follows, failure?, ended] using follows

theorem Follows.fails {ledger : Ledger α} (follows : ledger.Follows env under m)
    {error : ScriptError} {after : Machine} (ended : ledger.outcome = .error error after) :
    Course env under m ledger.events (some (error, ledger.since)) after := by
  simpa [Follows, failure?, ended] using follows

end Ledger

/-- What a rule needs of those who evaluate its parts: they follow courses, and
    take a step at least, as long as there are no more steps left than `room`. -/
structure Answers (env : Environment) (under : List Task) (allowed : Task → Prop) (room : Nat)
    (answer : (task : Task) → Environment → Machine → Ledger task.Answer) : Prop where
  follows : ∀ part, allowed part → ∀ m, env.limits.stepBudget - m.steps < room →
    (answer part env m).Follows env under m
  advances : ∀ part, allowed part → ∀ m, env.limits.stepBudget - m.steps < room →
    ∀ value after, (answer part env m).outcome = .ok value after → m.steps < after.steps

section

variable {α : Type} {env : Environment} {under : List Task} {allowed : Task → Prop} {room : Nat}
  {answer : (task : Task) → Environment → Machine → Ledger task.Answer}
  (answers : Answers env under allowed room answer)

include answers

theorem Eval.ledger_follows (eval : Eval α) (asks : eval.Asks allowed) (m : Machine)
    (enough : env.limits.stepBudget - m.steps < room) :
    (eval.ledger answer env m).Follows env under m := by
  induction eval generalizing m with
  | done value => exact .nothing
  | perform op next ih =>
      have done : (Ledger.single (.performed op (op.run env m).error? (op.run env m).machine)
          (op.run env m)).Follows env under m := .performed op
      refine done.andThen fun value after ran => ?_
      have steps := done.steps_le ran
      exact ih value (asks value) after (by omega)
  | ask task next ih =>
      have part := answers.follows task asks.1 m enough
      refine part.andThen fun value after ran => ?_
      have steps := part.steps_le ran
      exact ih value (asks.2 value) after (by omega)

/-- A turn that leads to another one has taken a step. -/
theorem Eval.ledger_advances {σ : Type} (eval : Eval (Turn σ α)) (asks : eval.Asks allowed)
    (advances : eval.Advances) (m : Machine) (enough : env.limits.stepBudget - m.steps < room)
    {state : σ} {after : Machine}
    (again : (eval.ledger answer env m).outcome = .ok (.again state) after) :
    m.steps < after.steps := by
  induction eval generalizing m with
  | done reached =>
      cases reached with
      | again state => exact advances.elim
      | finished value => cases again
  | perform op next ih =>
      simp only [ledger, Ledger.andThen_outcome, Ledger.single] at again
      cases ran : op.run env m with
      | error error middle => simp [ran] at again
      | ok value middle =>
          rw [ran, Outcome.andThen_ok] at again
          have steps : m.steps ≤ middle.steps := by simpa [ran] using (op.run_steps env m).1
          have follows := Eval.ledger_follows answers (next value) (asks value) middle (by omega)
          -- A tick is the step that the turn owes; any other operation leaves it owing.
          by_cases ticks : op = .tick
          · subst ticks
            have later := follows.steps_le again
            rcases Action.tick_cases env m with ⟨ticked, -⟩ | ⟨error, -, failed⟩
            · cases ticked.symm.trans ran
              exact later
            · cases failed.symm.trans ran
          · have rest : (next value).Advances := by
              cases op <;> first | exact absurd rfl ticks | exact advances value
            exact Nat.lt_of_le_of_lt steps (ih value (asks value) rest middle (by omega) again)
  | ask task next ih =>
      simp only [ledger, Ledger.andThen_outcome] at again
      cases ran : (answer task env m).outcome with
      | error error middle => simp [ran] at again
      | ok value middle =>
          rw [ran, Outcome.andThen_ok] at again
          have steps := answers.advances task asks.1 m enough value middle ran
          have follows := Eval.ledger_follows answers (next value) (asks.2 value) middle (by omega)
          exact Nat.lt_of_lt_of_le steps (follows.steps_le again)

omit answers in
theorem Ledger.repeated_follows {σ : Type}
    {turn : σ → Environment → Machine → Ledger (Turn σ α)}
    (follows : ∀ state m, env.limits.stepBudget - m.steps < room →
      (turn state env m).Follows env under m)
    (advances : ∀ state m next after, env.limits.stepBudget - m.steps < room →
      (turn state env m).outcome = .ok (.again next) after → m.steps < after.steps)
    {bound : Nat} (state : σ) (m : Machine) (within : m.steps ≤ env.limits.stepBudget)
    (enough : env.limits.stepBudget - m.steps < room)
    (lasts : env.limits.stepBudget - m.steps < bound) :
    (Ledger.repeated turn bound state env m).Follows env under m := by
  induction bound generalizing state m with
  | zero => omega
  | succ bound ih =>
      have first := follows state m enough
      refine first.andThen fun reached after ran => ?_
      cases reached with
      | again next =>
          -- The turn has taken a step, so that turns and budget run out together.
          have steps := advances state m next after enough ran
          have still := ((first.goesOn ran).steps_within within).2 (by simp)
          exact ih next after still (by omega) (by omega)
      | finished value => exact .nothing

theorem Ledger.handled_follows {body : Ledger α} (follows : body.Follows env under m)
    (handler : Option (Value → Eval α))
    (asks : ∀ clause ∈ handler, ∀ value, (clause value).Asks allowed)
    (binds : ∀ clause ∈ handler, ∀ given m,
      BindsGiven under given ((clause given).ledger answer env m).events)
    (enough : env.limits.stepBudget - m.steps < room) :
    (body.handled answer under handler env).Follows env under m := by
  cases handler with
  | none => cases ended : body.outcome <;> simpa [handled, ended] using follows
  | some clause =>
      cases ended : body.outcome with
      | ok value after => simpa [handled, ended] using follows
      | error error middle =>
          cases catchable : error.isCatchable with
          | false => simpa [handled, ended, catchable] using follows
          | true =>
              have failed := follows.fails ended
              obtain ⟨_, _, frame⟩ := middle.catching_frame error
              have steps := failed.steps_le
              have still : env.limits.stepBudget - middle.steps < room := by omega
              have rest := Eval.ledger_follows answers (clause (middle.catching error).1)
                (asks clause rfl _) (middle.catching error).2 (by rw [frame]; exact still)
              have course := failed.caught catchable (binds clause rfl _ _) rest
              simpa [handled, ended, catchable, Follows, failure?] using course

theorem Ledger.finalized_follows {before : Ledger α} (follows : before.Follows env under m)
    (finalizer : Option (Eval (Option α))) (asks : ∀ last ∈ finalizer, last.Asks allowed)
    (enough : env.limits.stepBudget - m.steps < room) :
    (before.finalized answer finalizer env).Follows env under m := by
  cases finalizer with
  | none => cases ended : before.outcome <;> simpa [finalized, ended] using follows
  | some finalizer =>
      have final (middle : Machine) (steps : m.steps ≤ middle.steps) :=
        Eval.ledger_follows answers finalizer (asks finalizer rfl) middle (by omega)
      cases ended : before.outcome with
      | ok value middle =>
          have steps := follows.steps_le ended
          simp only [finalized, ended]
          refine follows.andThen fun value' middle' same => ?_
          cases ended.symm.trans same
          exact (final middle steps).andThen fun last after _ => .nothing
      | error error middle =>
          cases catchable : error.isCatchable with
          | false => simpa [finalized, ended, catchable] using follows
          | true =>
              have failed := follows.fails ended
              have rest := final middle failed.steps_le
              simp only [finalized, ended, catchable, if_true]
              cases finished : (finalizer.ledger answer env middle).outcome with
              | error error' after => exact failed.replaced catchable (rest.fails finished)
              | ok last after =>
                  have passed := rest.goesOn finished
                  cases last with
                  | none => exact failed.passed catchable passed
                  | some last => exact failed.replaced catchable passed

/-- What a handler does begins with binding what it is given, if the tasks under
    way say that it has a name for it. -/
def Rule.Binds (under : List Task) : Rule α → Prop
  | .guarded _ (some clause) _ =>
      ∀ answer env given m, BindsGiven under given ((clause given).ledger answer env m).events
  | _ => True

theorem Rule.ledger_follows (rule : Rule α) (asks : rule.Asks allowed) (advances : rule.Advances)
    (binds : rule.Binds under) {turns : Nat} (m : Machine)
    (within : m.steps ≤ env.limits.stepBudget) (enough : env.limits.stepBudget - m.steps < room)
    (lasts : env.limits.stepBudget - m.steps < turns) :
    (rule.ledger answer under turns env m).Follows env under m := by
  cases rule with
  | once eval => exact Eval.ledger_follows answers eval asks m enough
  | repeated first turn =>
      have begun := Eval.ledger_follows answers first asks.1 m enough
      refine begun.andThen fun state after ran => ?_
      have steps := begun.steps_le ran
      have still := ((begun.goesOn ran).steps_within within).2 (by simp)
      have enough' : env.limits.stepBudget - after.steps < room := by omega
      refine Ledger.repeated_follows ?_ ?_ state after still enough' (by omega)
      · exact fun state m enough => Eval.ledger_follows answers (turn state) (asks.2 state) m enough
      · exact fun state m next after enough again =>
          Eval.ledger_advances answers (turn state) (asks.2 state) (advances state) m enough again
  | guarded body handler finalizer =>
      have tried := Eval.ledger_follows answers body asks.1 m enough
      have handled := Ledger.handled_follows answers tried handler asks.2.1
        (fun clause same given m => by cases same; exact binds answer env given m) enough
      exact Ledger.finalized_follows answers handled finalizer asks.2.2 enough
  | throwing value =>
      exact (Eval.ledger_follows answers value asks m enough).andThen fun value after _ => .threw value

end

/-! ## Evaluations follow courses -/

theorem Task.rule_binds (task : Task) (outer : List Task) : task.rule.Binds (task :: outer) := by
  cases task with
  | expression form scope => trivial
  | call function arguments =>
      cases function with
      | bound identity method =>
          cases method with
          | array ref method => cases method <;> trivial
          | _ => trivial
      | _ => trivial
  | statement form scope =>
      cases form with
      | tryBlock block binding handler finalizer =>
          cases handler with
          | none => trivial
          | some handler =>
              rintro answer env given m _ name _ _ _ _ ⟨rfl⟩
              refine ⟨_, m.scopes.size, _, _, rfl, ?_⟩
              exact Machine.declare_binds (by simp) name given true
      | _ => trivial

/-- By induction on how deep parts may be nested.  Entering a task takes a step,
    so that the room its parts need is smaller by one. -/
theorem Task.ledger_follows {env : Environment} {rank : Nat} {under : List Task} (task : Task)
    (asked : ∀ parent ∈ under.head?, parent.MayAsk task) (m : Machine)
    (enough : env.limits.stepBudget - m.steps < rank) :
    (task.ledger rank under env m).Follows env under m ∧
      ∀ value after, (task.ledger rank under env m).outcome = .ok value after →
        m.steps < after.steps := by
  induction rank generalizing under task m with
  | zero => omega
  | succ rank ih =>
      rcases task.enter_cases env m with ⟨entered, grants, granted⟩ | ⟨error, after, refuses, refused⟩
      · have took : entered.steps = m.steps + 1 := congrArg Machine.steps granted.machine
        have within := granted.steps
        have answers : Answers env (task :: under) task.MayAsk rank (ledger rank (task :: under)) :=
          ⟨fun part allowed m enough => (ih part (by simpa using allowed) m enough).1,
            fun part allowed m enough => (ih part (by simpa using allowed) m enough).2⟩
        have inner := Rule.ledger_follows answers task.rule task.rule_asks task.rule_advances
          (task.rule_binds under) entered within (by omega) (show _ < rank + 1 by omega)
        constructor
        · have course := Course.task task asked granted inner
          simpa [ledger, grants, Ledger.Follows, Ledger.failure?, Function.comp_def] using course
        · intro value after ended
          simp only [ledger, grants] at ended
          cases ran : (task.rule.ledger (ledger rank (task :: under)) (task :: under) (rank + 1)
              env entered).outcome with
          | error error last => simp [ran, Outcome.mapMachine] at ended
          | ok value last =>
              have steps := inner.steps_le ran
              simp only [ran, Outcome.mapMachine] at ended
              cases ended
              rw [task.leave_eq]
              exact Nat.lt_of_lt_of_le (by omega) steps
      · have course := Course.refused task asked refused
        exact ⟨by simpa [ledger, refuses, Ledger.Follows, Ledger.failure?, Ledger.single] using course,
          by simp [ledger, refuses, Ledger.single]⟩

/-- Whatever runs from outside follows a course. -/
theorem Eval.history_follows {α : Type} (eval : Eval α) (env : Environment) (m : Machine) :
    (eval.history env m).Follows env [] m := by
  have answers : Answers env [] (fun _ => True) (env.rank m) (Task.ledger (env.rank m) []) :=
    ⟨fun part _ m enough => (part.ledger_follows (by simp) m enough).1,
      fun part _ m enough => (part.ledger_follows (by simp) m enough).2⟩
  exact Eval.ledger_follows answers eval (Eval.asks_of_forall (fun _ => trivial) eval) m
    (by unfold Environment.rank; omega)

end StrategyQubo.Script
