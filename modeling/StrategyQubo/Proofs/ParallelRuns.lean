import StrategyQubo.Proofs.DepthCounters

namespace StrategyQubo.Script

/-! # Runs side by side

The same evaluation, on two machines that hold the same data and at two points
of their budgets.  The two do the same until a budget ends one of them.
-/

def ScriptError.isThrown : ScriptError → Bool
  | .thrown _ => true
  | _ => false

/-- The machines have the same data and the same tasks under way.  They may have
    made different steps, and may have a different value in flight unless they
    `agree` on it. -/
inductive Machine.Alike (agree : Prop) (m : Machine) : Machine → Prop where
  | intro (steps : Nat) (thrown : Option Value) (log : Array LogEntry)
      (inFlight : agree → thrown = m.thrown) :
      Alike agree m { m with steps := steps, thrown := thrown, log := log }

/-- An error that has been thrown has its value in flight. -/
inductive Outcome.Alike {α : Type} (agree : Prop) : Outcome α → Outcome α → Prop where
  | ok {m other} (value : α) (machines : m.Alike agree other) :
      Alike agree (.ok value m) (.ok value other)
  | error {m other} (error : ScriptError)
      (machines : m.Alike (agree ∨ error.isThrown = true) other) :
      Alike agree (.error error m) (.error error other)

namespace Machine

variable {m other : Machine} {agree weaker : Prop}

theorem Alike.mono (alike : m.Alike agree other) (implies : weaker → agree) :
    m.Alike weaker other := by
  cases alike with
  | intro steps thrown log inFlight => exact .intro _ _ _ fun holds => inFlight (implies holds)

/-- Only the two that a `throw` sets off have to agree on what is in flight. -/
theorem Alike.failed (alike : m.Alike agree other) {error : ScriptError}
    (silent : error.isThrown = false) : m.Alike (agree ∨ error.isThrown = true) other :=
  alike.mono fun holds => holds.resolve_right (by simp [silent])

theorem Alike.scopes (alike : m.Alike agree other) : other.scopes = m.scopes := by
  cases alike; rfl

theorem Alike.heap (alike : m.Alike agree other) : other.heap = m.heap := by
  cases alike; rfl

theorem Alike.depth (alike : m.Alike agree other) : other.depth = m.depth := by
  cases alike; rfl

theorem Alike.nesting (alike : m.Alike agree other) : other.nesting = m.nesting := by
  cases alike; rfl

theorem Alike.leave (alike : m.Alike agree other) (task : Task) :
    (task.leave m).Alike agree (task.leave other) := by
  cases alike with
  | intro steps thrown log inFlight =>
      rw [task.leave_eq, task.leave_eq]
      exact .intro _ _ _ inFlight

/-- What a catch clause is given is the same, and nothing is in flight then that
    was thrown. -/
theorem Alike.catching {error : ScriptError}
    (alike : m.Alike (agree ∨ error.isThrown = true) other) :
    (other.catching error).1 = (m.catching error).1 ∧
      (m.catching error).2.Alike agree (other.catching error).2 := by
  cases alike with
  | intro steps thrown log inFlight =>
      cases error with
      | thrown text =>
          refine ⟨?_, .intro steps none log fun _ => rfl⟩
          change thrown.getD (.string text) = m.thrown.getD (.string text)
          rw [inFlight (.inr rfl)]
      | _ => exact ⟨rfl, .intro _ _ _ fun holds => inFlight (.inl holds)⟩

/-! ## Names -/

section

variable (same : other.scopes = m.scopes)

include same

theorem scopeAt_of_scopes (scope : ScopeId) : other.scopeAt scope = m.scopeAt scope := by
  simp only [scopeAt, same]

theorem resolve_of_scopes (scope : ScopeId) (name : String) :
    other.resolve scope name = m.resolve scope name := by
  have within (bound : Nat) (scope : ScopeId) :
      other.resolveWithin name bound scope = m.resolveWithin name bound scope := by
    induction bound generalizing scope with
    | zero => rfl
    | succ bound ih => simp only [resolveWithin, scopeAt_of_scopes same, ih]
  rw [resolve, resolve, same, within]

theorem functionScopeOf_of_scopes (scope : ScopeId) :
    other.functionScopeOf scope = m.functionScopeOf scope := by
  have within (bound : Nat) (scope : ScopeId) :
      other.functionScopeWithin bound scope = m.functionScopeWithin bound scope := by
    induction bound generalizing scope with
    | zero => rfl
    | succ bound ih => simp only [functionScopeWithin, scopeAt_of_scopes same, ih]
  rw [functionScopeOf, functionScopeOf, same, within]

theorem binding?_of_scopes (scope : ScopeId) (name : String) :
    other.binding? scope name = m.binding? scope name := by
  simp only [binding?, resolve_of_scopes same, scopeAt_of_scopes same]

end

theorem Alike.declare (alike : m.Alike agree other) (scope : ScopeId) (name : String)
    (value : Value) (isMutable : Bool) :
    (m.declare scope name value isMutable).Alike agree (other.declare scope name value isMutable) := by
  cases alike with
  | intro steps thrown log inFlight => exact .intro _ _ _ inFlight

theorem Alike.declareAllMissing (alike : m.Alike agree other) (scope : ScopeId)
    (names : List String) :
    (m.declareAllMissing scope names).Alike agree (other.declareAllMissing scope names) := by
  simp only [Machine.declareAllMissing, functionScopeOf_of_scopes alike.scopes]
  generalize m.functionScopeOf scope = target
  induction names generalizing m other with
  | nil => exact alike
  | cons name rest ih =>
      refine ih ?_
      simp only [declareMissing, scopeAt_of_scopes alike.scopes]
      split
      · exact alike
      · exact alike.declare ..

end Machine

/-! ## Outcomes -/

/-- It ends because a budget is exhausted. -/
def Outcome.RunsOut {α : Type} (env : Environment) (outcome : Outcome α) : Prop :=
  ∃ error m, outcome = .error error m ∧ error.IsBudget env m.steps

/-- The same comes of both, unless one of them runs out of a budget. -/
def Outcome.Parallel {α : Type} (env env' : Environment) (agree : Prop)
    (outcome other : Outcome α) : Prop :=
  outcome.Alike agree other ∨ outcome.RunsOut env ∨ other.RunsOut env'

section

variable {α β : Type} {env env' : Environment} {agree : Prop} {first first' : Outcome α}
  {next next' : α → Machine → Outcome β}

theorem Outcome.RunsOut.andThen (out : first.RunsOut env) (next : α → Machine → Outcome β) :
    (first.andThen next).RunsOut env := by
  obtain ⟨error, m, rfl, budget⟩ := out
  exact ⟨error, m, rfl, budget⟩

theorem Outcome.Parallel.andThen (parallel : first.Parallel env env' agree first')
    (later : ∀ value m other, m.Alike agree other →
      (next value m).Parallel env env' agree (next' value other)) :
    (first.andThen next).Parallel env env' agree (first'.andThen next') := by
  rcases parallel with alike | out | out
  · cases alike with
    | ok value machines => exact later value _ _ machines
    | error error machines => exact .inl (.error error machines)
  · exact .inr (.inl (out.andThen next))
  · exact .inr (.inr (out.andThen next'))

end

/-! ## Steps -/

section

variable {env env' : Environment} (limits : env'.limits = env.limits) {m other : Machine}
  {agree : Prop}

include limits

/-- An operation does the same on both machines, unless it is a tick that one of
    the budgets does not allow. -/
theorem Operation.run_alike (op : Operation) (noTick : op ≠ .tick)
    (alike : m.Alike agree other) : (op.run env m).Alike agree (op.run env' other) := by
  cases op with
  | tick => exact absurd rfl noTick
  | typeError fault => exact .error _ (alike.failed rfl)
  | heap =>
      simp only [run, alike.heap]
      exact .ok _ alike
  | checkLength requested =>
      simp only [run, Action.checkLength, limits]
      split
      · exact .error _ (alike.failed rfl)
      · exact .ok _ alike
  | stringify value =>
      simp only [run, Action.stringify, alike.heap, limits]
      split
      · exact .ok _ alike
      · exact .error _ (alike.failed rfl)
      · exact .error _ (alike.failed rfl)
  | setProperty target key value =>
      simp only [run, Action.setProperty, alike.heap, limits]
      split
      · cases alike with
        | intro steps thrown log inFlight => exact .ok _ (.intro _ _ _ inFlight)
      · next error refused =>
        have silent : error.isThrown = false := by
          rcases Heap.changeFor_error refused with ⟨_, rfl⟩ | ⟨_, rfl⟩ <;> rfl
        exact .error _ (alike.failed silent)
  | declare scope name value isMutable => exact .ok _ (alike.declare ..)
  | declareMissing scope names => exact .ok _ (alike.declareAllMissing ..)
  | resolves scope name =>
      simp only [run, Machine.resolve_of_scopes alike.scopes]
      exact .ok _ alike
  | lookup scope name =>
      simp only [run, Action.lookup, Machine.binding?_of_scopes alike.scopes]
      split
      · exact .ok _ alike
      · exact .error _ (alike.failed rfl)
  | assign scope name value =>
      simp only [run, Action.assign, Machine.resolve_of_scopes alike.scopes,
        Machine.scopeAt_of_scopes alike.scopes]
      split
      · split
        · exact .ok _ (alike.declare ..)
        · exact .error _ (alike.failed rfl)
      · exact .ok _ (alike.declare ..)
  | _ =>
      cases alike with
      | intro steps thrown log inFlight => exact .ok _ (.intro _ _ _ inFlight)

omit limits in
theorem Action.tick_parallel (alike : m.Alike agree other) :
    (tick env m).Parallel env env' agree (tick env' other) := by
  rcases tick_cases env m with ⟨ticked, -⟩ | ⟨error, budget, failed⟩
  · rcases tick_cases env' other with ⟨ticked', -⟩ | ⟨error, budget, failed⟩
    · rw [ticked, ticked']
      cases alike with
      | intro steps thrown log inFlight => exact .inl (.ok _ (.intro _ _ _ inFlight))
    · exact .inr (.inr ⟨error, _, failed, budget⟩)
  · exact .inr (.inl ⟨error, _, failed, budget⟩)

theorem Operation.run_parallel (op : Operation) (alike : m.Alike agree other) :
    (op.run env m).Parallel env env' agree (op.run env' other) := by
  by_cases ticks : op = .tick
  · subst ticks
    exact Action.tick_parallel alike
  · exact .inl (op.run_alike limits ticks alike)

theorem Task.enter_parallel (task : Task) (alike : m.Alike agree other) :
    (task.enter env m).Parallel env env' agree (task.enter env' other) := by
  have nested : (Action.enterNested env m).Parallel env env' agree
      (Action.enterNested env' other) := by
    simp only [Action.enterNested, alike.nesting]
    split
    · exact .inl (.error _ (alike.failed rfl))
    · refine (Action.tick_parallel alike).andThen fun _ m other alike => ?_
      cases alike with
      | intro steps thrown log inFlight => exact .inl (.ok _ (.intro _ _ _ inFlight))
  have closure : (Action.enterClosure env m).Parallel env env' agree
      (Action.enterClosure env' other) := by
    refine (Action.tick_parallel alike).andThen fun _ m other alike => ?_
    rw [limits, alike.depth]
    split
    · exact .inl (.error _ (alike.failed rfl))
    · cases alike with
      | intro steps thrown log inFlight => exact .inl (.ok _ (.intro _ _ _ inFlight))
  cases task with
  | statement form scope => exact nested
  | expression form scope => exact nested
  | call function arguments =>
      cases function with
      | closure function => exact closure
      | _ => exact Action.tick_parallel alike

end

/-! ## Ledgers -/

/-- The error of a limit for what is under way at once. -/
def ScriptError.isDepth : ScriptError → Bool
  | .nestingTooDeep _ => true
  | .callDepthExceeded _ => true
  | _ => false

theorem ScriptError.IsBudget.not_isDepth {error : ScriptError} {env : Environment} {steps : Nat}
    (budget : error.IsBudget env steps) : error.isDepth = false := by
  rcases budget with ⟨rfl, -⟩ | rfl <;> rfl

/-- A task that is accepted, or cut off by a depth limit. -/
structure Decision where
  task : Task
  under : List Task
  error? : Option ScriptError

def Event.decision? : Event → Option Decision
  | entered task under => some ⟨task, under, none⟩
  | refused task under error _ => if error.isDepth then some ⟨task, under, some error⟩ else none
  | _ => none

def decisions (events : List Event) : List Decision :=
  events.filterMap Event.decision?

@[simp] theorem decisions_append (first second : List Event) :
    decisions (first ++ second) = decisions first ++ decisions second :=
  List.filterMap_append

theorem decisions_cons (event : Event) (rest : List Event) :
    decisions (event :: rest) = event.decision?.toList ++ decisions rest := by
  unfold decisions
  rw [List.filterMap_cons]
  cases event.decision? <;> rfl

theorem decisions_begin {first second : List Event} (begins : first <+: second) :
    decisions first <+: decisions second :=
  begins.filterMap _

namespace Ledger

variable {α β : Type} {env env' : Environment} {agree : Prop}

/-- A budget ends the one, and the other decides the same and perhaps more. -/
structure StopsShort (env : Environment) (short long : Ledger α) : Prop where
  runsOut : short.outcome.RunsOut env
  begins : decisions short.events <+: decisions long.events

/-- Both decide the same and come to the same, unless a budget ends one of
    them. -/
def Parallel (env env' : Environment) (agree : Prop) (ledger other : Ledger α) : Prop :=
  decisions other.events = decisions ledger.events ∧ ledger.outcome.Alike agree other.outcome ∨
  ledger.StopsShort env other ∨ other.StopsShort env' ledger

variable {ledger other short long : Ledger α} {first first' : List Event} {since since' : Nat}

theorem decisions_single {event : Event} (silent : event.decision? = none) :
    decisions [event] = [] := by
  simp [decisions, silent]

theorem StopsShort.single {event : Event} {outcome : Outcome α} (silent : event.decision? = none)
    (runsOut : outcome.RunsOut env) (long : Ledger α) :
    (single event outcome).StopsShort env long :=
  ⟨runsOut, by rw [Ledger.single, decisions_single silent]; exact List.nil_prefix⟩

theorem Parallel.single {event event' : Event} {outcome outcome' : Outcome α}
    (silent : event.decision? = none) (silent' : event'.decision? = none)
    (parallel : outcome.Parallel env env' agree outcome') :
    (single event outcome).Parallel env env' agree (single event' outcome') := by
  rcases parallel with alike | out | out
  · exact .inl ⟨(decisions_single silent').trans (decisions_single silent).symm, alike⟩
  · exact .inr (.inl (.single silent out _))
  · exact .inr (.inr (.single silent' out _))

section

variable {wider : Prop} {rest rest' : Ledger β} {next : β → Machine → Outcome α}

theorem StopsShort.behind (same : decisions first' = decisions first)
    (stops : rest.StopsShort env rest') :
    StopsShort env ⟨first ++ rest.events, since, rest.outcome.andThen next⟩
      ⟨first' ++ rest'.events, since', rest'.outcome.andThen next⟩ := by
  refine ⟨stops.runsOut.andThen next, ?_⟩
  rw [decisions_append, decisions_append, same]
  exact (List.prefix_append_right_inj _).mpr stops.begins

/-- What comes behind the same decisions, with something made of its outcome. -/
theorem Parallel.behind (same : decisions first' = decisions first)
    (parallel : rest.Parallel env env' wider rest') (implies : agree → wider)
    (ends : ∀ value m other, m.Alike wider other →
      (next value m).Alike agree (next value other)) :
    Parallel env env' agree ⟨first ++ rest.events, since, rest.outcome.andThen next⟩
      ⟨first' ++ rest'.events, since', rest'.outcome.andThen next⟩ := by
  rcases parallel with ⟨equal, alike⟩ | stops | stops
  · refine .inl ⟨by rw [decisions_append, decisions_append, same, equal], ?_⟩
    rcases rest with ⟨_, _, outcome⟩
    rcases rest' with ⟨_, _, outcome'⟩
    cases alike with
    | ok value machines => exact ends value _ _ machines
    | error error machines =>
        exact .error error (machines.mono (Or.imp_left implies))
  · exact .inr (.inl (.behind same stops))
  · exact .inr (.inr (.behind same.symm stops))

end

theorem Parallel.after (same : decisions first' = decisions first)
    (parallel : ledger.Parallel env env' agree other) :
    Parallel env env' agree ⟨first ++ ledger.events, since, ledger.outcome⟩
      ⟨first' ++ other.events, since', other.outcome⟩ := by
  have unchanged (outcome : Outcome α) : outcome.andThen .ok = outcome := by
    cases outcome <;> rfl
  have behind : Parallel env env' agree
      ⟨first ++ ledger.events, since, ledger.outcome.andThen .ok⟩
      ⟨first' ++ other.events, since', other.outcome.andThen .ok⟩ :=
    .behind same parallel id fun value _ _ machines => .ok value machines
  rwa [unchanged, unchanged] at behind

/-- What runs out of a budget goes no further, where the other may. -/
theorem StopsShort.goesOn {short' long' : Ledger β} (stops : short.StopsShort env long)
    (runsOut : short'.outcome.RunsOut env) (same : short'.events = short.events)
    (further : long.events <+: long'.events) : short'.StopsShort env long' :=
  ⟨runsOut, same ▸ stops.begins.trans (decisions_begin further)⟩

theorem StopsShort.andThen {next next' : α → Machine → Ledger β}
    (stops : short.StopsShort env long) :
    (short.andThen next).StopsShort env (long.andThen next') := by
  refine stops.goesOn ?_ ?_ (long.prefix_andThen next')
  · rw [andThen_outcome]
    exact stops.runsOut.andThen _
  · obtain ⟨error, m, ended, -⟩ := stops.runsOut
    simp only [Ledger.andThen, ended]

theorem Parallel.andThen {next next' : α → Machine → Ledger β}
    (parallel : ledger.Parallel env env' agree other)
    (later : ∀ value m m', m.Alike agree m' →
      (next value m).Parallel env env' agree (next' value m')) :
    (ledger.andThen next).Parallel env env' agree (other.andThen next') := by
  rcases parallel with ⟨same, alike⟩ | stops | stops
  · rcases ledger with ⟨_, _, outcome⟩
    rcases other with ⟨_, _, outcome'⟩
    cases alike with
    | ok value machines => exact .after same (later value _ _ machines)
    | error error machines => exact .inl ⟨same, .error error machines⟩
  · exact .inr (.inl stops.andThen)
  · exact .inr (.inr stops.andThen)

/-- The task is entered before its events, and left after them. -/
def enclosed (ledger : Ledger α) (task : Task) (under : List Task) : Ledger α :=
  let outcome := ledger.outcome.mapMachine task.leave
  ⟨.entered task under :: ledger.events ++ [.left task outcome.error? outcome.machine],
    ledger.since + 1, outcome⟩

theorem decisions_enclosed (ledger : Ledger α) (task : Task) (under : List Task) :
    decisions (ledger.enclosed task under).events = ⟨task, under, none⟩ :: decisions ledger.events := by
  change decisions (.entered task under :: (ledger.events ++ [.left task _ _])) = _
  rw [decisions_cons, decisions_append]
  exact congrArg (_ :: ·) (List.append_nil _)

theorem StopsShort.enclosed (stops : short.StopsShort env long) (task : Task) (under : List Task) :
    (short.enclosed task under).StopsShort env (long.enclosed task under) := by
  constructor
  · obtain ⟨error, m, ended, budget⟩ := stops.runsOut
    refine ⟨error, task.leave m, ?_, ?_⟩
    · simp only [Ledger.enclosed, ended, Outcome.mapMachine]
    · rw [task.leave_eq]
      exact budget
  · rw [decisions_enclosed, decisions_enclosed]
    exact List.cons_prefix_cons.mpr ⟨rfl, stops.begins⟩

theorem Parallel.enclosed (parallel : ledger.Parallel env env' agree other) (task : Task)
    (under : List Task) :
    (ledger.enclosed task under).Parallel env env' agree (other.enclosed task under) := by
  rcases parallel with ⟨same, alike⟩ | stops | stops
  · refine .inl ⟨by rw [decisions_enclosed, decisions_enclosed, same], ?_⟩
    rcases ledger with ⟨_, _, outcome⟩
    rcases other with ⟨_, _, outcome'⟩
    cases alike with
    | ok value machines => exact .ok value (machines.leave task)
    | error error machines => exact .error error (machines.leave task)
  · exact .inr (.inl (stops.enclosed task under))
  · exact .inr (.inr (stops.enclosed task under))

end Ledger

/-! ## Evaluations -/

section

variable {α : Type} {env env' : Environment} (limits : env'.limits = env.limits)
  {answer : (task : Task) → Environment → Machine → Ledger task.Answer}
  (answers : ∀ task agree m other, m.Alike agree other →
    (answer task env m).Parallel env env' agree (answer task env' other))
  {agree : Prop} {m other : Machine}

include limits answers

theorem Eval.ledger_parallel (eval : Eval α) (alike : m.Alike agree other) :
    (eval.ledger answer env m).Parallel env env' agree (eval.ledger answer env' other) := by
  induction eval generalizing m other with
  | done value => exact .inl ⟨rfl, .ok value alike⟩
  | perform op next ih =>
      exact (Ledger.Parallel.single rfl rfl (op.run_parallel limits alike)).andThen
        fun value _ _ machines => ih value machines
  | ask task next ih =>
      exact (answers task agree m other alike).andThen fun value _ _ machines => ih value machines

omit answers in
theorem Ledger.repeated_parallel {σ : Type} {turn : σ → Environment → Machine → Ledger (Turn σ α)}
    (turns : ∀ state m other, m.Alike agree other →
      (turn state env m).Parallel env env' agree (turn state env' other))
    (bound : Nat) (state : σ) (alike : m.Alike agree other) :
    (Ledger.repeated turn bound state env m).Parallel env env' agree
      (Ledger.repeated turn bound state env' other) := by
  induction bound generalizing state m other with
  | zero =>
      refine .single rfl rfl (.inl ?_)
      rw [Action.cutOff, Action.cutOff, limits]
      exact .error _ (alike.failed rfl)
  | succ bound ih =>
      refine (turns state m other alike).andThen fun reached m other machines => ?_
      cases reached with
      | again state => exact ih state machines
      | finished value => exact .inl ⟨rfl, .ok value machines⟩

/-! What runs out of a budget is neither caught nor finalized. -/

omit limits answers in
theorem Ledger.StopsShort.handled {short long : Ledger α} (stops : short.StopsShort env long)
    (under : List Task) (handler : Option (Value → Eval α)) :
    (short.handled answer under handler env).StopsShort env
      (long.handled answer under handler env') := by
  have passed : short.handled answer under handler env = short := by
    obtain ⟨error, m, ended, budget⟩ := stops.runsOut
    cases handler <;> simp [Ledger.handled, ended, budget.final]
  refine stops.goesOn ?_ (by rw [passed]) (long.prefix_handled ..)
  rw [passed]
  exact stops.runsOut

omit limits answers in
theorem Ledger.StopsShort.finalized {short long : Ledger α} (stops : short.StopsShort env long)
    (finalizer : Option (Eval (Option α))) :
    (short.finalized answer finalizer env).StopsShort env
      (long.finalized answer finalizer env') := by
  have passed : short.finalized answer finalizer env = short := by
    obtain ⟨error, m, ended, budget⟩ := stops.runsOut
    cases finalizer <;> simp [Ledger.finalized, ended, budget.final]
  refine stops.goesOn ?_ (by rw [passed]) (long.prefix_finalized ..)
  rw [passed]
  exact stops.runsOut

theorem Ledger.handled_parallel {body body' : Ledger α}
    (parallel : body.Parallel env env' agree body') (under : List Task)
    (handler : Option (Value → Eval α)) :
    (body.handled answer under handler env).Parallel env env' agree
      (body'.handled answer under handler env') := by
  rcases parallel with ⟨same, alike⟩ | stops | stops
  · rcases body with ⟨events, since, outcome⟩
    rcases body' with ⟨events', since', outcome'⟩
    cases alike with
    | ok value machines => exact .inl ⟨same, .ok value machines⟩
    | @error m other error machines =>
        cases handler with
        | none => exact .inl ⟨same, .error error machines⟩
        | some clause =>
            cases catchable : error.isCatchable with
            | false =>
                simp only [handled, catchable]
                exact .inl ⟨same, .error error machines⟩
            | true =>
                obtain ⟨given, caught⟩ := machines.catching
                have rest := Eval.ledger_parallel limits answers (clause (m.catching error).1) caught
                have before : decisions (events' ++ [.caught under error since' (m.catching error).1]) =
                    decisions (events ++ [.caught under error since (m.catching error).1]) := by
                  rw [decisions_append, decisions_append, show decisions events' = _ from same]
                  rfl
                simp only [handled, catchable, if_true, given]
                rw [List.append_cons events, List.append_cons events']
                exact .after before rest
  · exact .inr (.inl (stops.handled under handler))
  · exact .inr (.inr (stops.handled under handler))

theorem Ledger.finalized_parallel {before before' : Ledger α}
    (parallel : before.Parallel env env' agree before') (finalizer : Option (Eval (Option α))) :
    (before.finalized answer finalizer env).Parallel env env' agree
      (before'.finalized answer finalizer env') := by
  cases finalizer with
  | none => rwa [finalized_none, finalized_none]
  | some finalizer =>
      rcases parallel with ⟨same, alike⟩ | stops | stops
      · rcases before with ⟨events, since, outcome⟩
        rcases before' with ⟨events', since', outcome'⟩
        cases alike with
        | ok value machines =>
            have final := Eval.ledger_parallel limits answers finalizer machines
            exact .after same (final.andThen fun last _ _ machines => .inl ⟨rfl, .ok _ machines⟩)
        | @error m other error machines =>
            cases catchable : error.isCatchable with
            | false =>
                simp only [finalized, catchable]
                exact .inl ⟨same, .error error machines⟩
            | true =>
                have final := Eval.ledger_parallel limits answers finalizer machines
                obtain ⟨_, passes⟩ :=
                  finalized_caught answer env m events since catchable finalizer
                obtain ⟨_, passes'⟩ :=
                  finalized_caught answer env' other events' since' catchable finalizer
                rw [passes, passes']
                refine .behind same final .inl fun last _ _ machines => ?_
                cases last with
                | none => exact .error error machines
                | some last => exact .ok last (machines.mono .inl)
      · exact .inr (.inl (stops.finalized _))
      · exact .inr (.inr (stops.finalized _))

theorem Rule.ledger_parallel (under : List Task) (turns : Nat) (rule : Rule α)
    (alike : m.Alike agree other) :
    (rule.ledger answer under turns env m).Parallel env env' agree
      (rule.ledger answer under turns env' other) := by
  have run {β : Type} (eval : Eval β) {m other : Machine} (alike : m.Alike agree other) :=
    Eval.ledger_parallel limits answers eval alike
  cases rule with
  | once eval => exact run eval alike
  | repeated first turn =>
      exact (run first alike).andThen fun state _ _ machines =>
        Ledger.repeated_parallel limits (fun state _ _ machines => run (turn state) machines)
          turns state machines
  | guarded body handler finalizer =>
      exact Ledger.finalized_parallel limits answers
        (Ledger.handled_parallel limits answers (run body alike) under handler) finalizer
  | throwing value =>
      refine (run value alike).andThen fun value m other machines => ?_
      refine .single rfl rfl (.inl ?_)
      rw [Machine.throwing, Machine.throwing, machines.heap]
      cases machines with
      | intro steps thrown log inFlight => exact .error _ (.intro steps _ log fun _ => rfl)

end

section

variable {env env' : Environment} (limits : env'.limits = env.limits) {agree : Prop}
  {m other : Machine}

include limits

theorem Task.ledger_parallel (rank : Nat) (under : List Task) (task : Task)
    (alike : m.Alike agree other) :
    (task.ledger rank under env m).Parallel env env' agree (task.ledger rank under env' other) := by
  induction rank generalizing under task m other agree with
  | zero =>
      refine .single rfl rfl (.inl ?_)
      rw [Action.cutOff, Action.cutOff, limits]
      exact .error _ (alike.failed rfl)
  | succ rank ih =>
      have entering := task.enter_parallel limits alike
      have refused {env : Environment} {m : Machine} (out : (task.enter env m).RunsOut env)
          (long : Ledger task.Answer) :
          (task.ledger (rank + 1) under env m).StopsShort env long := by
        obtain ⟨error, after, refuses, budget⟩ := out
        simp only [ledger, refuses]
        refine .single ?_ ⟨error, after, rfl, budget⟩ long
        simp [Event.decision?, budget.not_isDepth]
      rcases entering with entered | out | out
      · simp only [ledger]
        generalize task.enter env m = outcome, task.enter env' other = outcome' at entered
        cases entered with
        | error error machines => exact .inl ⟨rfl, .error error machines⟩
        | ok value machines =>
            have inner := Rule.ledger_parallel limits
              (fun part _ _ _ alike => ih (task :: under) part alike) (task :: under) (rank + 1)
              task.rule machines
            exact inner.enclosed task under
      · exact .inr (.inl (refused out _))
      · exact .inr (.inr (refused out _))

/-- Whatever runs from outside decides the same on both machines and comes to the
    same, unless a budget ends one of the runs. -/
theorem Eval.history_parallel {α : Type} (eval : Eval α) (alike : m.Alike agree other) :
    (eval.history env m).Parallel env env' agree (eval.history env' other) := by
  -- More rank than is granted changes nothing, so that both may have the larger one.
  rw [← eval.history_larger env m (Nat.le_max_left _ (env'.rank other)),
    ← eval.history_larger env' other (Nat.le_max_right (env.rank m) _)]
  exact Eval.ledger_parallel limits
    (fun task _ _ _ alike => task.ledger_parallel limits _ [] alike) eval alike

end

end StrategyQubo.Script
