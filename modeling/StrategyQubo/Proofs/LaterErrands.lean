import StrategyQubo.Proofs.ParallelRuns

namespace StrategyQubo.Script

/-! # Later errands

What has been done to a machine before, and how that ended, leaves no trace in
what the depth limits decide later: they decide as on a machine that is fresh
but for its data.
-/

namespace Errand

variable (errand : Errand) (env env' : Environment) (m other : Machine)

/-- The same is decided about every task, and the same comes of it. -/
structure Same : Prop where
  decisions : decisions (errand.events env' other) = decisions (errand.events env m)
  error? : errand.error? env' other = errand.error? env m
  answers : errand.answers env' other = errand.answers env m
  machine : (errand.machine env m).Alike False (errand.machine env' other)

/-- On the first machine a budget ends the errand.  What is decided until then is
    decided on the other machine too. -/
structure StopsShort : Prop where
  runsOut : ∃ error, errand.error? env m = some error ∧
    error.IsBudget env (errand.machine env m).steps
  begins : decisions (errand.events env m) <+: decisions (errand.events env' other)

def Parallel : Prop :=
  errand.Same env env' m other ∨ errand.StopsShort env env' m other ∨
    errand.StopsShort env' env other m

end Errand

section

variable {env env' : Environment} {m other : Machine}

theorem Outcome.Alike.error?_eq {α : Type} {agree : Prop} {outcome outcome' : Outcome α}
    (alike : outcome.Alike agree outcome') : outcome'.error? = outcome.error? := by
  cases alike <;> rfl

theorem Outcome.Alike.machine {α : Type} {agree : Prop} {outcome outcome' : Outcome α}
    (alike : outcome.Alike agree outcome') : outcome.machine.Alike agree outcome'.machine := by
  cases alike with
  | ok value machines => exact machines
  | error error machines => exact machines.mono .inl

theorem Errand.answers_eq {function : Value} {arguments : List Value}
    (alike : (callFunction function arguments env m).Alike False
      (callFunction function arguments env' other)) :
    (Errand.call function arguments).answers env' other =
      (Errand.call function arguments).answers env m := by
  simp only [answers]
  generalize callFunction function arguments env m = outcome,
    callFunction function arguments env' other = outcome' at alike
  cases alike <;> rfl

theorem Outcome.RunsOut.error? {α : Type} {outcome : Outcome α} (out : outcome.RunsOut env) :
    ∃ error, outcome.error? = some error ∧ error.IsBudget env outcome.machine.steps := by
  obtain ⟨error, m, rfl, budget⟩ := out
  exact ⟨error, rfl, budget⟩

theorem Eval.start_parallel {α : Type} (eval : Eval α) (limits : env'.limits = env.limits)
    (alike : m.Alike False other) :
    decisions (eval.history env' other).events = decisions (eval.history env m).events ∧
      (eval.start env m).Alike False (eval.start env' other) ∨
    (eval.start env m).RunsOut env ∧
      decisions (eval.history env m).events <+: decisions (eval.history env' other).events ∨
    (eval.start env' other).RunsOut env' ∧
      decisions (eval.history env' other).events <+: decisions (eval.history env m).events := by
  rcases eval.history_parallel limits alike with ⟨same, ends⟩ | ⟨out, begins⟩ | ⟨out, begins⟩
  · rw [history_outcome, history_outcome] at ends
    exact .inl ⟨same, ends⟩
  · rw [history_outcome] at out
    exact .inr (.inl ⟨out, begins⟩)
  · rw [history_outcome] at out
    exact .inr (.inr ⟨out, begins⟩)

theorem Errand.parallel (errand : Errand) (limits : env'.limits = env.limits)
    (alike : m.Alike False other) : errand.Parallel env env' m other := by
  cases errand with
  | run program =>
      rcases (programRule program.body).start_parallel limits alike with
        ⟨same, ends⟩ | ⟨out, begins⟩ | ⟨out, begins⟩
      · exact .inl ⟨same, ends.error?_eq, rfl, ends.machine⟩
      · exact .inr (.inl ⟨out.error?, begins⟩)
      · exact .inr (.inr ⟨out.error?, begins⟩)
  | call function arguments =>
      rcases (Eval.call function arguments).start_parallel limits alike with
        ⟨same, ends⟩ | ⟨out, begins⟩ | ⟨out, begins⟩
      · exact .inl ⟨same, ends.error?_eq, answers_eq ends, ends.machine⟩
      · exact .inr (.inl ⟨out.error?, begins⟩)
      · exact .inr (.inr ⟨out.error?, begins⟩)

/-- A fresh machine with the same scopes and heap.  Functions made from now on
    are told from those in them, and draws go on where they were. -/
def Machine.renewed (m : Machine) (limits : Limits) : Machine :=
  { Machine.fresh limits with
    scopes := m.scopes, heap := m.heap, identities := m.identities, random := m.random }

theorem Machine.Counts.renewed_alike (counts : m.Counts []) (limits : Limits) :
    m.Alike False (m.renewed limits) := by
  rcases m with ⟨scopes, heap, identities, steps, depth, nesting, thrown, random, log⟩
  obtain ⟨rfl, rfl⟩ := counts
  exact .intro 0 none #[] False.elim

/-- Every errand, whether it fails or not, leaves the counters as they were, and
    at no moment are they above the limits.  So whatever is done next, the depth
    limits decide by the tasks under way in it alone.  They decide as on a fresh
    machine with the same data, and the same comes of it, until a budget that
    has been used before is exhausted here or there. -/
theorem Session.depths_balanced {host : Host} {shown : List Value}
    (session : Session env host m shown) (errand : Errand) :
    let used := errand.machine env m
    used.depth = m.depth ∧ used.nesting = m.nesting ∧
    m.replay (errand.events env m) = used ∧
    m.Throughout (errand.events env m) (Machine.WithinDepths env.limits) ∧
    ∀ (later : Errand) (clock : Nat → Nat),
      (∀ event ∈ later.events env used, event.Judged env) ∧
      later.Parallel env ⟨env.limits, clock⟩ used (used.renewed env.limits) := by
  intro used
  have counts := session.counts_nothing
  obtain ⟨_, course⟩ := errand.course env m
  have within : m.WithinDepths env.limits :=
    ⟨counts.depth ▸ Nat.zero_le _, counts.nesting ▸ Nat.zero_le _⟩
  have balanced : used.Counts [] := counts.course course
  refine ⟨course.depth_eq, course.nesting_eq, course.replayed, course.withinDepths within, ?_⟩
  intro later clock
  obtain ⟨_, follows⟩ := later.course env used
  exact ⟨follows.judged balanced, later.parallel rfl (balanced.renewed_alike env.limits)⟩

end

/-- A function that calls itself. -/
def endless : Errand := .run ⟨[
  .function (.define (some "f") [] (.block [.returnWith (some (.call (.identifier "f") []))])),
  .expression (.call (.identifier "f") [])]⟩

def endlessSettings : Environment :=
  ⟨{ stepBudget := 100, maxCallDepth := 3 }, fun _ => 0⟩

/-- The calls of a failed run are over: the next run gets as deep as it would on a
    fresh machine, and is cut off there. -/
theorem endless_twice :
    let m := Machine.fresh endlessSettings.limits
    let used := endless.machine endlessSettings m
    (endless.error? endlessSettings m).any ScriptError.isDepth = true ∧
      used.depth = m.depth ∧ used.nesting = m.nesting ∧
      endless.Same endlessSettings endlessSettings used (used.renewed endlessSettings.limits) := by
  intro m used
  have session : Session endlessSettings
      ⟨fun _ => True, fun _ => True, fun _ => True, fun _ => True⟩ m [] := .fresh
  obtain ⟨depth, nesting, -, -, later⟩ := session.depths_balanced endless
  refine ⟨by decide +kernel, depth, nesting, ?_⟩
  have deep {m : Machine} (failed : (endless.error? endlessSettings m).any ScriptError.isDepth = true)
      {error : ScriptError} (ended : endless.error? endlessSettings m = some error)
      {steps : Nat} : ¬ error.IsBudget endlessSettings steps := by
    intro budget
    rw [ended, Option.any_some, budget.not_isDepth] at failed
    cases failed
  rcases (later endless endlessSettings.clock).2 with same | ⟨⟨error, ended, budget⟩, -⟩ |
    ⟨⟨error, ended, budget⟩, -⟩
  · exact same
  · exact absurd budget (deep (by decide +kernel) ended)
  · exact absurd budget (deep (by decide +kernel) ended)

end StrategyQubo.Script
