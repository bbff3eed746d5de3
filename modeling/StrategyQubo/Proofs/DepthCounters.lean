import StrategyQubo.Proofs.ActiveCalls
import StrategyQubo.Proofs.Sessions

namespace StrategyQubo.Script

/-! # Depth counters

The counters of a machine for calls and nesting tell which tasks are under way
and nothing else: what a task takes when it is entered it gives back when it is
left, however it ends.
-/

/-! ## Moments -/

/-- Holds before the events, after them, and between any two. -/
def Machine.Throughout (m : Machine) (events : List Event) (holds : Machine → Prop) : Prop :=
  ∀ before, before <+: events → holds (m.replay before)

namespace Machine.Throughout

variable {m : Machine} {first second events : List Event} {event : Event}
  {holds : Machine → Prop}

theorem nil (here : holds m) : m.Throughout [] holds := by
  intro before begins
  rw [List.prefix_nil.mp begins]
  exact here

theorem cons (here : holds m) (later : (m.advance event).Throughout events holds) :
    m.Throughout (event :: events) holds := by
  intro before begins
  rcases List.prefix_cons_iff.mp begins with rfl | ⟨rest, rfl, within⟩
  · exact here
  · exact later rest within

theorem single (here : holds m) (after : holds (m.advance event)) : m.Throughout [event] holds :=
  cons here (nil after)

theorem append (begun : m.Throughout first holds)
    (rest : (m.replay first).Throughout second holds) : m.Throughout (first ++ second) holds := by
  intro before begins
  rcases List.prefix_or_prefix_of_prefix begins (List.prefix_append first second) with early | late
  · exact begun before early
  · obtain ⟨further, rfl⟩ := late
    rw [m.replay_append]
    exact rest further ((List.prefix_append_right_inj first).mp begins)

theorem last (throughout : m.Throughout events holds) : holds (m.replay events) :=
  throughout events List.prefix_rfl

end Machine.Throughout

/-! ## Courses -/

/-- The statements and expressions among tasks under way. -/
def nestedTasks (chain : List Task) : Nat :=
  chain.countP Task.isNested

theorem nestedTasks_cons (task : Task) (under : List Task) :
    nestedTasks (task :: under) = nestedTasks under + task.isNested.toNat :=
  countP_cons_toNat task under Task.isNested

structure Machine.WithinDepths (limits : Limits) (m : Machine) : Prop where
  depth : m.depth ≤ limits.callDepth
  nesting : m.nesting ≤ maxEvalDepth

/-- The counters tell these tasks. -/
structure Machine.Counts (m : Machine) (under : List Task) : Prop where
  depth : m.depth = closureCalls under
  nesting : m.nesting = nestedTasks under

/-- Whether there is room for a task, apart from the budgets, is decided by the
    tasks that it is a part of. -/
def Event.Judged (env : Environment) : Event → Prop
  | entered task under =>
      (task.isNested = true → nestedTasks under < maxEvalDepth) ∧
      (task.isClosureCall = true → closureCalls under < env.limits.callDepth)
  | refused task under error after =>
      error.IsBudget env after.steps ∨
      error = .nestingTooDeep maxEvalDepth ∧ task.isNested = true ∧
        maxEvalDepth ≤ nestedTasks under ∨
      error = .callDepthExceeded env.limits.callDepth ∧ task.isClosureCall = true ∧
        env.limits.callDepth ≤ closureCalls under
  | _ => True

section

variable {env : Environment} {under : List Task} {m after : Machine} {events : List Event}
  {failure? : Option (ScriptError × Nat)}

/-- Events tell all that happens to the machine. -/
theorem Course.replayed (course : Course env under m events failure? after) :
    m.replay events = after := by
  induction course with
  | nothing => rfl
  | performed op => rfl
  | threw value => rfl
  | refused task asked refused => rfl
  | @task under m entered events _ last task asked granted inner ih =>
      have begun : m.advance (.entered task under) = entered := granted.machine.symm
      rw [List.cons_append, Machine.replay, List.foldl_cons, begun]
      change entered.replay (events ++ _) = _
      rw [Machine.replay_append]
      rfl
  | andThen begun rest first second => rw [Machine.replay_append, first, second]
  | caught body catchable binds handler first second =>
      rw [Machine.replay_append, first]
      exact second
  | passed before catchable finalizer first second => rw [Machine.replay_append, first, second]
  | replaced before catchable finalizer first second => rw [Machine.replay_append, first, second]

/-- Tasks give back the nesting that they have taken. -/
theorem Course.nesting_eq (course : Course env under m events failure? after) :
    after.nesting = m.nesting := by
  induction course with
  | nothing => rfl
  | @performed _ m op =>
      obtain ⟨_, _, _, _, _, _, frame, -⟩ := op.run_frame env m
      rw [frame]
  | threw value => rfl
  | refused task asked refused => rw [refused.machine]
  | task task asked granted inner ih =>
      rw [granted.machine] at ih
      rw [task.leave_eq]
      simp only [ih]
      omega
  | andThen begun rest first second => exact second.trans first
  | @caught _ _ _ error _ middle _ _ _ body catchable binds handler first second =>
      obtain ⟨_, _, frame⟩ := middle.catching_frame error
      rw [frame] at second
      exact second.trans first
  | passed before catchable finalizer first second => exact second.trans first
  | replaced before catchable finalizer first second => exact second.trans first

theorem Machine.WithinDepths.of_eq {limits : Limits} (within : m.WithinDepths limits)
    (depth : after.depth = m.depth) (nesting : after.nesting = m.nesting) :
    after.WithinDepths limits :=
  ⟨depth ▸ within.depth, nesting ▸ within.nesting⟩

theorem Machine.Counts.of_eq (counts : m.Counts under) (depth : after.depth = m.depth)
    (nesting : after.nesting = m.nesting) : after.Counts under :=
  ⟨depth.trans counts.depth, nesting.trans counts.nesting⟩

theorem Machine.WithinDepths.course {limits : Limits} (within : m.WithinDepths limits)
    (course : Course env under m events failure? after) : after.WithinDepths limits :=
  within.of_eq course.depth_eq course.nesting_eq

theorem Machine.Counts.course {chain : List Task} (counts : m.Counts chain)
    (course : Course env under m events failure? after) : after.Counts chain :=
  counts.of_eq course.depth_eq course.nesting_eq

theorem Task.Granted.withinDepths {task : Task} {entered : Machine}
    (granted : task.Granted env m entered) (within : m.WithinDepths env.limits) :
    entered.WithinDepths env.limits := by
  have depth : entered.depth = m.depth + task.isClosureCall.toNat :=
    congrArg Machine.depth granted.machine
  have nesting : entered.nesting = m.nesting + task.isNested.toNat :=
    congrArg Machine.nesting granted.machine
  constructor
  · cases closure : task.isClosureCall with
    | false => simpa [depth, closure] using within.depth
    | true => exact granted.depth closure
  · cases nested : task.isNested with
    | false => simpa [nesting, nested] using within.nesting
    | true => exact granted.nesting nested

/-- At no moment is anything deeper than the limits allow. -/
theorem Course.withinDepths (course : Course env under m events failure? after)
    (within : m.WithinDepths env.limits) :
    m.Throughout events (Machine.WithinDepths env.limits) := by
  induction course with
  | nothing => exact .nil within
  | @performed under m op =>
      have done : Course env under m _ _ _ := .performed op
      exact .single within (within.course done)
  | threw value => exact .single within (within.of_eq rfl rfl)
  | refused task asked refused =>
      have done := Course.refused task asked refused
      exact .single within (within.course done)
  | @task under m entered events _ last task asked granted inner ih =>
      have whole := Course.task task asked granted inner
      have begun : m.advance (.entered task under) = entered := granted.machine.symm
      refine .cons within (begun ▸ .append (ih (granted.withinDepths within)) (.single ?_ ?_))
      · exact (ih (granted.withinDepths within)).last
      · exact within.course whole
  | andThen begun rest first second =>
      exact .append (first within) (begun.replayed ▸ second (within.course begun))
  | @caught _ _ _ error _ middle _ _ _ body catchable binds handler first second =>
      obtain ⟨_, _, frame⟩ := middle.catching_frame error
      have still := within.course body
      have caught : (middle.catching error).2.WithinDepths env.limits :=
        still.of_eq (by rw [frame]) (by rw [frame])
      refine .append (first within) ?_
      rw [body.replayed]
      exact .cons still (second caught)
  | passed before catchable finalizer first second =>
      exact .append (first within) (before.replayed ▸ second (within.course before))
  | replaced before catchable finalizer first second =>
      exact .append (first within) (before.replayed ▸ second (within.course before))

theorem Course.judged (course : Course env under m events failure? after)
    (counts : m.Counts under) : ∀ event ∈ events, event.Judged env := by
  induction course with
  | nothing => exact List.forall_mem_nil _
  | performed op => exact List.forall_mem_singleton.mpr trivial
  | threw value => exact List.forall_mem_singleton.mpr trivial
  | refused task asked refused =>
      rw [List.forall_mem_singleton, Event.Judged, ← counts.depth, ← counts.nesting]
      exact refused.reason
  | @task under m entered events _ last task asked granted inner ih =>
      have depth : entered.depth = m.depth + task.isClosureCall.toNat :=
        congrArg Machine.depth granted.machine
      have nesting : entered.nesting = m.nesting + task.isNested.toNat :=
        congrArg Machine.nesting granted.machine
      have inside : entered.Counts (task :: under) :=
        ⟨by rw [depth, counts.depth, closureCalls_cons],
          by rw [nesting, counts.nesting, nestedTasks_cons]⟩
      rw [List.cons_append, List.forall_mem_cons, List.forall_mem_append,
        List.forall_mem_singleton]
      refine ⟨⟨fun nested => ?_, fun closure => ?_⟩, ih inside, trivial⟩
      · have room := granted.nesting nested
        rw [nesting, nested, counts.nesting, Bool.toNat_true] at room
        exact room
      · have room := granted.depth closure
        rw [depth, closure, counts.depth, Bool.toNat_true] at room
        exact room
  | andThen begun rest first second =>
      exact List.forall_mem_append.mpr ⟨first counts, second (counts.course begun)⟩
  | @caught _ _ _ error _ middle _ _ _ body catchable binds handler first second =>
      obtain ⟨_, _, frame⟩ := middle.catching_frame error
      have still := counts.course body
      rw [List.forall_mem_append, List.forall_mem_cons]
      exact ⟨first counts, trivial, second (still.of_eq (by rw [frame]) (by rw [frame]))⟩
  | passed before catchable finalizer first second =>
      exact List.forall_mem_append.mpr ⟨first counts, second (counts.course before)⟩
  | replaced before catchable finalizer first second =>
      exact List.forall_mem_append.mpr ⟨first counts, second (counts.course before)⟩

end

/-! ## Errands -/

namespace Errand

variable (errand : Errand) (env : Environment) (m : Machine)

/-- The error with which it fails. -/
def error? : Errand → Option ScriptError
  | run program => (runProgram program env m).error?
  | call function arguments => (callFunction function arguments env m).error?

theorem course : ∃ failure?, Course env [] m (errand.events env m) failure? (errand.machine env m) := by
  cases errand with
  | run program =>
      have follows := (programRule program.body).history_follows env m
      rw [Ledger.Follows, Eval.history_outcome] at follows
      exact ⟨_, follows⟩
  | call function arguments =>
      have follows := (Eval.call function arguments).history_follows env m
      rw [Ledger.Follows, Eval.history_outcome] at follows
      exact ⟨_, follows⟩

end Errand

/-- Between errands nothing is under way. -/
theorem Session.counts_nothing {env : Environment} {host : Host} {m : Machine}
    {shown : List Value} (session : Session env host m shown) : m.Counts [] := by
  induction session with
  | fresh => exact ⟨rfl, rfl⟩
  | look before held ih => exact ih
  | @errand m _ errand before permitted allowed ih =>
      obtain ⟨_, course⟩ := errand.course env m
      exact ih.course course
  | array before makes known ih => exact ⟨ih.depth, ih.nesting⟩
  | logRead before ih => exact ⟨ih.depth, ih.nesting⟩

end StrategyQubo.Script
