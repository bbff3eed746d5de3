import StrategyQubo.Proofs.Course
import StrategyQubo.Proofs.Settled

namespace StrategyQubo.Script

/-! # Errors that end everything

An error that no script can catch is the end of all that is under way: whatever
is left of the evaluation is to leave the tasks, with that error.
-/

/-- The error that an event reports, and the machine when it does. -/
def Event.failure? : Event → Option (ScriptError × Machine)
  | performed _ error? after => error?.map fun error => (error, after)
  | refused _ _ error after => some (error, after)
  | left _ error? after => error?.map fun error => (error, after)
  | _ => none

/-- The machines differ in nothing but what tasks give back when they are left:
    scopes, heap, log, steps and everything else are the same. -/
def Machine.SameData (m after : Machine) : Prop :=
  after = { m with nesting := after.nesting, depth := after.depth }

theorem Machine.sameData_refl (m : Machine) : m.SameData m :=
  rfl

theorem Machine.SameData.leave {m after : Machine} (same : m.SameData after) (task : Task) :
    m.SameData (task.leave after) := by
  rw [task.leave_eq]
  unfold SameData at same ⊢
  rw [same]

/-- The event reports an error that ends everything. -/
def Event.IsFinal (event : Event) (error : ScriptError) (raised : Machine) : Prop :=
  event.failure? = some (error, raised) ∧ error.isCatchable = false

/-- After an error that no script can catch, tasks are left with it and that is
    all. -/
structure Halts (events : List Event) (failure? : Option (ScriptError × Nat)) (after : Machine) :
    Prop where
  outcome : ∀ event ∈ events, ∀ error raised, event.IsFinal error raised →
    failure?.map (·.1) = some error ∧ raised.SameData after
  later : events.Pairwise fun event later => ∀ error raised, event.IsFinal error raised →
    ∃ task last, later = .left task (some error) last

namespace Halts

variable {first second : List Event} {failure? : Option (ScriptError × Nat)} {m after : Machine}

theorem single {event : Event}
    (reports : ∀ error raised, event.failure? = some (error, raised) →
      failure?.map (·.1) = some error ∧ raised = after) : Halts [event] failure? after where
  outcome event' member error raised final := by
    obtain ⟨same, rfl⟩ := reports error raised (List.mem_singleton.mp member ▸ final.1)
    exact ⟨same, raised.sameData_refl⟩
  later := List.pairwise_singleton _ _

/-- Nothing final has happened where the outcome is no final error. -/
theorem quiet (halts : Halts first failure? after)
    (goesOn : ∀ error, failure?.map (·.1) = some error → error.isCatchable = true) :
    ∀ event ∈ first, ∀ error raised, ¬ event.IsFinal error raised := by
  intro event member error raised final
  have reported := (halts.outcome event member error raised final).1
  exact absurd (final.2.symm.trans (goesOn error reported)) (by decide)

theorem append {failed? : Option (ScriptError × Nat)} {middle : Machine}
    (begun : Halts first failed? middle)
    (goesOn : ∀ error, failed?.map (·.1) = some error → error.isCatchable = true)
    (rest : Halts second failure? after) : Halts (first ++ second) failure? after where
  outcome event member error raised final := by
    rcases List.mem_append.mp member with early | late
    · exact absurd final (begun.quiet goesOn event early error raised)
    · exact rest.outcome event late error raised final
  later :=
    List.pairwise_append.mpr ⟨begun.later, rest.later, fun event early _ _ error raised final =>
      absurd final (begun.quiet goesOn event early error raised)⟩

/-- Where all has gone well an older failure may come back. -/
theorem resume (halts : Halts first none after) : Halts first failure? after where
  outcome event member error raised final :=
    absurd final (halts.quiet (by simp) event member error raised)
  later := halts.later

theorem cons {event : Event} (silent : event.failure? = none) (rest : Halts second failure? after) :
    Halts (event :: second) failure? after where
  outcome event' member error raised final := by
    rcases List.mem_cons.mp member with rfl | late
    · cases silent.symm.trans final.1
    · exact rest.outcome event' late error raised final
  later := List.pairwise_cons.mpr
    ⟨fun _ _ _ _ final => (nomatch silent.symm.trans final.1), rest.later⟩

theorem leave (inner : Halts first failure? after) (task : Task) (since : Nat → Nat) :
    Halts (first ++ [.left task (failure?.map (·.1)) (task.leave after)])
      (failure?.map fun failure => (failure.1, since failure.2)) (task.leave after) where
  outcome event member error raised final := by
    rw [Option.map_map]
    rcases List.mem_append.mp member with early | last
    · have ⟨reported, same⟩ := inner.outcome event early error raised final
      exact ⟨reported, same.leave task⟩
    · cases List.mem_singleton.mp last
      obtain ⟨error', reported, same⟩ := Option.map_eq_some_iff.mp final.1
      cases same
      exact ⟨reported, Machine.sameData_refl _⟩
  later := by
    -- What was final before is the error with which the task is left.
    refine List.pairwise_append.mpr ⟨inner.later, List.pairwise_singleton _ _, ?_⟩
    intro event early last member error raised final
    have reported := (inner.outcome event early error raised final).1
    rw [List.mem_singleton.mp member, reported]
    exact ⟨_, _, rfl⟩

end Halts

theorem Course.halts {env : Environment} {under : List Task} {m after : Machine}
    {events : List Event} {failure? : Option (ScriptError × Nat)}
    (course : Course env under m events failure? after) : Halts events failure? after := by
  induction course with
  | nothing => exact ⟨List.forall_mem_nil _, .nil⟩
  | @performed _ m op =>
      generalize op.run env m = outcome
      refine .single fun error raised reported => ?_
      cases outcome with
      | ok value after => cases reported
      | error error' after =>
          cases reported
          exact ⟨rfl, rfl⟩
  | threw value => exact .single fun _ _ never => nomatch never
  | refused task asked refused =>
      refine .single fun error raised reported => ?_
      cases reported
      exact ⟨rfl, rfl⟩
  | task task asked granted inner ih => exact (ih.leave task (· + 1)).cons rfl
  | andThen begun rest first second => exact first.append (by simp) second
  | caught body catchable binds handler first second =>
      exact first.append (by simp [catchable]) (second.cons rfl)
  | passed before catchable finalizer first second =>
      exact (first.append (by simp [catchable]) second).resume
  | replaced before catchable finalizer first second =>
      exact first.append (by simp [catchable]) second

/-! ## Nothing is cut off -/

/-- Why tasks are refused is decided on the machine at hand, and nothing is ever
    cut off. -/
def Event.IsGrounded (env : Environment) : Event → Prop
  | refused task _ error last => ∃ m, task.Refused env m error last
  | cutOff => False
  | _ => True

theorem Course.grounded {env : Environment} {under : List Task} {m after : Machine}
    {events : List Event} {failure? : Option (ScriptError × Nat)}
    (course : Course env under m events failure? after) :
    ∀ event ∈ events, event.IsGrounded env := by
  induction course with
  | nothing => exact List.forall_mem_nil _
  | performed op => exact List.forall_mem_singleton.mpr trivial
  | threw value => exact List.forall_mem_singleton.mpr trivial
  | refused task asked refused => exact List.forall_mem_singleton.mpr ⟨_, refused⟩
  | task task asked granted inner ih =>
      rw [List.cons_append, List.forall_mem_cons, List.forall_mem_append,
        List.forall_mem_singleton]
      exact ⟨trivial, ih, trivial⟩
  | andThen begun rest first second => exact List.forall_mem_append.mpr ⟨first, second⟩
  | caught body catchable binds handler first second =>
      rw [List.forall_mem_append, List.forall_mem_cons]
      exact ⟨first, trivial, second⟩
  | passed before catchable finalizer first second =>
      exact List.forall_mem_append.mpr ⟨first, second⟩
  | replaced before catchable finalizer first second =>
      exact List.forall_mem_append.mpr ⟨first, second⟩

theorem Eval.history_cutOff {α : Type} (eval : Eval α) (env : Environment) (m : Machine) :
    .cutOff ∉ (eval.history env m).events :=
  (eval.history_follows env m).grounded .cutOff

/-- Evaluation has come to its end with the rank that is granted from outside:
    more of it would change nothing. -/
theorem Eval.history_larger {α : Type} (eval : Eval α) (env : Environment) (m : Machine)
    {rank : Nat} (more : env.rank m ≤ rank) :
    eval.ledger (Task.ledger rank []) env m = eval.history env m := by
  have loosened : Environment.Loosened (· = .cutOff) env env :=
    ⟨rfl, fun _ _ => .inr rfl, fun _ _ => .inr rfl⟩
  refine Eval.ledger_settled loosened more eval m fun event member cut => ?_
  exact eval.history_cutOff env m (cut ▸ member)

/-- An error that no script can catch is the outcome, on a machine with the data
    of the moment at which it was raised. -/
theorem Eval.start_of_final {α : Type} (eval : Eval α) (env : Environment) (m : Machine)
    {event : Event} (member : event ∈ (eval.history env m).events) {error : ScriptError}
    {raised : Machine} (final : event.IsFinal error raised) :
    ∃ last, eval.start env m = .error error last ∧ raised.SameData last := by
  have outcome := eval.history_outcome env m
  have ⟨reported, same⟩ :=
    (Course.halts (eval.history_follows env m)).outcome event member error raised final
  cases ended : eval.start env m with
  | ok value last => simp [Ledger.failure?, outcome, ended] at reported
  | error error' last =>
      simp only [Ledger.failure?, outcome, ended, Outcome.error?_error, Option.map_some,
        Option.some.injEq] at reported
      rw [outcome, ended] at same
      exact ⟨last, by rw [reported], same⟩

/-- Evaluation ends.  From the first error that no script can catch on, nothing
    happens but that the tasks under way are left with it; it is the outcome, on
    a machine with the data of the moment at which it was raised.  So a budget
    that was not exceeded before is exceeded by one step at most. -/
theorem Eval.start_final_error {α : Type} (eval : Eval α) (env : Environment) (m : Machine)
    (within : m.steps ≤ env.limits.stepBudget) :
    (∀ rank, env.rank m ≤ rank → eval.run (Task.evaluate rank) env m = eval.start env m) ∧
    .cutOff ∉ (eval.history env m).events ∧
    (∀ before event after error raised,
      (eval.history env m).events = before ++ event :: after → event.IsFinal error raised →
        (∀ later ∈ after, ∃ task last, later = .left task (some error) last) ∧
        ∃ last, eval.start env m = .error error last ∧ raised.SameData last) ∧
    (eval.start env m).machine.steps ≤ env.limits.stepBudget + 1 := by
  have course := eval.history_follows env m
  have outcome := eval.history_outcome env m
  refine ⟨fun rank more => ?_, eval.history_cutOff env m, ?_, ?_⟩
  · have same := congrArg Ledger.outcome (eval.history_larger env m more)
    rwa [outcome, eval.ledger_outcome (Task.ledger_outcome rank [])] at same
  · intro before event after error raised split final
    have later := (Course.halts course).later
    rw [split] at later
    have next := (List.pairwise_cons.mp (List.pairwise_append.mp later).2.1).1
    exact ⟨fun last member => next last member error raised final,
      eval.start_of_final env m (by simp [split]) final⟩
  · rw [← outcome]
    exact (course.steps_within within).1

/-- A catch clause and a finalizer around an endless loop do not make it longer:
    the first step too many is the last one. -/
theorem Eval.start_final_error_loop :
    let loop : Eval Unit :=
      programRule [.tryBlock [.whileLoop (.bool true) .empty] none (some []) (some [.empty])]
    let env : Environment := ⟨{ stepBudget := 5 }, fun _ => 0⟩
    let m := Machine.fresh env.limits
    m.steps ≤ env.limits.stepBudget ∧
      (loop.start env m).machine.steps ≤ env.limits.stepBudget + 1 ∧
      env.limits.stepBudget < (loop.start env m).machine.steps := by
  intro loop env m
  have within : m.steps ≤ env.limits.stepBudget := Nat.zero_le _
  exact ⟨within, (loop.start_final_error env m within).2.2.2, by decide +kernel⟩

end StrategyQubo.Script
