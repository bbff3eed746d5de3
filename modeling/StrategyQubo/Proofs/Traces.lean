import StrategyQubo.Proofs.SoundLedgers

namespace StrategyQubo.Script

/-! # Traces

What the events of an evaluation are made of: those in which no part is asked
for, and parts, each with all that its own rule leads to between entering and
leaving it.  So from the event of entering a task the ledger of that task can be
read off.
-/

/-- What its rule leads to in a task that has been entered, as far as parts are
    nested no deeper than `rank`. -/
def Task.inner (rank : Nat) (under : List Task) (task : Task) (env : Environment) (m : Machine) :
    Ledger task.Answer :=
  task.rule.ledger (ledger rank (task :: under)) (task :: under) (rank + 1) env m

/-- No part is asked for or left. -/
def Event.isDirect : Event → Bool
  | entered _ _ => false
  | refused _ _ _ _ => false
  | left _ _ _ => false
  | _ => true

/-- The events that begin on the machine, of tasks that are parts of those `under`
    them. -/
inductive Trace (env : Environment) : List Task → Machine → List Event → Prop where
  | nothing {under m} : Trace env under m []
  | direct {under m} (event : Event) (direct : event.isDirect = true) : Trace env under m [event]
  | refused {under m} (task : Task) (error : ScriptError) (after : Machine) :
      Trace env under m [.refused task under error after]
  | task {under m} (rank : Nat) (task : Task) (error? : Option ScriptError) (after : Machine)
      (inner : Trace env (task :: under) (m.advance (.entered task under))
        (task.inner rank under env (m.advance (.entered task under))).events) :
      Trace env under m
        (.entered task under :: (task.inner rank under env
          (m.advance (.entered task under))).events ++ [.left task error? after])
  | append {under m first second} (begun : Trace env under m first)
      (rest : Trace env under (m.replay first) second) : Trace env under m (first ++ second)

/-! ## What is asked for -/

/-- The events until that task is left in which they happen, while so many tasks
    are `opened` in it. -/
def untilLeft : List Event → Nat → List Event
  | [], _ => []
  | event :: rest, opened =>
      match event with
      | .entered _ _ => event :: untilLeft rest (opened + 1)
      | .left _ _ _ =>
          match opened with
          | 0 => []
          | opened + 1 => event :: untilLeft rest opened
      | _ => event :: untilLeft rest opened

/-- The task that is entered or refused, if so many tasks are under way. -/
def Event.asks? (depth : Nat) : Event → Option Task
  | entered task under => if under.length = depth then some task else none
  | refused task under _ _ => if under.length = depth then some task else none
  | _ => none

/-- The tasks that are asked for when so many are under way, each with the machine
    at that moment. -/
def asked (depth : Nat) : Machine → List Event → List (Task × Machine)
  | _, [] => []
  | m, event :: rest =>
      match event.asks? depth with
      | some task => (task, m) :: asked depth (m.advance event) rest
      | none => asked depth (m.advance event) rest

/-- Whether there is an event of which the test holds, given the machine behind it
    and the events that come later. -/
def anyEvent (test : Machine → Event → List Event → Bool) : Machine → List Event → Bool
  | _, [] => false
  | m, event :: rest => test (m.advance event) event rest || anyEvent test (m.advance event) rest

section

variable {env : Environment} {under : List Task} {m : Machine} {events : List Event}
  {depth : Nat}

theorem exists_split_of_anyEvent {test : Machine → Event → List Event → Bool}
    (any : anyEvent test m events = true) :
    ∃ before event later, events = before ++ event :: later ∧
      test (m.replay (before ++ [event])) event later = true := by
  induction events generalizing m with
  | nil => cases any
  | cons event rest ih =>
      rcases Bool.or_eq_true_iff.mp any with here | further
      · exact ⟨[], event, rest, rfl, here⟩
      · obtain ⟨before, found, later, rfl, holds⟩ := ih further
        exact ⟨event :: before, found, later, rfl, holds⟩

theorem asked_append (depth : Nat) (m : Machine) (first second : List Event) :
    asked depth m (first ++ second) = asked depth m first ++ asked depth (m.replay first) second := by
  induction first generalizing m with
  | nil => rfl
  | cons event rest ih =>
      simp only [List.cons_append, asked, ih]
      cases event.asks? depth <;> rfl

theorem asked_cons_none {event : Event} (silent : event.asks? depth = none) (m : Machine)
    (rest : List Event) : asked depth m (event :: rest) = asked depth (m.advance event) rest := by
  simp only [asked, silent]

theorem asked_cons_some {event : Event} {task : Task} (asks : event.asks? depth = some task)
    (m : Machine) (rest : List Event) :
    asked depth m (event :: rest) = (task, m) :: asked depth (m.advance event) rest := by
  simp only [asked, asks]

theorem Event.asks?_of_isDirect {event : Event} (direct : event.isDirect = true) (depth : Nat) :
    event.asks? depth = none := by
  cases event <;> first | rfl | cases direct

theorem asked_of_direct (direct : ∀ event ∈ events, event.isDirect = true) :
    asked depth m events = [] := by
  induction events generalizing m with
  | nil => rfl
  | cons event rest ih =>
      obtain ⟨here, later⟩ := List.forall_mem_cons.mp direct
      rw [asked_cons_none (event.asks?_of_isDirect here depth), ih later]

/-- Parts are asked for on top of the tasks that are under way. -/
theorem Trace.asked_below (trace : Trace env under m events) (below : depth < under.length) :
    asked depth m events = [] := by
  induction trace with
  | nothing => rfl
  | direct event direct => exact asked_cons_none (event.asks?_of_isDirect direct depth) _ _
  | @refused under m task error after =>
      have silent : (Event.refused task under error after).asks? depth = none :=
        if_neg (Nat.ne_of_gt below)
      exact asked_cons_none silent _ _
  | @task under m rank task error? after inner ih =>
      have silent : (Event.entered task under).asks? depth = none := if_neg (Nat.ne_of_gt below)
      rw [List.cons_append, asked_cons_none silent, asked_append, ih (Nat.lt_succ_of_lt below)]
      rfl
  | append begun rest first second =>
      rw [asked_append, first below, second below]
      rfl

/-- Whatever is entered on the way is left again. -/
theorem Trace.untilLeft_append (trace : Trace env under m events) (rest : List Event)
    (opened : Nat) : untilLeft (events ++ rest) opened = events ++ untilLeft rest opened := by
  induction trace generalizing rest opened with
  | nothing => rfl
  | direct event direct => cases event <;> first | rfl | cases direct
  | refused task error after => rfl
  | task rank task error? after inner ih =>
      simp only [List.cons_append, List.append_assoc, untilLeft, ih, List.nil_append]
  | append begun later first second => rw [List.append_assoc, first, second, List.append_assoc]

theorem untilLeft_prefix (events : List Event) (opened : Nat) :
    untilLeft events opened <+: events := by
  induction events generalizing opened with
  | nil => exact List.nil_prefix
  | cons event rest ih =>
      unfold untilLeft
      split
      · exact (List.prefix_cons_inj _).mpr (ih _)
      · split
        · exact List.nil_prefix
        · exact (List.prefix_cons_inj _).mpr (ih _)
      · exact (List.prefix_cons_inj _).mpr (ih _)

/-- Where an event happens among those of two lists. -/
theorem split_append {first second before later : List Event} {event : Event}
    (split : first ++ second = before ++ event :: later) :
    (∃ rest, first = before ++ event :: rest ∧ later = rest ++ second) ∨
    ∃ rest, before = first ++ rest ∧ second = rest ++ event :: later := by
  rcases List.append_eq_append_iff.mp split with ⟨rest, rfl, same⟩ | ⟨rest, rfl, same⟩
  · exact .inr ⟨rest, rfl, same⟩
  · cases rest with
    | nil => exact .inr ⟨[], by simp, same.symm⟩
    | cons head rest =>
        obtain ⟨rfl, rfl⟩ := List.cons.inj same
        exact .inl ⟨rest, rfl, rfl⟩

theorem eq_of_split {event other : Event} {before later : List Event}
    (split : [other] = before ++ event :: later) : event = other :=
  List.mem_singleton.mp (split ▸ List.mem_append_right _ List.mem_cons_self)

/-- After a task is entered come the events of its rule, and then it is left. -/
theorem Trace.opens (trace : Trace env under m events) {before later : List Event} {task : Task}
    {chain : List Task} (split : events = before ++ .entered task chain :: later) :
    ∃ rank error? after rest,
      later = (task.inner rank chain env (m.replay (before ++ [.entered task chain]))).events ++
        .left task error? after :: rest := by
  induction trace generalizing before later with
  | nothing => simp at split
  | direct event direct =>
      cases eq_of_split split
      cases direct
  | refused task error after => cases eq_of_split split
  | task rank part error? after inner ih =>
      cases before with
      | nil =>
          obtain ⟨same, rfl⟩ := List.cons.inj split
          cases same
          exact ⟨rank, error?, after, [], rfl⟩
      | cons head before =>
          rw [List.cons_append, List.cons_append] at split
          obtain ⟨rfl, inside⟩ := List.cons.inj split
          rcases split_append inside with ⟨rest, within, rfl⟩ | ⟨rest, -, last⟩
          · obtain ⟨rank, failed?, left, more, rfl⟩ := ih within
            exact ⟨rank, failed?, left, more ++ [.left part error? after], by simp; rfl⟩
          · cases eq_of_split last
  | @append _ m first second begun rest ih ih' =>
      rcases split_append split with ⟨more, within, rfl⟩ | ⟨more, rfl, within⟩
      · obtain ⟨rank, failed?, left, last, rfl⟩ := ih within
        exact ⟨rank, failed?, left, last ++ second, by simp⟩
      · rw [List.append_assoc, m.replay_append]
        exact ih' within

end

/-! ## Ledgers -/

section

variable {α β : Type}

theorem Ledger.andThen_assoc {γ : Type} (first : Ledger α) (next : α → Machine → Ledger β)
    (last : β → Machine → Ledger γ) :
    (first.andThen next).andThen last = first.andThen fun value m =>
      (next value m).andThen last := by
  obtain ⟨events, since, outcome⟩ := first
  cases outcome with
  | error error m => rfl
  | ok value m =>
      simp only [Ledger.andThen]
      cases (next value m).outcome <;> simp

theorem Ledger.events_andThen_ok {first : Ledger α} {value : α} {after : Machine}
    (ended : first.outcome = .ok value after) (next : α → Machine → Ledger β) :
    (first.andThen next).events = first.events ++ (next value after).events := by
  simp only [andThen, ended]

theorem Eval.ledger_bind {answer : (task : Task) → Environment → Machine → Ledger task.Answer}
    (first : Eval α) (next : α → Eval β) (env : Environment) (m : Machine) :
    (first >>= next).ledger answer env m =
      (first.ledger answer env m).andThen fun value m => (next value).ledger answer env m := by
  change (first.bind next).ledger answer env m = _
  induction first generalizing m with
  | done value => rfl
  | perform op rest ih => simp only [Eval.bind, Eval.ledger, Ledger.andThen_assoc, ih]
  | ask task rest ih => simp only [Eval.bind, Eval.ledger, Ledger.andThen_assoc, ih]

end

/-- The events are a trace that tells all that happens to the machine. -/
structure Ledger.Traced {α : Type} (env : Environment) (under : List Task) (m : Machine)
    (ledger : Ledger α) : Prop where
  trace : Trace env under m ledger.events
  replayed : m.replay ledger.events = ledger.outcome.machine

namespace Ledger

variable {α β : Type} {env : Environment} {under : List Task} {m after : Machine}

theorem Traced.value (value : α) : Traced env under m ⟨[], 0, .ok value m⟩ :=
  ⟨.nothing, rfl⟩

theorem Traced.single {event : Event} {outcome : Outcome α} (direct : event.isDirect = true)
    (advances : m.advance event = outcome.machine) : (single event outcome).Traced env under m :=
  ⟨.direct event direct, advances⟩

/-- Other events come before, whatever outcome they had. -/
theorem Traced.behind {first : List Event} {rest : Ledger β} {since : Nat} {outcome : Outcome α}
    (begun : Trace env under m first) (replayed : m.replay first = after)
    (traced : rest.Traced env under after) (ends : rest.outcome.machine = outcome.machine) :
    Traced env under m ⟨first ++ rest.events, since, outcome⟩ := by
  subst replayed
  refine ⟨begun.append traced.trace, ?_⟩
  rw [m.replay_append]
  exact traced.replayed.trans ends

theorem Traced.andThen {first : Ledger α} {next : α → Machine → Ledger β}
    (traced : first.Traced env under m)
    (later : ∀ value after, first.outcome = .ok value after →
      (next value after).Traced env under after) :
    (first.andThen next).Traced env under m := by
  have replayed := traced.replayed
  unfold Ledger.andThen
  cases ended : first.outcome with
  | ok value after =>
      rw [ended] at replayed
      exact .behind traced.trace replayed (later value after ended) rfl
  | error error after =>
      rw [ended] at replayed
      exact ⟨traced.trace, replayed⟩

end Ledger

section

variable {α : Type} {env : Environment} {under : List Task}
  {answer : (task : Task) → Environment → Machine → Ledger task.Answer}
  (answers : ∀ part m, (answer part env m).Traced env under m) {m : Machine}

include answers

theorem Eval.ledger_traced (eval : Eval α) (m : Machine) :
    (eval.ledger answer env m).Traced env under m := by
  induction eval generalizing m with
  | done value => exact .value value
  | perform op next ih =>
      have performed : (Ledger.single (.performed op (op.run env m).error? (op.run env m).machine)
          (op.run env m)).Traced env under m := .single rfl rfl
      exact performed.andThen fun value after _ => ih value after
  | ask task next ih => exact (answers task m).andThen fun value after _ => ih value after

omit answers in
theorem Ledger.repeated_traced {σ : Type} {turn : σ → Environment → Machine → Ledger (Turn σ α)}
    (turns : ∀ state m, (turn state env m).Traced env under m) (bound : Nat) (state : σ)
    (m : Machine) : (Ledger.repeated turn bound state env m).Traced env under m := by
  induction bound generalizing state m with
  | zero => exact .single rfl rfl
  | succ bound ih =>
      refine (turns state m).andThen fun reached after _ => ?_
      cases reached with
      | again state => exact ih state after
      | finished value => exact .value value

theorem Ledger.handled_traced {body : Ledger α} (traced : body.Traced env under m)
    (handler : Option (Value → Eval α)) :
    (body.handled answer under handler env).Traced env under m := by
  cases handler with
  | none => rwa [handled_none]
  | some clause =>
      rcases body with ⟨events, since, outcome⟩
      cases outcome with
      | ok value after => exact traced
      | error error middle =>
          cases catchable : error.isCatchable with
          | false => simpa [handled, catchable] using traced
          | true =>
              simp only [handled, catchable, if_true]
              rw [List.append_cons]
              refine .behind (traced.trace.append (.direct _ rfl)) ?_
                (Eval.ledger_traced answers (clause (middle.catching error).1) _) rfl
              rw [m.replay_append, show m.replay events = middle from traced.replayed]
              rfl

theorem Ledger.finalized_traced {before : Ledger α} (traced : before.Traced env under m)
    (finalizer : Option (Eval (Option α))) :
    (before.finalized answer finalizer env).Traced env under m := by
  cases finalizer with
  | none => rwa [finalized_none]
  | some finalizer =>
      rcases before with ⟨events, since, outcome⟩
      cases outcome with
      | ok value middle =>
          simp only [finalized]
          refine traced.andThen fun _ after _ => ?_
          exact (Eval.ledger_traced answers finalizer after).andThen fun last after _ => .value _
      | error error middle =>
          cases catchable : error.isCatchable with
          | false => simpa [finalized, catchable] using traced
          | true =>
              have final := Eval.ledger_traced answers finalizer middle
              obtain ⟨_, passes⟩ :=
                finalized_caught answer env middle events since catchable finalizer
              rw [passes]
              refine .behind traced.trace traced.replayed final ?_
              rcases (finalizer.ledger answer env middle).outcome with ⟨_ | last, after⟩ | _ <;> rfl

theorem Rule.ledger_traced (rule : Rule α) (turns : Nat) (m : Machine) :
    (rule.ledger answer under turns env m).Traced env under m := by
  have run {β : Type} (eval : Eval β) (m : Machine) := Eval.ledger_traced answers eval m
  cases rule with
  | once eval => exact run eval m
  | repeated first turn =>
      exact (run first m).andThen fun state after _ =>
        Ledger.repeated_traced (fun state m => run (turn state) m) turns state after
  | guarded body handler finalizer =>
      exact Ledger.finalized_traced answers (Ledger.handled_traced answers (run body m) handler)
        finalizer
  | throwing value => exact (run value m).andThen fun value after _ => .single rfl rfl

end

section

variable {env : Environment} {under : List Task}

theorem Task.advance_entered {task : Task} {m entered : Machine}
    (grants : task.enter env m = .ok () entered) (under : List Task) :
    m.advance (.entered task under) = entered := by
  rcases task.enter_cases env m with ⟨after, granted, holds⟩ | ⟨error, after, refused, -⟩
  · cases grants.symm.trans granted
    exact holds.machine.symm
  · cases grants.symm.trans refused

theorem Task.ledger_traced (rank : Nat) (under : List Task) (task : Task) (m : Machine) :
    (task.ledger rank under env m).Traced env under m := by
  induction rank generalizing under task m with
  | zero => exact .single rfl rfl
  | succ rank ih =>
      simp only [ledger]
      cases enters : task.enter env m with
      | error error after => exact ⟨.refused task error after, rfl⟩
      | ok value entered =>
          have inner : (task.inner rank under env entered).Traced env (task :: under) entered :=
            Rule.ledger_traced (ih (task :: under)) task.rule (rank + 1) entered
          obtain rfl := task.advance_entered enters under
          refine ⟨.task rank task _ _ inner.trace, ?_⟩
          exact m.replay_append _ [_]

theorem Task.inner_traced (rank : Nat) (under : List Task) (task : Task) (m : Machine) :
    (task.inner rank under env m).Traced env (task :: under) m :=
  Rule.ledger_traced (ledger_traced rank (task :: under)) task.rule (rank + 1) m

theorem Task.asked_ledger_succ (rank : Nat) (under : List Task) (task : Task) (m : Machine) :
    asked under.length m (task.ledger (rank + 1) under env m).events = [(task, m)] := by
  simp only [ledger]
  cases enters : task.enter env m with
  | error error after =>
      have asks : (Event.refused task under error after).asks? under.length = some task :=
        if_pos rfl
      exact asked_cons_some asks _ _
  | ok value entered =>
      have asks : (Event.entered task under).asks? under.length = some task := if_pos rfl
      have below : asked under.length entered (task.inner rank under env entered).events = [] :=
        (task.inner_traced rank under entered).trace.asked_below (Nat.lt_succ_self _)
      change asked under.length m
        (.entered task under :: ((task.inner rank under env entered).events ++ [_])) = _
      rw [asked_cons_some asks, task.advance_entered enters, asked_append, below]
      rfl

/-- A part asks for itself, and then for nothing at the same depth. -/
theorem Task.asked_ledger (rank : Nat) (under : List Task) (task : Task) (m : Machine) :
    asked under.length m (task.ledger rank under env m).events = [] ∨
      asked under.length m (task.ledger rank under env m).events = [(task, m)] := by
  cases rank with
  | zero => exact .inl rfl
  | succ rank => exact .inr (task.asked_ledger_succ rank under m)

end

/-- What happens in a task, from entering it until it is left, is what its rule
    leads to on the machine that it has found. -/
theorem Eval.history_opens {α : Type} (eval : Eval α) (env : Environment) (m : Machine)
    {before later : List Event} {task : Task} {under : List Task}
    (split : (eval.history env m).events = before ++ .entered task under :: later) :
    ∃ rank, untilLeft later 0 =
      (task.inner rank under env (m.replay (before ++ [.entered task under]))).events := by
  have whole : (eval.history env m).Traced env [] m :=
    Eval.ledger_traced (Task.ledger_traced (env.rank m) []) eval m
  obtain ⟨rank, error?, after, rest, rfl⟩ := whole.trace.opens split
  refine ⟨rank, ?_⟩
  rw [(task.inner_traced rank under _).trace.untilLeft_append]
  exact List.append_nil _

end StrategyQubo.Script
