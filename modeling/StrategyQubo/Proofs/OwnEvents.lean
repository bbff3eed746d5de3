import StrategyQubo.Proofs.LexicalCode

namespace StrategyQubo.Script

/-! # Own events

What code does itself, from beginning to end but for the calls that it makes.  It
does all of that inside the scope where it belongs.
-/

/-! ## Events -/

/-- So many calls are under way behind the event. -/
def Event.callsBehind : Event → Nat → Nat
  | .entered task _, calls => calls + task.isCall.toNat
  | .left task _ _, calls => calls - task.isCall.toNat
  | _, calls => calls

/-- The events outside of calls, each with the machine that it finds, if so many calls
    are under way. -/
def ownEvents : Nat → Machine → List Event → List (Event × Machine)
  | _, _, [] => []
  | calls, m, event :: rest =>
      if calls = 0 then
        (event, m) :: ownEvents (event.callsBehind calls) (m.advance event) rest
      else
        ownEvents (event.callsBehind calls) (m.advance event) rest

/-- Events of code that belongs in a scope: but for calls, everything is done inside
    that scope. -/
inductive OwnTrace (env : Environment) (home : ScopeId) : List Task → Machine → List Event → Prop where
  | nothing {under m} : OwnTrace env home under m []
  | direct {under m} (event : Event) (direct : event.isDirect = true)
      (within : ∀ scope ∈ event.at?, m.Inside home scope) : OwnTrace env home under m [event]
  | refused {under m} (task : Task) (error : ScriptError) (after : Machine) :
      OwnTrace env home under m [.refused task under error after]
  | part {under m events} (task : Task) (error? : Option ScriptError) (after : Machine)
      (code : task.isCall = false)
      (inner : OwnTrace env home (task :: under) (m.advance (.entered task under)) events) :
      OwnTrace env home under m (.entered task under :: events ++ [.left task error? after])
  | call {under m events} (task : Task) (error? : Option ScriptError) (after : Machine)
      (calls : task.isCall = true)
      (inner : Trace env (task :: under) (m.advance (.entered task under)) events) :
      OwnTrace env home under m (.entered task under :: events ++ [.left task error? after])
  | append {under m first second} (begun : OwnTrace env home under m first)
      (rest : OwnTrace env home under (m.replay first) second) : OwnTrace env home under m (first ++ second)

section

variable {env : Environment} {home : ScopeId} {under : List Task} {m : Machine}
  {events : List Event}

theorem ownEvents_cons (event : Event) (rest : List Event) :
    ownEvents 0 m (event :: rest) =
      (event, m) :: ownEvents (event.callsBehind 0) (m.advance event) rest :=
  if_pos rfl

theorem ownEvents_cons_of_pos {calls : Nat} (calling : 0 < calls) (event : Event)
    (rest : List Event) :
    ownEvents calls m (event :: rest) =
      ownEvents (event.callsBehind calls) (m.advance event) rest :=
  if_neg (Nat.ne_of_gt calling)

theorem Event.callsBehind_of_isDirect {event : Event} (direct : event.isDirect = true)
    (calls : Nat) : event.callsBehind calls = calls := by
  cases event <;> first | rfl | cases direct

/-- Nothing that happens in a call is listed. -/
theorem Trace.ownEvents_append (trace : Trace env under m events) {calls : Nat}
    (calling : 0 < calls) (rest : List Event) :
    ownEvents calls m (events ++ rest) = ownEvents calls (m.replay events) rest := by
  induction trace generalizing calls rest with
  | nothing => rfl
  | direct event direct =>
      rw [List.singleton_append, ownEvents_cons_of_pos calling, event.callsBehind_of_isDirect direct]
      rfl
  | refused task error after => exact ownEvents_cons_of_pos calling _ _
  | task rank task error? after inner ih =>
      rw [List.cons_append, List.cons_append, ownEvents_cons_of_pos calling, List.append_assoc]
      change ownEvents (calls + task.isCall.toNat) _ _ = _
      rw [ih (Nat.lt_add_right _ calling), List.singleton_append,
        ownEvents_cons_of_pos (Nat.lt_add_right _ calling)]
      change ownEvents (calls + task.isCall.toNat - task.isCall.toNat) _ _ = _
      rw [Nat.add_sub_cancel, ← List.cons_append, Machine.replay_append]
      rfl
  | append begun later first second =>
      rw [List.append_assoc, first calling, second calling, Machine.replay_append]

theorem Machine.replay_left (first : List Event) (task : Task) (error? : Option ScriptError)
    (after : Machine) : m.replay (first ++ [.left task error? after]) = after :=
  m.replay_append first [_]

/-- All that is listed happens inside. -/
theorem OwnTrace.listed (own : OwnTrace env home under m events) (rest : List Event) :
    ∃ listed, ownEvents 0 m (events ++ rest) = listed ++ ownEvents 0 (m.replay events) rest ∧
      ∀ entry ∈ listed, ∀ scope ∈ entry.1.at?, entry.2.Inside home scope := by
  induction own generalizing rest with
  | nothing => exact ⟨[], rfl, List.forall_mem_nil _⟩
  | @direct _ m event direct within =>
      refine ⟨[(event, m)], ?_, List.forall_mem_singleton.mpr within⟩
      rw [List.singleton_append, ownEvents_cons, event.callsBehind_of_isDirect direct]
      rfl
  | @refused _ m task error after =>
      exact ⟨[(_, m)], ownEvents_cons _ _, List.forall_mem_singleton.mpr nofun⟩
  | @part under m events task error? after code inner ih =>
      obtain ⟨listed, split, within⟩ := ih (.left task error? after :: rest)
      refine ⟨(.entered task under, m) :: listed ++
        [(.left task error? after, (m.advance (.entered task under)).replay events)], ?_, ?_⟩
      · have same (calls : Nat) : calls + task.isCall.toNat = calls := by rw [code]; rfl
        have left : (Event.left task error? after).callsBehind 0 = 0 := Nat.zero_sub _
        rw [Machine.replay_left, List.cons_append, List.cons_append, ownEvents_cons,
          Event.callsBehind, same, List.append_assoc, List.singleton_append, split,
          ownEvents_cons, left]
        simp [Machine.advance]
      · exact List.forall_mem_append.mpr
          ⟨List.forall_mem_cons.mpr ⟨nofun, within⟩, List.forall_mem_singleton.mpr nofun⟩
  | @call under m events task error? after calls inner =>
      refine ⟨[(.entered task under, m)], ?_, List.forall_mem_singleton.mpr nofun⟩
      -- With one call under way nothing is listed, until it is left.
      have one : task.isCall.toNat = 1 := by rw [calls]; rfl
      rw [Machine.replay_left, List.cons_append, List.cons_append, ownEvents_cons,
        Event.callsBehind, one, List.append_assoc, inner.ownEvents_append Nat.one_pos,
        List.singleton_append, ownEvents_cons_of_pos Nat.one_pos, Event.callsBehind, one]
      rfl
  | append begun later first second =>
      obtain ⟨one, split, within⟩ := first (_ ++ rest)
      obtain ⟨two, split', within'⟩ := second rest
      refine ⟨one ++ two, ?_, List.forall_mem_append.mpr ⟨within, within'⟩⟩
      rw [List.append_assoc, split, split', List.append_assoc, Machine.replay_append]

theorem exists_split_of_mem_ownEvents {calls : Nat} {entry : Event × Machine}
    (member : entry ∈ ownEvents calls m events) :
    ∃ before later, events = before ++ entry.1 :: later ∧ entry.2 = m.replay before := by
  induction events generalizing calls m with
  | nil => cases member
  | cons event rest ih =>
      have further (member : entry ∈ ownEvents (event.callsBehind calls) (m.advance event) rest) :
          ∃ before later, event :: rest = before ++ entry.1 :: later ∧ entry.2 = m.replay before := by
        obtain ⟨before, later, rfl, found⟩ := ih member
        exact ⟨event :: before, later, rfl, found⟩
      unfold ownEvents at member
      split at member
      · rcases List.mem_cons.mp member with rfl | behind
        · exact ⟨[], rest, rfl, rfl⟩
        · exact further behind
      · exact further member

theorem OwnTrace.ownEvents_inside (own : OwnTrace env home under m events) :
    ∀ entry ∈ ownEvents 0 m events, ∀ scope ∈ entry.1.at?, entry.2.Inside home scope := by
  obtain ⟨listed, split, within⟩ := own.listed []
  rw [List.append_nil] at split
  rw [split]
  exact List.forall_mem_append.mpr ⟨within, List.forall_mem_nil _⟩

end

/-! ## Ledgers -/

/-- The events are those of code that belongs in the scope. -/
structure Ledger.Own {α : Type} (env : Environment) (home : ScopeId) (under : List Task)
    (m : Machine) (ledger : Ledger α) : Prop where
  trace : OwnTrace env home under m ledger.events
  replayed : m.replay ledger.events = ledger.outcome.machine
  later : m.Later ledger.outcome.machine

namespace Ledger

variable {α β : Type} {env : Environment} {home : ScopeId} {under : List Task} {m after : Machine}

theorem Own.value (value : α) : Own env home under m ⟨[], 0, .ok value m⟩ :=
  ⟨.nothing, rfl, .refl m⟩

theorem Own.single {event : Event} {outcome : Outcome α} (direct : event.isDirect = true)
    (within : ∀ scope ∈ event.at?, m.Inside home scope)
    (advances : m.advance event = outcome.machine) (later : m.Later outcome.machine) :
    (single event outcome).Own env home under m :=
  ⟨.direct event direct within, advances, later⟩

/-- Other events come before, whatever outcome they had. -/
theorem Own.behind {first : List Event} {rest : Ledger β} {since : Nat} {outcome : Outcome α}
    (begun : OwnTrace env home under m first) (replayed : m.replay first = after)
    (later : m.Later after) (own : rest.Own env home under after)
    (ends : outcome.machine = rest.outcome.machine) :
    Own env home under m ⟨first ++ rest.events, since, outcome⟩ := by
  subst replayed
  refine ⟨begun.append own.trace, ?_, ?_⟩
  · rw [m.replay_append, own.replayed, ends]
  · rw [ends]
    exact later.trans own.later

theorem Own.andThen {first : Ledger α} {next : α → Machine → Ledger β}
    (own : first.Own env home under m)
    (later : ∀ value after, first.outcome = .ok value after →
      (next value after).Own env home under after) :
    (first.andThen next).Own env home under m := by
  have replayed := own.replayed
  have grown := own.later
  unfold Ledger.andThen
  cases ended : first.outcome with
  | ok value after =>
      rw [ended] at replayed grown
      exact .behind own.trace replayed grown (later value after ended) rfl
  | error error after =>
      rw [ended] at replayed grown
      exact ⟨own.trace, replayed, grown⟩

end Ledger

/-- A scope that is made at a scope inside is inside too. -/
theorem Operation.made_inside {op : Operation} {env : Environment} {m after : Machine}
    {answer : op.Answer} {home : ScopeId} (ran : op.run env m = .ok answer after)
    (within : ∀ scope ∈ op.at?, m.Inside home scope) :
    ∀ scope ∈ op.made answer, after.Inside home scope := by
  cases op with
  | newScope parent isFunction =>
      intro scope made
      obtain rfl : scope = answer := made
      cases ran
      have later : m.Later _ := ((newScope parent isFunction).run_gains_any env m).later
      refine .outer ?_ ?_ ((within parent rfl).later later)
      · simp
      · simp [Machine.scopeAt, Array.getD_eq_getD_getElem?, Scope.fresh]
  | _ => exact fun _ made => made.elim

section

variable {α : Type} {env : Environment} {home : ScopeId} {under : List Task}
  {answer : (task : Task) → Environment → Machine → Ledger task.Answer}
  (answers : ∀ task m, (∀ scope ∈ task.at?, m.Inside home scope) →
    (answer task env m).Own env home under m)

include answers

theorem Eval.ledger_own {eval : Eval α} {expected : Set ScopeId → α → Prop}
    {scopes : Set ScopeId} {m : Machine} (acts : eval.Local expected scopes)
    (within : ∀ scope ∈ scopes, m.Inside home scope) :
    (eval.ledger answer env m).Own env home under m ∧
    ∀ value after, (eval.ledger answer env m).outcome = .ok value after →
      ∃ wider, (∀ scope ∈ wider, after.Inside home scope) ∧ scopes ⊆ wider ∧
        expected wider value := by
  induction eval generalizing m scopes with
  | done value =>
      refine ⟨.value value, fun value after ended => ?_⟩
      cases ended
      exact ⟨scopes, within, subset_rfl, acts⟩
  | perform op next ih =>
      have at_ (scope : ScopeId) (found : scope ∈ op.at?) : m.Inside home scope :=
        within scope (acts.1 scope found)
      have later := (op.run_gains_any env m).later
      have done : (Ledger.single (.performed op (op.run env m).error? (op.run env m).machine)
          (op.run env m)).Own env home under m := .single rfl at_ rfl later
      have goesOn (value : op.Answer) (after : Machine) (ran : op.run env m = .ok value after) := by
        have onward : m.Later after := by simpa [ran] using later
        refine ih value (acts.2 value) (m := after) ?_
        rintro scope (old | made)
        · exact (within scope old).later onward
        · exact Operation.made_inside ran at_ scope made
      refine ⟨done.andThen fun value after ran => (goesOn value after ran).1, ?_⟩
      intro value after ended
      simp only [ledger, Ledger.andThen_outcome, Ledger.single] at ended
      obtain ⟨answered, between, ran, ended⟩ := Outcome.exists_of_andThen_eq_ok ended
      obtain ⟨wider, inside, grown, holds⟩ := (goesOn answered between ran).2 value after ended
      exact ⟨wider, inside, Set.subset_union_left.trans grown, holds⟩
  | ask task next ih =>
      have own := answers task m fun scope found => within scope (acts.1 scope found)
      have goesOn (value : task.Answer) (after : Machine)
          (ran : (answer task env m).outcome = .ok value after) := by
        have onward : m.Later after := by simpa [ran] using own.later
        exact ih value (acts.2 value) (m := after) fun scope member =>
          (within scope member).later onward
      refine ⟨own.andThen fun value after ran => (goesOn value after ran).1, ?_⟩
      intro value after ended
      simp only [ledger, Ledger.andThen_outcome] at ended
      obtain ⟨answered, between, ran, ended⟩ := Outcome.exists_of_andThen_eq_ok ended
      exact (goesOn answered between ran).2 value after ended

omit answers in
theorem Ledger.repeated_own {σ : Type} {invariant : Set ScopeId → σ → Prop} {place : ScopeId}
    {turn : σ → Environment → Machine → Ledger (Turn σ α)}
    (turns : ∀ state m scopes, place ∈ scopes → (∀ scope ∈ scopes, m.Inside home scope) →
      invariant scopes state → (turn state env m).Own env home under m ∧
        ∀ reached after, (turn state env m).outcome = .ok reached after →
          ∃ wider, (∀ scope ∈ wider, after.Inside home scope) ∧ scopes ⊆ wider ∧
            reached.Again (invariant wider))
    (bound : Nat) {state : σ} {m : Machine} {scopes : Set ScopeId} (among : place ∈ scopes)
    (within : ∀ scope ∈ scopes, m.Inside home scope) (begins : invariant scopes state) :
    (repeated turn bound state env m).Own env home under m := by
  induction bound generalizing state m scopes with
  | zero => exact .single rfl nofun rfl (.refl m)
  | succ bound ih =>
      obtain ⟨own, again⟩ := turns state m scopes among within begins
      apply own.andThen
      intro reached after ended
      cases reached with
      | finished value => exact .value value
      | again state =>
          obtain ⟨wider, inside, grown, holds⟩ := again _ after ended
          exact ih (grown among) inside holds

/-- Code that acts at a scope inside does all of it inside. -/
theorem Eval.ledger_own_of_actsAt {eval : Eval α} {scope : ScopeId} {m : Machine}
    (acts : eval.ActsAt scope) (within : m.Inside home scope) :
    (eval.ledger answer env m).Own env home under m := by
  have acting : eval.Local (fun _ _ => True) {scope} := acts {scope} rfl
  exact (Eval.ledger_own answers acting fun _ same => same ▸ within).1

theorem Ledger.handled_own {body : Ledger α} {m : Machine} {scope : ScopeId}
    (own : body.Own env home under m) (within : m.Inside home scope)
    {handler : Option (Value → Eval α)}
    (clauses : ∀ clause ∈ handler, ∀ given, (clause given).ActsAt scope) :
    (body.handled answer under handler env).Own env home under m := by
  have replayed := own.replayed
  have grown := own.later
  cases handler with
  | none => rwa [handled_none]
  | some clause =>
      obtain ⟨events, since, outcome⟩ := body
      cases outcome with
      | ok value after => exact own
      | error error middle =>
          cases catchable : error.isCatchable with
          | false => simpa [handled, catchable] using own
          | true =>
              obtain ⟨heap, thrown, frame⟩ := middle.catching_frame error
              have caught : middle.Later (middle.catching error).2 := .of_frames (by rw [frame]; rfl)
              have onward := Machine.Later.trans grown caught
              have clause := Eval.ledger_own_of_actsAt answers
                (clauses clause rfl (middle.catching error).1) (within.later onward)
              simp only [handled, catchable, if_true]
              rw [List.append_cons]
              refine .behind (own.trace.append (.direct _ rfl fun _ none =>
                absurd none (Option.not_mem_none _))) ?_ onward clause rfl
              rw [m.replay_append, show m.replay events = middle from replayed]
              rfl

theorem Ledger.finalized_own {before : Ledger α} {m : Machine} {scope : ScopeId}
    (own : before.Own env home under m) (within : m.Inside home scope)
    {finalizer : Option (Eval (Option α))} (lasts : ∀ last ∈ finalizer, last.ActsAt scope) :
    (before.finalized answer finalizer env).Own env home under m := by
  have replayed := own.replayed
  have grown := own.later
  cases finalizer with
  | none => rwa [finalized_none]
  | some last =>
      obtain ⟨events, since, outcome⟩ := before
      cases outcome with
      | ok value middle =>
          apply own.andThen
          intro _ after ended
          cases ended
          apply (Eval.ledger_own_of_actsAt answers (lasts last rfl) (within.later grown)).andThen
          intro _ _ _
          exact .value _
      | error error middle =>
          cases catchable : error.isCatchable with
          | false => simpa [finalized, catchable] using own
          | true =>
              have final := Eval.ledger_own_of_actsAt answers (lasts last rfl) (within.later grown)
              obtain ⟨_, passes⟩ := finalized_caught answer env middle events since catchable last
              rw [passes]
              refine .behind own.trace replayed grown final ?_
              rcases (last.ledger answer env middle).outcome with ⟨_ | found, _⟩ | _ <;> rfl

theorem Rule.ledger_own {rule : Rule α} {scope : ScopeId} (acts : rule.ActsAt scope)
    (turns : Nat) {m : Machine} (within : m.Inside home scope) :
    (rule.ledger answer under turns env m).Own env home under m := by
  cases rule with
  | once eval => exact Eval.ledger_own_of_actsAt answers acts within
  | repeated first turn =>
      obtain ⟨invariant, starts, goesOn⟩ := acts
      obtain ⟨own, begun⟩ := Eval.ledger_own answers (starts {scope} rfl)
        fun _ same => same ▸ within
      apply own.andThen
      intro state after ended
      obtain ⟨wider, inside, grown, begins⟩ := begun state after ended
      refine Ledger.repeated_own ?_ turns (grown rfl) inside begins
      exact fun state m scopes among within holds =>
        Eval.ledger_own answers (goesOn state scopes among holds) within
  | guarded body handler finalizer =>
      have own := Eval.ledger_own_of_actsAt answers acts.1 within
      exact Ledger.finalized_own answers (Ledger.handled_own answers own within acts.2.1) within
        acts.2.2
  | throwing value =>
      apply (Eval.ledger_own_of_actsAt answers acts within).andThen
      intro value after _
      exact .single rfl nofun rfl (.of_frames rfl)

end

/-! ## Tasks -/

section

variable {env : Environment} {home : ScopeId} {under : List Task} {m : Machine}

theorem Task.ledger_later (rank : Nat) (under : List Task) (task : Task) (m : Machine) :
    m.Later (task.ledger rank under env m).outcome.machine := by
  have free (task : Task) : task.Contained fun _ _ => True := by
    cases task <;> simp [Task.Contained]
  exact (Task.ledger_gains (fun _ => Task.rule_contained fun _ _ _ => trivial) rank under
    (free task) (Nat.zero_le m.scopes.size)).later

/-- What a part does at a scope inside, all of it is done inside. -/
theorem Task.ledger_own (rank : Nat) (under : List Task) (task : Task) (m : Machine)
    (within : ∀ scope ∈ task.at?, m.Inside home scope) :
    (task.ledger rank under env m).Own env home under m := by
  induction rank generalizing under task m with
  | zero => exact .single rfl nofun rfl (.refl m)
  | succ rank ih =>
      have later : m.Later (task.ledger (rank + 1) under env m).outcome.machine :=
        task.ledger_later (rank + 1) under m
      simp only [ledger] at later ⊢
      cases enters : task.enter env m with
      | error error after =>
          rw [enters] at later
          exact ⟨.refused task error after, rfl, later⟩
      | ok value entered =>
          rw [enters] at later
          obtain rfl := task.advance_entered enters under
          have replayed := m.replay_append (.entered task under ::
            (task.inner rank under env (m.advance (.entered task under))).events)
          cases calls : task.isCall with
          | true =>
              exact ⟨.call task _ _ calls (task.inner_traced rank under _).trace, replayed [_], later⟩
          | false =>
              have onward : m.Later (m.advance (.entered task under)) := .of_frames rfl
              have inner : (task.inner rank under env (m.advance (.entered task under))).Own env home
                  (task :: under) (m.advance (.entered task under)) := by
                cases task with
                | call function arguments => cases calls
                | _ =>
                    exact Rule.ledger_own (ih _) (Task.rule_actsAt rfl) (rank + 1)
                      ((within _ rfl).later onward)
              exact ⟨.part task _ _ calls inner.trace, replayed [_], later⟩

/-- Between entering a task and leaving it, all that it does itself is done inside the
    scope where it belongs. -/
theorem Eval.history_own {α : Type} (eval : Eval α) (env : Environment) (m : Machine)
    {before later : List Event} {task : Task} {under : List Task} {scope : ScopeId}
    (split : (eval.history env m).events = before ++ .entered task under :: later)
    (belongs : task.home? = some scope)
    (within : (m.replay (before ++ [.entered task under])).Inside home scope) :
    ∀ entry ∈ ownEvents 0 (m.replay (before ++ [.entered task under])) (untilLeft later 0),
      ∀ scope ∈ entry.1.at?, entry.2.Inside home scope := by
  obtain ⟨rank, inside⟩ := eval.history_opens env m split
  rw [inside]
  have own : (task.inner rank under env (m.replay (before ++ [.entered task under]))).Own env home
      (task :: under) (m.replay (before ++ [.entered task under])) :=
    Rule.ledger_own (Task.ledger_own rank (task :: under)) (Task.rule_actsAt belongs) (rank + 1)
      within
  exact own.trace.ownEvents_inside

end

/-! ## Errands -/

/-- What code that belongs in the region does itself, with the machine that it finds. -/
def Errand.Does (env : Environment) (m : Machine) (home : ScopeId) (entry : Event × Machine)
    (errand : Errand) : Prop :=
  ∃ before task under later place, errand.events env m = before ++ .entered task under :: later ∧
    task.home? = some place ∧ (m.replay (before ++ [.entered task under])).Inside home place ∧
    entry ∈ ownEvents 0 (m.replay (before ++ [.entered task under])) (untilLeft later 0)

section

variable {env : Environment} {home : ScopeId} {m : Machine} {entry : Event × Machine}

theorem Errand.exists_history (errand : Errand) (env : Environment) (m : Machine) :
    ∃ (α : Type) (eval : Eval α), errand.events env m = (eval.history env m).events := by
  cases errand with
  | run program => exact ⟨_, programRule program.body, rfl⟩
  | call function arguments => exact ⟨_, .call function arguments, rfl⟩

namespace Errand.Does

variable {errand : Errand}

theorem inside (does : errand.Does env m home entry) :
    ∀ scope ∈ entry.1.at?, entry.2.Inside home scope := by
  obtain ⟨before, task, under, later, place, split, belongs, within, own⟩ := does
  obtain ⟨α, eval, history⟩ := errand.exists_history env m
  exact eval.history_own env m (history ▸ split) belongs within entry own

theorem happens (does : errand.Does env m home entry) : entry.1.Happens env entry.2 := by
  obtain ⟨before, task, under, later, place, split, -, -, own⟩ := does
  obtain ⟨past, future, within, found⟩ := exists_split_of_mem_ownEvents own
  obtain ⟨behind, whole⟩ := untilLeft_prefix later 0
  have chronicle := errand.chronicle env m
  rw [split, ← whole, within, List.append_cons] at chronicle
  have here := (chronicle.split.2.split.1).split.2
  rw [← found] at here
  cases here with
  | next happens later => exact happens

end Errand.Does

end

end StrategyQubo.Script
