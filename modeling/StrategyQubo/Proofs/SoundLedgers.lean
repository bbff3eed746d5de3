import StrategyQubo.Proofs.Granting
import StrategyQubo.Proofs.SafeRules

namespace StrategyQubo.Script

/-! # Sound ledgers

A safe program, run on a sound machine, passes through sound machines only, and
uses nothing on the way that is not sound on the machine that it finds.
-/

/-! ## Replaying events -/

/-- The machine after an event. -/
def Machine.advance (m : Machine) : Event → Machine
  | .performed _ _ after => after
  | .entered task _ =>
      { m with
        steps := m.steps + 1
        nesting := m.nesting + task.isNested.toNat
        depth := m.depth + task.isClosureCall.toNat }
  | .refused _ _ _ after => after
  | .left _ _ after => after
  | .threw value => { m with thrown := some value }
  | .caught _ error _ _ => (m.catching error).2
  | .cutOff => m

def Machine.replay (m : Machine) (events : List Event) : Machine :=
  events.foldl Machine.advance m

theorem Machine.replay_append (m : Machine) (first second : List Event) :
    m.replay (first ++ second) = (m.replay first).replay second :=
  List.foldl_append

/-! ## Passages -/

/-- What the event uses is sound on the machine that it finds. -/
def Event.Given {limits : Limits} (r : Ration limits) (m : Machine) : Event → Prop
  | .performed op _ _ => op.Sound r m
  | .entered task _ => task.Sound r m.scopes.size
  | .refused task _ _ _ => task.Sound r m.scopes.size
  | .left task _ _ => task.Sound r m.scopes.size
  | .threw value => value.Sound r m.scopes.size
  | .caught _ _ _ given => given.Sound r m.scopes.size
  | .cutOff => True

/-- Events that each find what they use sound, and lead to sound machines. -/
inductive Passage {limits : Limits} (r : Ration limits) : Machine → List Event → Prop where
  | nothing {m} : Passage r m []
  | event {m event rest} (given : event.Given r m) (leads : m.Leads r (m.advance event))
      (later : Passage r (m.advance event) rest) : Passage r m (event :: rest)

namespace Passage

variable {limits : Limits} {r : Ration limits} {m : Machine}
  {first second before later : List Event} {event : Event}

theorem append (begun : Passage r m first) (rest : Passage r (m.replay first) second) :
    Passage r m (first ++ second) := by
  induction begun with
  | nothing => exact rest
  | event given leads later ih => exact .event given leads (ih rest)

theorem leads (passage : Passage r m first) (sound : m.Sound r) : m.Leads r (m.replay first) := by
  induction passage with
  | nothing => exact .refl sound
  | event given leads later ih => exact leads.trans (ih leads.sound)

theorem left (passage : Passage r m (first ++ second)) : Passage r m first := by
  induction first generalizing m with
  | nil => exact .nothing
  | cons event rest ih =>
      obtain _ | ⟨given, leads, later⟩ := passage
      exact .event given leads (ih later)

/-- What happens somewhere on the way. -/
theorem split (passage : Passage r m (before ++ event :: later)) (sound : m.Sound r) :
    m.Leads r (m.replay before) ∧ event.Given r (m.replay before) ∧
      (m.replay before).Leads r ((m.replay before).advance event) := by
  induction before generalizing m with
  | nil =>
      obtain _ | ⟨given, leads, -⟩ := passage
      exact ⟨.refl sound, given, leads⟩
  | cons head before ih =>
      obtain _ | ⟨-, leads, rest⟩ := passage
      obtain ⟨further, here⟩ := ih rest leads.sound
      exact ⟨leads.trans further, here⟩

end Passage

/-! ## Ledgers -/

namespace Ledger

variable {α β : Type}

/-- Every event keeps to the ration where nothing checks a length. -/
def Spared {limits : Limits} (ledger : Ledger α) (r : Ration limits) : Prop :=
  ∀ event ∈ ledger.events, event.Spares r

structure Sound {limits : Limits} (r : Ration limits) (m : Machine) (post : α → Machine → Prop)
    (ledger : Ledger α) : Prop where
  passage : Passage r m ledger.events
  replayed : m.replay ledger.events = ledger.outcome.machine
  gives : ∀ value after, ledger.outcome = .ok value after → post value after

variable {limits : Limits} {r : Ration limits} {m : Machine} {post : α → Machine → Prop}
  {ledger first : Ledger α} {next : α → Machine → Ledger β}

theorem Sound.leads (good : ledger.Sound r m post) (sound : m.Sound r) :
    m.Leads r ledger.outcome.machine :=
  good.replayed ▸ good.passage.leads sound

theorem Sound.mono {weaker : α → Machine → Prop} (good : ledger.Sound r m post)
    (implies : ∀ value after, post value after → weaker value after) :
    ledger.Sound r m weaker :=
  ⟨good.passage, good.replayed, fun value after ended =>
    implies value after (good.gives value after ended)⟩

/-- An error gives nothing. -/
theorem no_value {error : ScriptError} {last : Machine} (value : α) (after : Machine)
    (given : (.error error last : Outcome α) = .ok value after) : post value after :=
  nomatch given

/-- What is given is given in the end. -/
theorem Sound.ended (good : ledger.Sound r m post) :
    ledger.Sound r m fun value after => ledger.outcome = .ok value after ∧ post value after :=
  ⟨good.passage, good.replayed, fun value after ended => ⟨ended, good.gives value after ended⟩⟩

theorem Sound.value (value : α) (holds : post value m) :
    Ledger.Sound r m post ⟨[], 0, .ok value m⟩ := by
  refine ⟨.nothing, rfl, ?_⟩
  rintro _ _ ⟨⟩
  exact holds

theorem Sound.single {event : Event} {outcome : Outcome α} (given : event.Given r m)
    (leads : m.Leads r (m.advance event)) (after : m.advance event = outcome.machine)
    (gives : ∀ value last, outcome = .ok value last → post value last) :
    (Ledger.single event outcome).Sound r m post :=
  ⟨.event given leads .nothing, after, gives⟩

/-- An event comes before what is sound. -/
theorem Sound.cons (event : Event) (given : event.Given r m)
    (leads : m.Leads r (m.advance event)) (rest : ledger.Sound r (m.advance event) post) :
    Ledger.Sound r m post ⟨event :: ledger.events, ledger.since, ledger.outcome⟩ :=
  ⟨.event given leads rest.passage, rest.replayed, rest.gives⟩

/-- Other events come before what is sound, whatever outcome they had.  The
    machine in the end is what counts of the outcome that the whole has. -/
theorem Sound.goesOn {γ : Type} {before : α → Machine → Prop} {after : Machine}
    {later : Ledger β} {given : β → Machine → Prop} {post : γ → Machine → Prop} {since : Nat}
    {outcome : Outcome γ}
    (good : ledger.Sound r m before) (ended : ledger.outcome.machine = after)
    (rest : later.Sound r after given) (last : later.outcome.machine = outcome.machine)
    (gives : ∀ value after, outcome = .ok value after → post value after) :
    Ledger.Sound r m post ⟨ledger.events ++ later.events, since, outcome⟩ := by
  have replayed := good.replayed.trans ended
  refine ⟨good.passage.append (replayed ▸ rest.passage), ?_, gives⟩
  rw [Machine.replay_append, replayed]
  exact rest.replayed.trans last

theorem Spared.begun (spared : (first.andThen next).Spared r) : first.Spared r :=
  fun event member => spared event ((first.prefix_andThen next).subset member)

theorem Spared.later (spared : (first.andThen next).Spared r) {value : α} {after : Machine}
    (ended : first.outcome = .ok value after) : (next value after).Spared r := by
  intro event member
  refine spared event ?_
  simp only [andThen, ended]
  exact List.mem_append_right _ member

theorem Sound.andThen {post' : β → Machine → Prop} (good : first.Sound r m post)
    (sound : m.Sound r) (spared : (first.andThen next).Spared r)
    (later : ∀ value after, m.Leads r after → post value after → (next value after).Spared r →
      (next value after).Sound r after post') : (first.andThen next).Sound r m post' := by
  have leads := good.leads sound
  cases ended : first.outcome with
  | error error after =>
      simp only [Ledger.andThen, ended]
      exact ⟨good.passage, by rw [good.replayed, ended]; rfl, no_value⟩
  | ok value after =>
      rw [ended] at leads
      have rest := later value after leads (good.gives value after ended) (spared.later ended)
      simp only [Ledger.andThen, ended]
      exact good.goesOn (by rw [ended]; rfl) rest rfl rest.gives

end Ledger

/-! ## Catching -/

theorem ScriptError.scriptView_short (error : ScriptError) :
    error.scriptView.1.utf8ByteSize ≤ 1024 := by
  cases error <;> exact Nat.le_of_ble_eq_true rfl

section

variable {env : Environment} {r : Ration env.limits} {m : Machine}

/-- Steps, nesting and depth do not matter. -/
theorem Machine.Sound.withCounters (sound : m.Sound r) (steps nesting depth : Nat) :
    m.Leads r { m with steps := steps, nesting := nesting, depth := depth } :=
  sound.of_held rfl rfl rfl

theorem Machine.Sound.leave (sound : m.Sound r) (task : Task) : m.Leads r (task.leave m) := by
  rw [task.leave_eq]
  exact sound.withCounters ..

/-- What a catch clause is given is sound, and so is the machine without it. -/
theorem Machine.Sound.catching (sound : m.Sound r) {under : List Task} {error : ScriptError}
    {since : Nat} (spared : (Event.caught under error since (m.catching error).1).Spares r) :
    (m.catching error).1.Sound r m.scopes.size ∧ m.Leads r (m.catching error).2 := by
  have described (spared : r.Text error.scriptView.2) :
      m.Leads r { m with heap := (m.heap.newObject
        (errorRecord error.scriptView.1 error.scriptView.2)).2 } :=
    sound.withHeap (sound.heap.newObject (errorRecord_sound error.scriptView_short spared))
  cases error with
  | thrown text =>
      refine ⟨?_, sound.withThrown nofun⟩
      change (m.thrown.getD (.string text)).Sound r m.scopes.size
      cases inFlight : m.thrown with
      | none => exact spared text (by simp [Machine.catching, inFlight])
      | some value => exact sound.thrown value inFlight
  | _ => exact ⟨trivial, described spared⟩

end

/-! ## Evaluations -/

section

variable {α : Type} {env : Environment} {r : Ration env.limits}
  {answer : (task : Task) → Environment → Machine → Ledger task.Answer}

/-- What is needed of those who evaluate the parts of a program. -/
def SoundAnswers (r : Ration env.limits)
    (answer : (task : Task) → Environment → Machine → Ledger task.Answer) : Prop :=
  ∀ task m, m.Sound r → task.Sound r m.scopes.size → (answer task env m).Spared r →
    (answer task env m).Sound r m fun value after => task.Returns r after.scopes.size value

variable (answers : SoundAnswers r answer) {m : Machine} {expected : Nat → α → Prop}

include answers

theorem Eval.ledger_sound {eval : Eval α} {post : α → Machine → Prop}
    (safe : eval.Safe r post m) (sound : m.Sound r)
    (spared : (eval.ledger answer env m).Spared r) :
    (eval.ledger answer env m).Sound r m post := by
  induction eval generalizing m with
  | done value => exact .value value safe
  | perform op next ih =>
      have here : (op.event env m).Spares r := spared.begun _ (List.mem_singleton_self _)
      obtain ⟨given, later⟩ := safe here
      have done : (Ledger.single (op.event env m) (op.run env m)).Sound r m
          fun value after => op.run env m = .ok value after :=
        .single given (op.run_sound sound given here) rfl fun _ _ => id
      exact done.andThen sound spared fun value after leads ran spared =>
        ih value (later value after ran) leads.sound spared
  | ask task next ih =>
      refine (answers task m sound safe.1 spared.begun).andThen sound spared ?_
      exact fun value after leads returns spared =>
        ih value (safe.2 value after leads returns) leads.sound spared

theorem Eval.ledger_gives {eval : Eval α} (gives : eval.Gives r expected m) (sound : m.Sound r)
    (spared : (eval.ledger answer env m).Spared r) :
    (eval.ledger answer env m).Sound r m fun value after => expected after.scopes.size value :=
  (Eval.ledger_sound answers gives sound spared).mono fun _ _ good => good.2

omit answers in
theorem Ledger.repeated_sound {σ : Type} {invariant : Nat → σ → Prop}
    {turn : σ → Environment → Machine → Ledger (Turn σ α)} {start : Machine}
    (turns : ∀ state m, start.Leads r m → invariant m.scopes.size state →
      (turn state env m).Spared r → (turn state env m).Sound r m
        fun reached after => reached.Holds invariant expected after.scopes.size)
    {bound : Nat} {state : σ} (leads : start.Leads r m) (holds : invariant m.scopes.size state)
    (spared : (Ledger.repeated turn bound state env m).Spared r) :
    (Ledger.repeated turn bound state env m).Sound r m
      fun value after => expected after.scopes.size value := by
  induction bound generalizing state m with
  | zero => exact .single trivial (.refl leads.sound) rfl no_value
  | succ bound ih =>
      have first := turns state m leads holds spared.begun
      refine first.andThen leads.sound spared fun reached after further holds spared => ?_
      cases reached with
      | again state => exact ih (leads.trans further) holds spared
      | finished value => exact .value value holds

theorem Ledger.handled_sound {under : List Task} {body : Ledger α}
    {handler : Option (Value → Eval α)} (sound : m.Sound r)
    (begun : body.Spared r → body.Sound r m fun value after => expected after.scopes.size value)
    (clauses : ∀ clause ∈ handler, ∀ given after, m.Leads r after →
      given.Sound r after.scopes.size → (clause given).Gives r expected after)
    (spared : (body.handled answer under handler env).Spared r) :
    (body.handled answer under handler env).Sound r m
      fun value after => expected after.scopes.size value := by
  cases handler with
  | none =>
      rw [handled_none] at spared ⊢
      exact begun spared
  | some clause =>
      cases ended : body.outcome with
      | ok value after =>
          simp only [handled, ended] at spared ⊢
          exact begun spared
      | error error after =>
          cases catchable : error.isCatchable with
          | false =>
              simp only [handled, ended, catchable] at spared ⊢
              exact begun spared
          | true =>
              simp only [handled, ended, catchable, if_true] at spared ⊢
              have first := begun fun event member => spared event (List.mem_append_left _ member)
              have leads := first.leads sound
              rw [ended, Outcome.machine_error] at leads
              have later {event : Event} (member : event ∈ _ :: _) : event.Spares r :=
                spared event (List.mem_append_right _ member)
              obtain ⟨given, caught⟩ := leads.sound.catching (later (List.mem_cons_self ..))
              have gives := clauses clause rfl _ _ (leads.trans caught) (given.mono caught.grown)
              have rest := Eval.ledger_gives answers gives caught.sound
                fun event member => later (List.mem_cons_of_mem _ member)
              have whole := Sound.cons (.caught under error body.since _) given caught rest
              exact first.goesOn (by rw [ended]; rfl) whole rfl whole.gives

theorem Ledger.finalized_sound {before : Ledger α} {finalizer : Option (Eval (Option α))}
    (keeps : ∀ {scopes more value}, expected scopes value → scopes ≤ more → expected more value)
    (sound : m.Sound r)
    (begun : before.Spared r → before.Sound r m fun value after => expected after.scopes.size value)
    (lasts : ∀ last ∈ finalizer, ∀ after, m.Leads r after →
      last.Gives r (fun scopes value? => ∀ value ∈ value?, expected scopes value) after)
    (spared : (before.finalized answer finalizer env).Spared r) :
    (before.finalized answer finalizer env).Sound r m
      fun value after => expected after.scopes.size value := by
  cases finalizer with
  | none =>
      rw [finalized_none] at spared ⊢
      exact begun spared
  | some finalizer =>
      cases ended : before.outcome with
      | ok value after =>
          simp only [finalized, ended] at spared ⊢
          refine (begun spared.begun).ended.andThen sound spared ?_
          rintro _ middle leads ⟨same, holds⟩ spared
          cases ended.symm.trans same
          have last := Eval.ledger_gives answers (lasts finalizer rfl _ leads) leads.sound
            spared.begun
          refine last.andThen leads.sound spared fun last after further replaces _ => .value _ ?_
          cases last with
          | none => exact keeps holds further.grown
          | some last => exact replaces last rfl
      | error error after =>
          cases catchable : error.isCatchable with
          | false =>
              simp only [finalized, ended, catchable] at spared ⊢
              exact begun spared
          | true =>
              simp only [finalized, ended, catchable, if_true] at spared ⊢
              have all : ∀ event ∈ before.events ++ (finalizer.ledger answer env after).events,
                  event.Spares r := by
                intro event member
                apply spared event
                split <;> exact member
              have first := begun fun event member => all event (List.mem_append_left _ member)
              have leads := first.leads sound
              rw [ended, Outcome.machine_error] at leads
              have last := Eval.ledger_gives answers (lasts finalizer rfl _ leads) leads.sound
                fun event member => all event (List.mem_append_right _ member)
              have middle : before.outcome.machine = after := by rw [ended]; rfl
              -- The finalizer's machine is the one in the end, whichever error or value is kept.
              rcases finished : (finalizer.ledger answer env after).outcome with
                ⟨_ | value, last'⟩ | ⟨error', last'⟩ <;> dsimp only
              · exact first.goesOn middle last (by rw [finished]; rfl) no_value
              · refine first.goesOn middle last (by rw [finished]; rfl) ?_
                rintro _ _ ⟨⟩
                exact last.gives _ _ finished value rfl
              · exact first.goesOn middle last (by rw [finished]; rfl) no_value

theorem Rule.ledger_sound (under : List Task) (turns : Nat) {rule : Rule α} (sound : m.Sound r)
    (gives : rule.Gives r expected m)
    (keeps : ∀ {scopes more value}, expected scopes value → scopes ≤ more → expected more value)
    (spared : (rule.ledger answer under turns env m).Spared r) :
    (rule.ledger answer under turns env m).Sound r m
      fun value after => expected after.scopes.size value := by
  cases rule with
  | once eval => exact Eval.ledger_gives answers gives sound spared
  | repeated first turn =>
      obtain ⟨invariant, first, turns⟩ := gives
      refine (Eval.ledger_gives answers first sound spared.begun).andThen sound spared ?_
      intro state after leads holds spared
      refine Ledger.repeated_sound ?_ (.refl leads.sound) holds spared
      intro state last further holds spared
      have turn := turns state last (leads.trans further) holds
      exact Eval.ledger_gives answers turn further.sound spared
  | guarded body handler finalizer =>
      obtain ⟨body, clauses, lasts⟩ := gives
      refine Ledger.finalized_sound answers keeps sound (fun spared => ?_) lasts spared
      refine Ledger.handled_sound answers sound (fun spared => ?_) clauses spared
      exact Eval.ledger_gives answers body sound spared
  | throwing value =>
      refine (Eval.ledger_gives answers gives sound spared.begun).andThen sound spared ?_
      intro value after leads given _
      refine .single given (leads.sound.withThrown ?_) rfl Ledger.no_value
      rintro _ ⟨⟩
      exact given

end

/-! ## Tasks -/

section

variable {env : Environment} {r : Ration env.limits} {m : Machine}

/-- Also leaving a task leads to a sound machine. -/
theorem Ledger.Sound.left {task : Task} {inner : Ledger task.Answer}
    (good : inner.Sound r m fun value after => task.Returns r after.scopes.size value)
    (sound : m.Sound r) (given : task.Sound r m.scopes.size) (since : Nat) :
    let outcome := inner.outcome.mapMachine task.leave
    Ledger.Sound r m (fun value after => task.Returns r after.scopes.size value)
      ⟨inner.events ++ [.left task outcome.error? outcome.machine], since, outcome⟩ := by
  intro outcome
  have finished := good.leads sound
  have leads : inner.outcome.machine.Leads r outcome.machine := by
    rw [Outcome.machine_mapMachine]
    exact finished.sound.leave task
  have returns (value : task.Answer) (last : Machine) (ended : outcome = .ok value last) :
      task.Returns r last.scopes.size value := by
    cases same : inner.outcome with
    | error error after => simp [outcome, same, Outcome.mapMachine] at ended
    | ok given after =>
        rw [ended, same] at leads
        simp only [outcome, same, Outcome.mapMachine] at ended
        cases ended
        exact (good.gives value after same).mono leads.grown
  have closed : (Ledger.single (.left task outcome.error? outcome.machine) outcome).Sound r
      inner.outcome.machine fun value after => task.Returns r after.scopes.size value :=
    .single (given.mono finished.grown) leads rfl returns
  exact good.goesOn rfl closed rfl returns

/-- By induction on how deep parts may be nested. -/
theorem Task.ledger_sound {rank : Nat} {under : List Task} {task : Task} (sound : m.Sound r)
    (given : task.Sound r m.scopes.size) (spared : (task.ledger rank under env m).Spared r) :
    (task.ledger rank under env m).Sound r m
      fun value after => task.Returns r after.scopes.size value := by
  induction rank generalizing under task m with
  | zero => exact .single trivial (.refl sound) rfl Ledger.no_value
  | succ rank ih =>
      rcases task.enter_cases env m with
        ⟨entered, grants, granted⟩ | ⟨error, after, refuses, refused⟩
      · have leads : m.Leads r entered := granted.machine ▸ sound.withCounters ..
        have begun := given.mono leads.grown
        have advanced : m.advance (.entered task under) = entered := granted.machine.symm
        simp only [ledger, grants] at spared ⊢
        have gives := Task.rule_gives leads.sound begun (spared _ (List.mem_cons_self ..))
        have answers : SoundAnswers r (ledger rank (task :: under)) :=
          fun _ _ sound given spared => ih sound given spared
        have runs := Rule.ledger_sound answers (task :: under) (rank + 1) leads.sound gives
          Task.Returns.mono
        generalize task.rule.ledger (ledger rank (task :: under)) (task :: under) (rank + 1)
          env entered = inner at spared runs ⊢
        have good := runs fun event member => spared event (by simp [member])
        have rest := good.left leads.sound begun (inner.since + 1)
        rw [← advanced] at rest leads
        exact .cons (.entered task under) given leads rest
      · simp only [ledger, refuses] at spared ⊢
        have leads : m.Leads r after := refused.machine ▸ sound.withCounters ..
        exact .single given leads rfl Ledger.no_value

/-- What runs from outside, and is safe, passes through sound machines only. -/
theorem Eval.history_sound {α : Type} {eval : Eval α} {expected : Nat → α → Prop}
    (gives : eval.Gives r expected m) (sound : m.Sound r) (spared : (eval.history env m).Spared r) :
    (eval.history env m).Sound r m fun value after => expected after.scopes.size value :=
  Eval.ledger_gives (fun _ _ sound given spared => Task.ledger_sound sound given spared)
    gives sound spared

end

end StrategyQubo.Script
