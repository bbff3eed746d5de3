import StrategyQubo.Proofs.Course
import StrategyQubo.Proofs.SoundOperations

namespace StrategyQubo.Script

/-! # Gained names

Scopes never lose a name.  A scope that there is gains one by a declaration, and
the global scope by an assignment to a name that nobody has declared.
-/

/-! ## Scopes -/

namespace Scope

theorem mem_names_of_findIn {bindings : List (String × Binding)} {name : String} :
    (findIn bindings name).isSome = true ↔ name ∈ bindings.map (·.1) := by
  induction bindings with
  | nil => simp [findIn]
  | cons first rest ih =>
      unfold findIn
      split
      · next same => simp [← same]
      · next other => simp [ih, Ne.symm other]

theorem binds_iff (s : Scope) (name : String) : s.binds name = true ↔ name ∈ s.names :=
  mem_names_of_findIn

theorem map_bindIn (bindings : List (String × Binding)) (name : String) (binding : Binding) :
    (bindIn bindings name binding).map (·.1) =
      bindings.map (·.1) ++ if name ∈ bindings.map (·.1) then [] else [name] := by
  induction bindings with
  | nil => simp [bindIn]
  | cons first rest ih =>
      unfold bindIn
      split
      · next same => simp [← same]
      · next other =>
        simp only [List.map_cons, ih, List.cons_append, List.mem_cons, Ne.symm other, false_or]

/-- A name that is bound already keeps its place. -/
theorem names_bind (s : Scope) (name : String) (binding : Binding) :
    (s.bind name binding).names = s.names ++ if name ∈ s.names then [] else [name] :=
  map_bindIn s.bindings name binding

end Scope

/-! ## Machines -/

/-- Every scope there was has the names it had, and behind them only names that
    it may gain. -/
structure Machine.Gains (may : ScopeId → String → Prop) (m after : Machine) : Prop where
  later : m.Later after
  names : ∀ scope < m.scopes.size, ∃ gained,
    (after.scopeAt scope).names = (m.scopeAt scope).names ++ gained ∧
      ∀ name ∈ gained, may scope name

namespace Machine

variable {may wider : ScopeId → String → Prop} {m after last : Machine}

theorem Gains.of_scopes (same : after.scopes = m.scopes) : m.Gains may after where
  later := .of_frames (by rw [frames, same, frames])
  names scope _ := ⟨[], by simp [scopeAt, same], List.forall_mem_nil _⟩

theorem Gains.refl (m : Machine) : m.Gains may m :=
  .of_scopes rfl

theorem Gains.grown (gains : m.Gains may after) : m.scopes.size ≤ after.scopes.size :=
  gains.later.size_le

theorem Gains.trans (first : m.Gains may after) (second : after.Gains may last) :
    m.Gains may last where
  later := first.later.trans second.later
  names scope made := by
    obtain ⟨one, names, allowed⟩ := first.names scope made
    obtain ⟨other, names', allowed'⟩ := second.names scope (Nat.lt_of_lt_of_le made first.grown)
    refine ⟨one ++ other, ?_, List.forall_mem_append.mpr ⟨allowed, allowed'⟩⟩
    rw [names', names, List.append_assoc]

theorem Gains.mono (gains : m.Gains may after) (weaker : ∀ scope name, may scope name → wider scope name) :
    m.Gains wider after where
  later := gains.later
  names scope made := by
    obtain ⟨gained, names, allowed⟩ := gains.names scope made
    exact ⟨gained, names, fun name member => weaker scope name (allowed name member)⟩

theorem scopeAt_declare (m : Machine) (target scope : ScopeId) (name : String) (value : Value)
    (isMutable : Bool) : (m.declare target name value isMutable).scopeAt scope =
      if scope = target ∧ scope < m.scopes.size then
        (m.scopeAt scope).bind name ⟨value, isMutable⟩
      else
        m.scopeAt scope := by
  simp only [scopeAt, declare, modifyScope, Array.getD_eq_getD_getElem?, Array.getElem?_modify]
  by_cases same : target = scope
  · subst same
    by_cases made : target < m.scopes.size
    · simp [made]
    · simp [made]
  · simp [same, Ne.symm same]

theorem gains_declare (m : Machine) {target : ScopeId} {name : String} (value : Value)
    (isMutable : Bool) (allowed : name ∉ (m.scopeAt target).names → may target name) :
    m.Gains may (m.declare target name value isMutable) where
  later := .of_frames (frames_declare ..)
  names scope made := by
    rw [scopeAt_declare]
    split
    · next here =>
      obtain ⟨rfl, -⟩ := here
      refine ⟨_, Scope.names_bind .., ?_⟩
      split
      · exact List.forall_mem_nil _
      · next missing => exact List.forall_mem_singleton.mpr (allowed missing)
    · exact ⟨[], by simp, List.forall_mem_nil _⟩

theorem gains_declareAllMissing (m : Machine) {scope : ScopeId} {names : List String}
    (allowed : ∀ name ∈ names, may (m.functionScopeOf scope) name) :
    m.Gains may (m.declareAllMissing scope names) := by
  simp only [declareAllMissing]
  generalize m.functionScopeOf scope = target at allowed
  induction names generalizing m with
  | nil => exact .refl m
  | cons name rest ih =>
      obtain ⟨first, others⟩ := List.forall_mem_cons.mp allowed
      have one : m.Gains may (m.declareMissing target name) := by
        unfold declareMissing
        split
        · exact .refl m
        · exact m.gains_declare .undefined true fun _ => first
      exact one.trans (ih _ others)

theorem gains_newScope (m : Machine) (parent : ScopeId) (isFunction : Bool) :
    m.Gains may { m with scopes := m.scopes.push (.fresh (some parent) isFunction) } where
  later := ⟨[.fresh (some parent) isFunction], by simp [frames, Scope.frame, Scope.fresh]⟩
  names scope made := by
    refine ⟨[], ?_, List.forall_mem_nil _⟩
    simp [scopeAt, Array.getD_eq_getD_getElem?, Array.getElem?_push_lt, made]

end Machine

/-! ## Operations -/

variable {env : Environment} {own : ScopeId → String → Prop} {base : ScopeId}

/-- Whatever is declared may be declared where that is. -/
def Operation.Confined (own : ScopeId → String → Prop) (m : Machine) : Operation → Prop
  | .declare scope name _ _ => own scope name
  | .declareMissing scope names => ∀ name ∈ names, own (m.functionScopeOf scope) name
  | _ => True

def Event.assigned? : Event → Option String
  | .performed (.assign _ name _) none _ => some name
  | _ => none

/-- The names that something is assigned to, whoever binds them. -/
def assignedIn (events : List Event) : List String :=
  events.filterMap Event.assigned?

/-- What scopes may gain while something happens. -/
def MayGain (own : ScopeId → String → Prop) (events : List Event) (scope : ScopeId)
    (name : String) : Prop :=
  own scope name ∨ scope = globalScope ∧ name ∈ assignedIn events

theorem MayGain.mono {events more : List Event} (part : events ⊆ more) {scope : ScopeId}
    {name : String} (may : MayGain own events scope name) : MayGain own more scope name := by
  rcases may with owned | ⟨global, assigned⟩
  · exact .inl owned
  · exact .inr ⟨global, (List.filterMap_subset Event.assigned? part) assigned⟩

theorem Operation.run_gains {op : Operation} {m : Machine} (confined : op.Confined own m) :
    m.Gains (MayGain own [.performed op (op.run env m).error? (op.run env m).machine])
      (op.run env m).machine := by
  cases op with
  | newScope parent isFunction => exact m.gains_newScope parent isFunction
  | declare scope name value isMutable =>
      exact m.gains_declare value isMutable fun _ => .inl confined
  | declareMissing scope names =>
      exact m.gains_declareAllMissing fun name member => .inl (confined name member)
  | assign scope name value =>
      simp only [run, Action.assign]
      split
      · next binding found =>
        split
        · refine m.gains_declare value true fun missing => absurd ?_ missing
          exact (Scope.binds_iff _ name).mp (by rw [Scope.binds, found]; rfl)
        · exact .refl m
      · exact m.gains_declare value true fun _ =>
          .inr ⟨rfl, List.mem_singleton.mpr rfl⟩
  | tick =>
      refine .of_scopes ?_
      simp only [run, Action.tick]
      split
      · rfl
      · split <;> rfl
  | checkLength requested =>
      simp only [run, Action.checkLength]
      split <;> exact .refl m
  | stringify value =>
      simp only [run, Action.stringify]
      split <;> exact .refl m
  | setProperty target key value =>
      refine .of_scopes ?_
      simp only [run, Action.setProperty]
      split <;> rfl
  | lookup scope name =>
      simp only [run, Action.lookup]
      split <;> exact .refl m
  | _ => exact .of_scopes rfl

/-! ## Programs -/

variable {tasks : Task → Prop} {α β : Type}

/-- Every operation is confined and every part is one of the tasks, whatever the
    parts before it have done. -/
def Eval.Confined (env : Environment) (own : ScopeId → String → Prop) (tasks : Task → Prop)
    (post : α → Machine → Prop) : Eval α → Machine → Prop
  | .done value, m => post value m
  | .perform op next, m => op.Confined own m ∧
      ∀ answer after, op.run env m = .ok answer after → (next answer).Confined env own tasks post after
  | .ask task next, m => tasks task ∧
      ∀ answer after, m.Later after → (next answer).Confined env own tasks post after

/-- So it is on all machines that have the scopes up to `base`. -/
def Eval.Confines (env : Environment) (own : ScopeId → String → Prop) (base : ScopeId)
    (tasks : Task → Prop) (expected : α → Prop) (eval : Eval α) : Prop :=
  ∀ m, base ≤ m.scopes.size →
    eval.Confined env own tasks (fun value after => m.Later after ∧ expected value) m

/-- A state from which a loop goes on is as expected. -/
def Turn.Again {σ : Type} (expected : σ → Prop) : Turn σ α → Prop
  | .again state => expected state
  | .finished _ => True

def Rule.Confines (env : Environment) (own : ScopeId → String → Prop) (base : ScopeId)
    (tasks : Task → Prop) : Rule α → Prop
  | .once eval => eval.Confines env own base tasks fun _ => True
  | .repeated first turn => ∃ invariant, first.Confines env own base tasks invariant ∧
      ∀ state, invariant state → (turn state).Confines env own base tasks (Turn.Again invariant)
  | .guarded body handler finalizer => body.Confines env own base tasks (fun _ => True) ∧
      (∀ clause ∈ handler, ∀ given, (clause given).Confines env own base tasks fun _ => True) ∧
        ∀ last ∈ finalizer, last.Confines env own base tasks fun _ => True
  | .throwing value => value.Confines env own base tasks fun _ => True

namespace Eval

variable {expected : α → Prop} {expected' : β → Prop}

theorem Confined.mono {eval : Eval α} {post post' : α → Machine → Prop} {m : Machine}
    (confined : eval.Confined env own tasks post m)
    (weaker : ∀ value after, post value after → post' value after) :
    eval.Confined env own tasks post' m := by
  induction eval generalizing m with
  | done value => exact weaker value m confined
  | perform op next ih => exact ⟨confined.1, fun answer after ran => ih _ (confined.2 answer after ran)⟩
  | ask task next ih =>
      exact ⟨confined.1, fun answer after later => ih _ (confined.2 answer after later)⟩

theorem Confined.bind {first : Eval α} {next : α → Eval β} {post : α → Machine → Prop}
    {post' : β → Machine → Prop} {m : Machine} (confined : first.Confined env own tasks post m)
    (later : ∀ value after, post value after → (next value).Confined env own tasks post' after) :
    (first >>= next).Confined env own tasks post' m := by
  induction first generalizing m with
  | done value => exact later value m confined
  | perform op rest ih => exact ⟨confined.1, fun answer after ran => ih _ (confined.2 answer after ran)⟩
  | ask task rest ih =>
      exact ⟨confined.1, fun answer after later => ih _ (confined.2 answer after later)⟩

theorem Confines.pure {value : α} (good : expected value) :
    (pure value : Eval α).Confines env own base tasks expected :=
  fun m _ => ⟨.refl m, good⟩

theorem Confines.bind {first : Eval α} {next : α → Eval β}
    (confines : first.Confines env own base tasks expected)
    (later : ∀ value, expected value → (next value).Confines env own base tasks expected') :
    (first >>= next).Confines env own base tasks expected' := by
  intro m room
  refine Confined.bind (confines m room) fun value after reached => ?_
  have grown := Nat.le_trans room reached.1.size_le
  exact (later value reached.2 after grown).mono fun _ _ ended => ⟨reached.1.trans ended.1, ended.2⟩

/-- What comes first answers anything. -/
theorem Confines.behind {first : Eval α} {next : α → Eval β}
    (confines : first.Confines env own base tasks fun _ => True)
    (later : ∀ value, (next value).Confines env own base tasks expected') :
    (first >>= next).Confines env own base tasks expected' :=
  confines.bind fun value _ => later value

theorem Confines.mono {eval : Eval α} {weaker : α → Prop}
    (confines : eval.Confines env own base tasks expected)
    (implies : ∀ value, expected value → weaker value) :
    eval.Confines env own base tasks weaker :=
  fun m room => (confines m room).mono fun value _ ended => ⟨ended.1, implies value ended.2⟩

theorem ask_confines {task : Task} (among : tasks task) :
    (Eval.ask task .done).Confines env own base tasks fun _ => True :=
  fun _ _ => ⟨among, fun _ _ later => ⟨later, trivial⟩⟩

theorem operate_confined {op : Operation} {m : Machine} (confined : op.Confined own m) :
    (operate op).Confined env own tasks (fun _ after => m.Later after) m := by
  refine ⟨confined, fun answer after ran => ?_⟩
  have later : m.Later (op.run env m).machine := (Operation.run_gains confined).later
  rwa [ran] at later

theorem operate_confines (op : Operation) (confined : ∀ m, op.Confined own m) :
    (operate op).Confines env own base tasks fun _ => True :=
  fun m _ => (operate_confined (confined m)).mono fun _ _ later => ⟨later, trivial⟩

/-- A scope that is made is none of those that there were. -/
theorem newScope_confines (parent : ScopeId) (isFunction : Bool) :
    (newScope parent isFunction).Confines env own base tasks (base ≤ ·) := by
  refine fun m room => ⟨trivial, fun scope after ran => ?_⟩
  cases ran
  have gains : m.Gains own _ := m.gains_newScope parent isFunction
  exact ⟨gains.later, room⟩

theorem declare_confines {scope : ScopeId} {name : String} (allowed : own scope name)
    (value : Value) (isMutable : Bool) :
    (declare scope name value isMutable).Confines env own base tasks fun _ => True :=
  operate_confines _ fun _ => allowed

theorem Quiet.confines {eval : Eval α} (quiet : eval.Quiet tasks) :
    eval.Confines env own base tasks fun _ => True := by
  induction eval with
  | done value => exact .pure trivial
  | perform op next ih =>
      have confined (m : Machine) : op.Confined own m := by
        cases op with
        | declare scope name value isMutable => exact nomatch quiet.1
        | declareMissing scope names => exact nomatch quiet.1
        | _ => trivial
      exact (operate_confines op confined).behind fun answer => ih answer (quiet.2 answer)
  | ask task next ih => exact (ask_confines quiet.1).behind fun answer => ih answer (quiet.2 answer)

end Eval

theorem Rule.Quiet.confines {rule : Rule α} (quiet : rule.Quiet tasks) :
    rule.Confines env own base tasks := by
  have free {β : Type} {eval : Eval β} (quiet : eval.Quiet tasks) :
      eval.Confines env own base tasks fun _ => True := Eval.Quiet.confines quiet
  cases rule with
  | once eval => exact free quiet
  | repeated first turn =>
      refine ⟨fun _ => True, free quiet.1, fun state _ => (free (quiet.2 state)).mono ?_⟩
      intro reached _
      cases reached <;> trivial
  | guarded body handler finalizer =>
      exact ⟨free quiet.1, fun clause given value => free (quiet.2.1 clause given value),
        fun last given => free (quiet.2.2 last given)⟩
  | throwing value => exact free quiet

/-! ## Ledgers -/

/-- What scopes gain while a ledger is kept. -/
def Ledger.Gains (own : ScopeId → String → Prop) (m : Machine) (ledger : Ledger α) : Prop :=
  m.Gains (MayGain own ledger.events) ledger.outcome.machine

namespace Ledger

variable {m : Machine}

theorem Gains.andThen {first : Ledger α} {next : α → Machine → Ledger β}
    (begun : first.Gains own m)
    (later : ∀ value after, first.outcome = .ok value after → (next value after).Gains own after) :
    (first.andThen next).Gains own m := by
  unfold Gains Ledger.andThen
  cases ended : first.outcome with
  | error error after => simpa [Gains, ended] using begun
  | ok value after =>
      have one : m.Gains (MayGain own first.events) after := by simpa [Gains, ended] using begun
      have other := later value after ended
      exact (one.mono fun _ _ => .mono (List.subset_append_left _ _)).trans
        (other.mono fun _ _ => .mono (List.subset_append_right _ _))

/-- It does not matter how the outcome came about. -/
theorem Gains.of_machine {ledger : Ledger α} {other : Ledger β} (gains : ledger.Gains own m)
    (part : ledger.events ⊆ other.events)
    (same : other.outcome.machine.scopes = ledger.outcome.machine.scopes) : other.Gains own m := by
  have kept : m.Gains (MayGain own other.events) ledger.outcome.machine :=
    gains.mono fun _ _ => .mono part
  exact kept.trans (.of_scopes same)

end Ledger

section

variable {answer : (task : Task) → Environment → Machine → Ledger task.Answer}
  (answers : ∀ task m, tasks task → base ≤ m.scopes.size → (answer task env m).Gains own m)

include answers

theorem Eval.ledger_gains {eval : Eval α} {post : α → Machine → Prop} {m : Machine}
    (confined : eval.Confined env own tasks post m) (room : base ≤ m.scopes.size) :
    (eval.ledger answer env m).Gains own m ∧
    ∀ value after, (eval.ledger answer env m).outcome = .ok value after → post value after := by
  induction eval generalizing m with
  | done value =>
      refine ⟨.refl m, fun value after ended => ?_⟩
      cases ended
      exact confined
  | perform op next ih =>
      have gains : (Ledger.single (.performed op (op.run env m).error? (op.run env m).machine)
        (op.run env m)).Gains own m := Operation.run_gains confined.1
      have goesOn (value : op.Answer) (after : Machine) (ran : op.run env m = .ok value after) :=
        ih value (confined.2 value after ran) (m := after) (by
          have grown := Machine.Gains.grown gains
          simp only [Ledger.single, ran, Outcome.machine_ok] at grown
          exact Nat.le_trans room grown)
      refine ⟨gains.andThen fun value after ran => (goesOn value after ran).1, ?_⟩
      intro value after ended
      simp only [ledger, Ledger.andThen_outcome, Ledger.single] at ended
      obtain ⟨answered, between, ran, ended⟩ := Outcome.exists_of_andThen_eq_ok ended
      exact (goesOn answered between ran).2 value after ended
  | ask task next ih =>
      have gains := answers task m confined.1 room
      have goesOn (value : task.Answer) (after : Machine)
          (ran : (answer task env m).outcome = .ok value after) := by
        have later : m.Later after := by simpa [ran] using gains.later
        exact ih value (confined.2 value after later) (m := after) (Nat.le_trans room later.size_le)
      refine ⟨gains.andThen fun value after ran => (goesOn value after ran).1, ?_⟩
      intro value after ended
      simp only [ledger, Ledger.andThen_outcome] at ended
      obtain ⟨answered, between, ran, ended⟩ := Outcome.exists_of_andThen_eq_ok ended
      exact (goesOn answered between ran).2 value after ended

omit answers in
theorem Ledger.repeated_gains {σ : Type} {invariant : σ → Prop}
    {turn : σ → Environment → Machine → Ledger (Turn σ α)}
    (turns : ∀ state m, invariant state → base ≤ m.scopes.size →
      (turn state env m).Gains own m ∧
        ∀ reached after, (turn state env m).outcome = .ok reached after →
          reached.Again invariant)
    (bound : Nat) {state : σ} {m : Machine} (begins : invariant state)
    (room : base ≤ m.scopes.size) : (repeated turn bound state env m).Gains own m := by
  induction bound generalizing state m with
  | zero => exact .refl m
  | succ bound ih =>
      obtain ⟨gains, again⟩ := turns state m begins room
      refine gains.andThen fun reached after ended => ?_
      cases reached with
      | finished value => exact .refl after
      | again state =>
          have grown : m.scopes.size ≤ after.scopes.size := by
            simpa [ended] using Machine.Gains.grown gains
          exact ih (again _ _ ended) (Nat.le_trans room grown)

theorem Ledger.handled_gains (under : List Task) {body : Ledger α} {m : Machine}
    (gains : body.Gains own m) (room : base ≤ m.scopes.size) {handler : Option (Value → Eval α)}
    (clauses : ∀ clause ∈ handler, ∀ given,
      (clause given).Confines env own base tasks fun _ => True) :
    (body.handled answer under handler env).Gains own m := by
  unfold Ledger.handled
  split
  · next error after clause ended =>
    split
    · have one : m.Gains (MayGain own body.events) after := by simpa [Gains, ended] using gains
      obtain ⟨heap, thrown, frame⟩ := after.catching_frame error
      have reached : base ≤ (after.catching error).2.scopes.size := by
        rw [frame]
        exact Nat.le_trans room one.grown
      have other := (Eval.ledger_gains answers
        (clauses clause rfl (after.catching error).1 _ reached) reached).1
      refine (one.mono fun _ _ => .mono (List.subset_append_left _ _)).trans ?_
      refine Machine.Gains.trans (.of_scopes (by rw [frame])) (other.mono fun _ _ => .mono ?_)
      exact List.subset_append_of_subset_right _ (List.subset_cons_self _ _)
    · exact gains
  · exact gains

theorem Ledger.finalized_gains {before : Ledger α} {m : Machine} (gains : before.Gains own m)
    (room : base ≤ m.scopes.size) {finalizer : Option (Eval (Option α))}
    (lasts : ∀ last ∈ finalizer, last.Confines env own base tasks fun _ => True) :
    (before.finalized answer finalizer env).Gains own m := by
  cases finalizer with
  | none => rwa [finalized_none]
  | some last =>
      have final (after : Machine) (grown : m.scopes.size ≤ after.scopes.size) :
          (last.ledger answer env after).Gains own after := by
        have reached := Nat.le_trans room grown
        exact (Eval.ledger_gains answers (lasts last rfl after reached) reached).1
      obtain ⟨events, since, outcome⟩ := before
      cases outcome with
      | ok value after =>
          refine gains.andThen fun _ between ended => ?_
          cases ended
          exact (final after gains.grown).andThen fun _ _ _ => .refl _
      | error error after =>
          cases catchable : error.isCatchable with
          | false => simpa [finalized, catchable] using gains
          | true =>
              obtain ⟨later, same⟩ :=
                finalized_caught answer env after events since catchable last
              rw [same]
              have other := final after gains.grown
              refine Machine.Gains.trans (gains.mono fun _ _ => .mono (List.subset_append_left _ _)) ?_
              refine Machine.Gains.trans
                (other.mono fun _ _ => .mono (List.subset_append_right _ _)) (.of_scopes ?_)
              rcases (last.ledger answer env after).outcome with ⟨_ | found, _⟩ | ⟨_, _⟩ <;> rfl

theorem Rule.ledger_gains (under : List Task) (turns : Nat) {rule : Rule α}
    (confines : rule.Confines env own base tasks) {m : Machine} (room : base ≤ m.scopes.size) :
    (rule.ledger answer under turns env m).Gains own m := by
  cases rule with
  | once eval => exact (Eval.ledger_gains answers (confines m room) room).1
  | repeated first turn =>
      obtain ⟨invariant, starts, goesOn⟩ := confines
      obtain ⟨gains, begun⟩ := Eval.ledger_gains answers (starts m room) room
      refine gains.andThen fun state after ended => ?_
      obtain ⟨later, begins⟩ := begun state after ended
      refine Ledger.repeated_gains (fun state m begins room => ?_) turns begins
        (Nat.le_trans room later.size_le)
      obtain ⟨gains, reached⟩ := Eval.ledger_gains answers (goesOn state begins m room) room
      exact ⟨gains, fun turned after ended => (reached turned after ended).2⟩
  | guarded body handler finalizer =>
      have gains := (Eval.ledger_gains answers (confines.1 m room) room).1
      exact Ledger.finalized_gains answers
        (Ledger.handled_gains answers under gains room confines.2.1) room confines.2.2
  | throwing value =>
      refine (Eval.ledger_gains answers (confines m room) room).1.andThen fun _ _ _ => ?_
      exact .of_scopes rfl

end

/-- Where the rules of the tasks are confined, so is what they come to. -/
theorem Task.ledger_gains (confines : ∀ task, tasks task → task.rule.Confines env own base tasks)
    (rank : Nat) (under : List Task) {task : Task} (among : tasks task) {m : Machine}
    (room : base ≤ m.scopes.size) : (task.ledger rank under env m).Gains own m := by
  induction rank generalizing under task m with
  | zero => exact .refl m
  | succ rank ih =>
      have answers (part : Task) (m : Machine) (among : tasks part) (room : base ≤ m.scopes.size) :=
        ih (task :: under) among room
      simp only [ledger]
      rcases task.enter_cases env m with ⟨after, entered, granted⟩ | ⟨error, after, refused, failed⟩
      · have same : after.scopes = m.scopes := by rw [granted.machine]
        rw [entered]
        have inner := Rule.ledger_gains answers (task :: under) (rank + 1) (confines task among)
          (show base ≤ after.scopes.size by rwa [same])
        refine Machine.Gains.trans (.of_scopes same) (inner.of_machine ?_ ?_)
        · exact List.subset_append_of_subset_left _ (List.subset_cons_self _ _)
        · rw [Outcome.machine_mapMachine, task.leave_eq]
      · rw [refused]
        exact .of_scopes (by
          change after.scopes = m.scopes
          rw [failed.machine])

end StrategyQubo.Script
