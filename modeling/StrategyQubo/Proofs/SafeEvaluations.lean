import StrategyQubo.Proofs.SoundOperations

namespace StrategyQubo.Script

/-! # Safe evaluations

A program is safe on a machine if every operation and every part gets what is
sound, whatever the parts before it have answered, as long as that is sound
too.  What a safe program gives is again a sound machine, with a value that is
as expected.
-/

variable {env : Environment} {r : Ration env.limits} {α β : Type}

def Eval.Safe (r : Ration env.limits) (post : α → Machine → Prop) : Eval α → Machine → Prop
  | .done value, m => post value m
  | .perform op next, m => (op.event env m).Spares r → op.Sound r m ∧
      ∀ answer after, op.run env m = .ok answer after → (next answer).Safe r post after
  | .ask task next, m => task.Sound r m.scopes.size ∧
      ∀ answer after, m.Leads r after → task.Returns r after.scopes.size answer →
        (next answer).Safe r post after

/-- What is expected of a value depends on how many scopes there are. -/
def Eval.Gives (r : Ration env.limits) (expected : Nat → α → Prop) (eval : Eval α)
    (m : Machine) : Prop :=
  eval.Safe r (fun value after => m.Leads r after ∧ expected after.scopes.size value) m

/-- Nothing is expected of the value. -/
abbrev Eval.Runs (r : Ration env.limits) (eval : Eval α) (m : Machine) : Prop :=
  eval.Gives r (fun _ _ => True) m

def Turn.Holds {σ : Type} (invariant : Nat → σ → Prop) (expected : Nat → α → Prop)
    (scopes : Nat) : Turn σ α → Prop
  | .again state => invariant scopes state
  | .finished value => expected scopes value

def Rule.Gives (r : Ration env.limits) (expected : Nat → α → Prop) (m : Machine) :
    Rule α → Prop
  | .once eval => eval.Gives r expected m
  | .repeated first turn => ∃ invariant, first.Gives r invariant m ∧
      ∀ state after, m.Leads r after → invariant after.scopes.size state →
        (turn state).Gives r (Turn.Holds invariant expected) after
  | .guarded body handler finalizer => body.Gives r expected m ∧
      (∀ clause ∈ handler, ∀ given after, m.Leads r after → given.Sound r after.scopes.size →
        (clause given).Gives r expected after) ∧
      ∀ last ∈ finalizer, ∀ after, m.Leads r after →
        last.Gives r (fun scopes value? => ∀ value ∈ value?, expected scopes value) after
  | .throwing value => value.Gives r (Value.Sound r) m

/-! ## Putting programs together -/

theorem Eval.Safe.mono {eval : Eval α} {post post' : α → Machine → Prop} {m : Machine}
    (safe : eval.Safe r post m) (weaker : ∀ value after, post value after → post' value after) :
    eval.Safe r post' m := by
  induction eval generalizing m with
  | done value => exact weaker value m safe
  | perform op next ih =>
      intro spared
      obtain ⟨given, later⟩ := safe spared
      exact ⟨given, fun answer after ran => ih answer (later answer after ran)⟩
  | ask task next ih =>
      exact ⟨safe.1, fun answer after leads returns =>
        ih answer (safe.2 answer after leads returns)⟩

theorem Eval.Safe.bind {first : Eval α} {next : α → Eval β} {post : α → Machine → Prop}
    {post' : β → Machine → Prop} {m : Machine} (safe : first.Safe r post m)
    (later : ∀ value after, post value after → (next value).Safe r post' after) :
    (first >>= next).Safe r post' m := by
  induction first generalizing m with
  | done value => exact later value m safe
  | perform op rest ih =>
      intro spared
      obtain ⟨given, after⟩ := safe spared
      exact ⟨given, fun answer m ran => ih answer (after answer m ran)⟩
  | ask task rest ih =>
      exact ⟨safe.1, fun answer after leads returns =>
        ih answer (safe.2 answer after leads returns)⟩

namespace Eval

variable {expected : Nat → α → Prop} {expected' : Nat → β → Prop} {m : Machine}

theorem Gives.pure (sound : m.Sound r) {value : α} (good : expected m.scopes.size value) :
    (pure value : Eval α).Gives r expected m :=
  ⟨.refl sound, good⟩

theorem Gives.bind {first : Eval α} {next : α → Eval β} (gives : first.Gives r expected m)
    (later : ∀ value after, m.Leads r after → expected after.scopes.size value →
      (next value).Gives r expected' after) : (first >>= next).Gives r expected' m := by
  refine Safe.bind gives fun value after ⟨leads, good⟩ => ?_
  exact (later value after leads good).mono fun _ _ ⟨further, good'⟩ => ⟨leads.trans further, good'⟩

theorem Gives.mono {eval : Eval α} {weaker : Nat → α → Prop} (gives : eval.Gives r expected m)
    (implies : ∀ scopes value, expected scopes value → weaker scopes value) :
    eval.Gives r weaker m :=
  Safe.mono gives fun value _ ⟨leads, good⟩ => ⟨leads, implies _ value good⟩

theorem Gives.runs {eval : Eval α} (gives : eval.Gives r expected m) : eval.Runs r m :=
  gives.mono fun _ _ _ => trivial

/-! ### Parts -/

theorem evaluate_gives {expression : Expr} {scope : ScopeId} (made : scope < m.scopes.size)
    (spelled : expression.Spelled r.spelling) :
    (evaluate expression scope).Gives r (Value.Sound r) m :=
  ⟨⟨made, spelled⟩, fun _ _ leads returns => ⟨leads, returns⟩⟩

theorem execute_gives {statement : Stmt} {scope : ScopeId} (made : scope < m.scopes.size)
    (spelled : statement.Spelled r.spelling) :
    (execute statement scope).Gives r (Flow.Sound r) m :=
  ⟨⟨made, spelled⟩, fun _ _ leads returns => ⟨leads, returns⟩⟩

theorem call_gives {function : Value} (arguments : List Value)
    (callable : function.Sound r m.scopes.size)
    (sound : ∀ argument ∈ arguments, argument.Sound r m.scopes.size) :
    (call function arguments).Gives r (Value.Sound r) m :=
  ⟨⟨callable, sound⟩, fun _ _ leads returns => ⟨leads, returns⟩⟩

/-! ### Operations -/

/-- An operation need not be given what is sound if its event is not spared. -/
theorem operate_gives (sound : m.Sound r) (op : Operation)
    (given : (op.event env m).Spares r → op.Sound r m) :
    (operate op).Gives r (op.Returns r) m := by
  intro spared
  refine ⟨given spared, fun answer after ran => ?_⟩
  have leads := Operation.run_sound sound op (given spared) spared
  rw [ran] at leads
  exact ⟨leads, Operation.run_returns sound op (given spared) ran⟩

theorem typeError_gives (fault : TypeFault) : (typeError fault : Eval α).Gives r expected m :=
  fun _ => ⟨trivial, fun never => never.elim⟩

/-- Reading the heap changes nothing. -/
theorem Gives.heap {next : Heap → Eval α} (later : (next m.heap).Gives r expected m) :
    (Eval.heap >>= next).Gives r expected m := by
  refine fun _ => ⟨trivial, fun h after ran => ?_⟩
  cases ran
  exact later

theorem Gives.checkLength {requested : Nat} {next : Unit → Eval α}
    (later : r.allows requested → (next ()).Gives r expected m) :
    (Eval.checkLength requested >>= next).Gives r expected m := by
  refine fun _ => ⟨trivial, fun _ after ran => ?_⟩
  have same : after = m := by
    simp only [Operation.run, Action.checkLength] at ran
    split at ran <;> cases ran
    rfl
  subst same
  exact later (Action.checkLength_allows ran)

theorem Gives.stringify (sound : m.Sound r) (value : Value)
    (given : value.Sound r m.scopes.size) {next : String → Eval α}
    (later : ∀ text, r.Text text → (next text).Gives r expected m) :
    (Eval.stringify value >>= next).Gives r expected m := by
  refine fun _ => ⟨given, fun text after ran => ?_⟩
  have same : after = m := by
    simp only [Operation.run, Action.stringify] at ran
    split at ran <;> cases ran
    rfl
  subst same
  exact later text (Operation.run_returns sound (.stringify value) given ran)

/-! ### Properties and conversions -/

theorem getProperty_gives (sound : m.Sound r) {target : Value}
    (given : target.Sound r m.scopes.size) (key : String) :
    (getProperty target key).Gives r (Value.Sound r) m := by
  refine Gives.heap ?_
  split
  · next value read => exact .pure sound (sound.heap.property given read)
  · next method read =>
    exact operate_gives sound (.newBound method) fun _ => sound.heap.property given read
  · exact typeError_gives _

theorem propertyKey_runs (sound : m.Sound r) (value : Value) : (propertyKey value).Runs r m :=
  Gives.heap (.pure sound trivial)

theorem toNumber_runs (sound : m.Sound r) (value : Value) : (toNumber value).Runs r m :=
  Gives.heap (.pure sound trivial)

theorem display_runs (sound : m.Sound r) (value : Value) : (display value).Runs r m :=
  Gives.heap (.pure sound trivial)

/-! ### Hoisting -/

theorem declareFunctions_runs (sound : m.Sound r) {scope : ScopeId} (made : scope < m.scopes.size)
    {functions : List (String × FunctionDef)}
    (spelled : ∀ entry ∈ functions, entry.2.Spelled r.spelling) :
    (declareFunctions scope functions).Runs r m := by
  induction functions generalizing m with
  | nil => exact .pure sound trivial
  | cons entry rest ih =>
      obtain ⟨first, spelled⟩ := List.forall_mem_cons.mp spelled
      have closure := operate_gives sound (.newClosure entry.2 scope) fun _ => ⟨made, first⟩
      refine closure.bind fun value after leads valueSound => ?_
      have made' := leads.stays made
      have bound := operate_gives leads.sound (.declare scope entry.1 value true)
        fun _ => ⟨made', valueSound⟩
      exact bound.bind fun _ last further _ =>
        ih further.sound (further.stays made') spelled

theorem hoistFunctions_runs (sound : m.Sound r) {scope : ScopeId} (made : scope < m.scopes.size)
    {statements : List Stmt} (spelled : ∀ statement ∈ statements, statement.Spelled r.spelling) :
    (hoistFunctions statements scope).Runs r m :=
  declareFunctions_runs sound made (Stmt.functionsOf_spelled spelled)

theorem hoist_runs (sound : m.Sound r) {scope : ScopeId} (made : scope < m.scopes.size)
    {statements : List Stmt} (spelled : ∀ statement ∈ statements, statement.Spelled r.spelling) :
    (hoist statements scope).Runs r m := by
  refine (operate_gives sound (.declareMissing scope _) fun _ => made).bind ?_
  intro _ after leads _
  exact hoistFunctions_runs leads.sound (leads.stays made) spelled

end Eval

end StrategyQubo.Script
