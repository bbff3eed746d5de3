import StrategyQubo.Proofs.FinalErrors

namespace StrategyQubo.Script

/-! # Active calls

How many calls are active at once.  The call depth bounds the calls of script
functions, and with them all calls except relays: calls that a function of the
host makes of another function of the host.
-/

/-- Whether some task is asked for by the first of those under it, and both are
    calls of functions of the host. -/
def Task.isRelay (task : Task) (under : List Task) : Bool :=
  task.isHostCall && under.head?.any Task.isHostCall

/-- The calls of functions of the host, among tasks under way, that functions of
    the host make. -/
def relays : List Task → Nat
  | [] => 0
  | task :: under => (task.isRelay under).toNat + relays under

/-- The other calls. -/
def directCalls : List Task → Nat
  | [] => 0
  | task :: under => (task.isCall && !task.isRelay under).toNat + directCalls under

/-- The calls among tasks under way, innermost first. -/
def activeCalls (chain : List Task) : Nat :=
  chain.countP Task.isCall

def closureCalls (chain : List Task) : Nat :=
  chain.countP Task.isClosureCall

def hostCalls (chain : List Task) : Nat :=
  chain.countP Task.isHostCall

/-- Each task may be asked for by the one under it. -/
def Asked : List Task → Prop
  | [] => True
  | task :: under => (∀ parent ∈ under.head?, parent.MayAsk task) ∧ Asked under

theorem Task.isCall_toNat (task : Task) :
    task.isCall.toNat = task.isHostCall.toNat + task.isClosureCall.toNat := by
  cases task with
  | call function arguments => cases function <;> rfl
  | _ => rfl

theorem Task.isCall_toNat_relay (task : Task) (under : List Task) :
    task.isCall.toNat =
      (task.isCall && !task.isRelay under).toNat + (task.isRelay under).toNat := by
  cases relay : task.isRelay under with
  | false => simp
  | true =>
      have called : task.isCall = true := by
        simp only [isRelay, isHostCall, Bool.and_eq_true] at relay
        exact relay.1.1
      simp [called]

section

variable (task : Task) (under : List Task)

theorem countP_cons_toNat (p : Task → Bool) :
    (task :: under).countP p = under.countP p + (p task).toNat := by
  rw [List.countP_cons]
  cases p task <;> rfl

theorem activeCalls_cons : activeCalls (task :: under) = activeCalls under + task.isCall.toNat :=
  countP_cons_toNat task under Task.isCall

theorem closureCalls_cons :
    closureCalls (task :: under) = closureCalls under + task.isClosureCall.toNat :=
  countP_cons_toNat task under Task.isClosureCall

theorem hostCalls_cons : hostCalls (task :: under) = hostCalls under + task.isHostCall.toNat :=
  countP_cons_toNat task under Task.isHostCall

end

theorem activeCalls_eq_hostCalls (chain : List Task) :
    activeCalls chain = hostCalls chain + closureCalls chain := by
  induction chain with
  | nil => rfl
  | cons task under ih =>
      rw [activeCalls_cons, hostCalls_cons, closureCalls_cons, task.isCall_toNat]
      omega

theorem activeCalls_eq_directCalls (chain : List Task) :
    activeCalls chain = directCalls chain + relays chain := by
  induction chain with
  | nil => rfl
  | cons task under ih =>
      have split := task.isCall_toNat_relay under
      rw [activeCalls_cons, directCalls, relays, split]
      omega

/-- A call of a function of the host is the innermost one, or it asks for a call
    of a script function, or for a relay. -/
theorem hostCalls_le (chain : List Task) (asked : Asked chain) :
    hostCalls chain ≤
      closureCalls chain + relays chain + (chain.head?.any Task.isHostCall).toNat := by
  induction chain with
  | nil => exact Nat.le_refl _
  | cons task under ih =>
      have bound := ih asked.2
      rw [hostCalls_cons, closureCalls_cons, relays, List.head?_cons, Option.any_some]
      cases host : under.head?.any Task.isHostCall with
      | false =>
          rw [host, Bool.toNat_false] at bound
          omega
      | true =>
          -- The host call below is made up for by this call, which it has asked for.
          obtain ⟨parent, first, parentHost⟩ := (Option.any_eq_true _ _).mp host
          have called := asked.1 parent first parentHost
          have counted := task.isCall_toNat
          have relayed : task.isRelay under = task.isHostCall := by simp [Task.isRelay, host]
          rw [host, Bool.toNat_true] at bound
          rw [called, Bool.toNat_true] at counted
          rw [relayed]
          omega

theorem directCalls_le {chain : List Task} (asked : Asked chain) {depth : Nat}
    (within : closureCalls chain + (chain.head?.any Task.isHostCall).toNat ≤ depth + 1) :
    directCalls chain ≤ 2 * (depth + 1) := by
  have hosts := hostCalls_le chain asked
  have kinds := activeCalls_eq_hostCalls chain
  have split := activeCalls_eq_directCalls chain
  omega

/-! ## Courses -/

/-- The tasks that are under way when an event happens to a task, that task
    included. -/
def Event.chain : Event → List Task
  | entered task under => task :: under
  | refused task under _ _ => task :: under
  | _ => []

section

variable {env : Environment} {under : List Task} {m after : Machine} {events : List Event}
  {failure? : Option (ScriptError × Nat)}

/-- Tasks give back the depth that they have taken. -/
theorem Course.depth_eq (course : Course env under m events failure? after) :
    after.depth = m.depth := by
  induction course with
  | nothing => rfl
  | performed op => exact op.run_depth env _
  | threw value => rfl
  | refused task asked refused => rw [refused.machine]
  | task task asked granted inner ih =>
      rw [granted.machine] at ih
      rw [task.leave_eq]
      simp only [ih]
      omega
  | andThen begun rest first second => exact second.trans first
  | @caught _ _ _ error _ middle _ _ _ body catchable binds handler first second =>
      obtain ⟨_, _, frame⟩ := middle.catching_frame error
      rw [frame] at second
      exact second.trans first
  | passed before catchable finalizer first second => exact second.trans first
  | replaced before catchable finalizer first second => exact second.trans first

/-- The calls of script functions under way have been granted. -/
structure Admitted (env : Environment) (under : List Task) (m : Machine) : Prop where
  asked : Asked under
  counted : closureCalls under ≤ m.depth
  within : closureCalls under ≤ env.limits.callDepth

theorem Admitted.of_depth_eq (admitted : Admitted env under m) (same : after.depth = m.depth) :
    Admitted env under after :=
  ⟨admitted.asked, same ▸ admitted.counted, admitted.within⟩

theorem Admitted.cons (admitted : Admitted env under m) {task : Task} {entered : Machine}
    (asked : ∀ parent ∈ under.head?, parent.MayAsk task) (enters : task.Granted env m entered) :
    Admitted env (task :: under) entered := by
  have counted := admitted.counted
  have within := admitted.within
  have depth : entered.depth = m.depth + task.isClosureCall.toNat :=
    congrArg Machine.depth enters.machine
  refine ⟨⟨asked, admitted.asked⟩, ?_, ?_⟩
  · rw [closureCalls_cons]
    omega
  · rw [closureCalls_cons]
    cases closure : task.isClosureCall with
    | false => simpa using within
    | true =>
        have room := enters.depth closure
        rw [closure] at depth
        omega

/-- Tasks under way may ask for each other, and calls of script functions among
    them have been granted, except the innermost one at most. -/
def Event.Bounded (depth : Nat) (event : Event) : Prop :=
  Asked event.chain ∧
    closureCalls event.chain + (event.chain.head?.any Task.isHostCall).toNat ≤ depth + 1

theorem Admitted.bounded (admitted : Admitted env under m) {task : Task}
    (asked : ∀ parent ∈ under.head?, parent.MayAsk task) {event : Event}
    (chain : event.chain = task :: under) : event.Bounded env.limits.callDepth := by
  have within := admitted.within
  have either := task.isCall_toNat
  have called := Bool.toNat_le task.isCall
  unfold Event.Bounded
  rw [chain, closureCalls_cons, List.head?_cons, Option.any_some]
  exact ⟨⟨asked, admitted.asked⟩, by omega⟩

theorem Event.bounded_of_chain_nil {event : Event} (chain : event.chain = []) (depth : Nat) :
    event.Bounded depth := by
  unfold Event.Bounded
  rw [chain]
  exact ⟨trivial, Nat.zero_le _⟩

/-- At every event there is one call of a script function too many at most. -/
theorem Course.bounded (course : Course env under m events failure? after)
    (admitted : Admitted env under m) :
    ∀ event ∈ events, event.Bounded env.limits.callDepth := by
  induction course with
  | nothing => exact List.forall_mem_nil _
  | performed op => exact List.forall_mem_singleton.mpr (Event.bounded_of_chain_nil rfl _)
  | threw value => exact List.forall_mem_singleton.mpr (Event.bounded_of_chain_nil rfl _)
  | refused task asked refused => exact List.forall_mem_singleton.mpr (admitted.bounded asked rfl)
  | task task asked enters inner ih =>
      rw [List.cons_append, List.forall_mem_cons, List.forall_mem_append,
        List.forall_mem_singleton]
      exact ⟨admitted.bounded asked rfl, ih (admitted.cons asked enters),
        Event.bounded_of_chain_nil rfl _⟩
  | andThen begun rest first second =>
      exact List.forall_mem_append.mpr
        ⟨first admitted, second (admitted.of_depth_eq begun.depth_eq)⟩
  | @caught _ _ _ error _ middle _ _ _ body catchable binds handler first second =>
      obtain ⟨_, _, frame⟩ := middle.catching_frame error
      have depth : (middle.catching error).2.depth = middle.depth := by rw [frame]
      rw [List.forall_mem_append, List.forall_mem_cons]
      exact ⟨first admitted, Event.bounded_of_chain_nil rfl _,
        second (admitted.of_depth_eq (depth.trans body.depth_eq))⟩
  | passed before catchable finalizer first second =>
      exact List.forall_mem_append.mpr
        ⟨first admitted, second (admitted.of_depth_eq before.depth_eq)⟩
  | replaced before catchable finalizer first second =>
      exact List.forall_mem_append.mpr
        ⟨first admitted, second (admitted.of_depth_eq before.depth_eq)⟩

end

/-- At every moment the active calls that are no relays are twice as many as the
    call depth allows, at most.  So the active calls are within the sum of all
    depths if and only if the relays among them find room there, and without
    relays they always are.  A task that would go deeper is refused, and unless
    it is for a budget, the error with which everything ends is one of the
    depth. -/
theorem Eval.history_activeCalls {α : Type} (eval : Eval α) (env : Environment) (m : Machine) :
    ∀ event ∈ (eval.history env m).events,
      activeCalls event.chain = directCalls event.chain + relays event.chain ∧
      directCalls event.chain ≤ 2 * (env.limits.callDepth + 1) ∧
      (activeCalls event.chain ≤ maxEvalDepth + callDepthCap + 1 ↔
        relays event.chain ≤ maxEvalDepth + callDepthCap + 1 - directCalls event.chain) ∧
      ∀ task under error after, event = .refused task under error after →
        (∃ last, eval.start env m = .error error last) ∧
        (error = .nestingTooDeep maxEvalDepth ∨ error = .callDepthExceeded env.limits.callDepth ∨
          error = .stepBudgetExhausted env.limits.stepBudget ∨
          error = .timeBudgetExhausted env.limits.timeBudgetMs) := by
  intro event member
  have course := eval.history_follows env m
  have admitted : Admitted env [] m := ⟨trivial, Nat.zero_le _, Nat.zero_le _⟩
  have ⟨asked, within⟩ := Course.bounded course admitted event member
  have split := activeCalls_eq_directCalls event.chain
  have bound := directCalls_le asked within
  have cap : env.limits.callDepth ≤ callDepthCap := Nat.min_le_right _ _
  refine ⟨split, bound, ?_, ?_⟩
  · simp only [callDepthCap, maxEvalDepth] at cap ⊢
    omega
  · rintro task under error after rfl
    obtain ⟨_, refused⟩ := Course.grounded course _ member
    obtain ⟨last, outcome, -⟩ := eval.start_of_final env m member ⟨rfl, refused.final⟩
    refine ⟨⟨last, outcome⟩, ?_⟩
    rcases refused.reason with (⟨same, -⟩ | same) | ⟨same, -⟩ | ⟨same, -⟩ <;> simp [same]

/-! ## Relays -/

/-- The method of an array that calls back for each element. -/
def Value.IsWalk (ref : ArrayRef) (value : Value) : Prop :=
  ∃ identity, value = .bound identity (.array ref .forEach)

section

variable {α : Type} {answer : (task : Task) → Environment → Machine → Ledger task.Answer}
  {env : Environment} {m : Machine} {event : Event} {ref : ArrayRef} {function item : Value}

theorem Ledger.mem_andThen_left {β : Type} {first : Ledger α} {next : α → Machine → Ledger β}
    (member : event ∈ first.events) : event ∈ (first.andThen next).events :=
  (first.prefix_andThen next).subset member

theorem Eval.mem_ledger_heap (next : Heap → Eval α)
    (member : event ∈ ((next m.heap).ledger answer env m).events) :
    event ∈ ((Eval.heap >>= next).ledger answer env m).events :=
  List.mem_cons_of_mem _ member

theorem mem_ledger_walk {left index : Nat} {gathered : Array Value} (method : ArrayMethod)
    (found : (m.heap.arrayAt ref)[index]? = some item)
    (member : event ∈
      (answer (.call function [item, naturalValue index, .array ref]) env m).events) :
    event ∈ ((walk method ref function (left + 1) index gathered).ledger answer env m).events := by
  rw [walk]
  refine Eval.mem_ledger_heap _ ?_
  rw [found]
  exact Ledger.mem_andThen_left member

theorem mem_ledger_walkAll {rest : List Value} (method : ArrayMethod)
    (callable : function.isCallable = true) (found : (m.heap.arrayAt ref)[0]? = some item)
    (member : event ∈ (answer (.call function [item, naturalValue 0, .array ref]) env m).events) :
    event ∈ ((walkAll method ref (function :: rest)).ledger answer env m).events := by
  have callback : callbackOf method (function :: rest) = pure function := if_pos callable
  obtain ⟨left, size⟩ : ∃ left, (m.heap.arrayAt ref).size = left + 1 := by
    have inside := (Array.getElem?_eq_some_iff.mp found).1
    exact ⟨(m.heap.arrayAt ref).size - 1, by omega⟩
  rw [walkAll, callback]
  refine Eval.mem_ledger_heap _ ?_
  rw [size]
  exact mem_ledger_walk method found member

end

/-- An array that holds its own walk, and that walk handed to itself: each call
    makes another one, and nothing but the step budget ends that. -/
theorem Task.ledger_relays {env : Environment} (calm : env.NeverStrikes) {m : Machine}
    {ref : ArrayRef} {item : Value} (walks : item.IsWalk ref)
    (found : (m.heap.arrayAt ref)[0]? = some item) {function : Value}
    (called : function.IsWalk ref) (count : Nat) {rank : Nat} (deep : count < rank)
    (steps : m.steps + count ≤ env.limits.stepBudget) (under : List Task) (rest : List Value) :
    ∃ event ∈ (Task.ledger rank under (.call function (item :: rest)) env m).events,
      activeCalls under + count < activeCalls event.chain := by
  obtain ⟨rank, rfl⟩ : ∃ smaller, rank = smaller + 1 := ⟨rank - 1, by omega⟩
  obtain ⟨identity, rfl⟩ := called
  induction count generalizing identity rank m under rest with
  | zero =>
      simp only [ledger]
      cases enters : Task.enter (.call (.bound identity (.array ref .forEach)) (item :: rest)) env m with
      | error error after =>
          refine ⟨_, List.mem_singleton.mpr rfl, ?_⟩
          simp [Event.chain, activeCalls_cons, isCall]
      | ok value after =>
          refine ⟨_, List.mem_append_left _ List.mem_cons_self, ?_⟩
          simp [Event.chain, activeCalls_cons, isCall]
  | succ count ih =>
      let task := Task.call (.bound identity (.array ref .forEach)) (item :: rest)
      let entered := { m with steps := m.steps + 1 }
      have enters : task.enter env m = .ok () entered := (calm.tick m).trans (if_neg (by omega))
      obtain ⟨rank, rfl⟩ : ∃ smaller, rank = smaller + 1 := ⟨rank - 1, by omega⟩
      obtain ⟨next, rfl⟩ := walks
      have left : entered.steps + count ≤ env.limits.stepBudget := by
        change m.steps + 1 + count ≤ _
        omega
      -- The first element of the array is its walk again, and the callback now.
      obtain ⟨event, member, more⟩ := @ih entered found left (task :: under)
        [naturalValue 0, .array ref] rank (by omega) next
      refine ⟨event, ?_, ?_⟩
      · simp only [ledger]
        rw [enters]
        refine List.mem_append_left _ (List.mem_cons_of_mem _ ?_)
        exact mem_ledger_walkAll .forEach rfl found member
      · have called : task.isCall.toNat = 1 := rfl
        rw [activeCalls_cons, called] at more
        omega

/-- There is no bound for active calls but the step budget. -/
theorem Eval.history_relays {env : Environment} (calm : env.NeverStrikes) {m : Machine}
    {ref : ArrayRef} {item : Value} (walks : item.IsWalk ref)
    (found : (m.heap.arrayAt ref)[0]? = some item) (count : Nat)
    (steps : m.steps + count ≤ env.limits.stepBudget) :
    ∃ event ∈ ((Eval.call item [item]).history env m).events, count < activeCalls event.chain := by
  have deep : count < env.rank m := by
    unfold Environment.rank
    omega
  obtain ⟨event, member, more⟩ := Task.ledger_relays calm walks found walks count deep steps [] []
  exact ⟨event, Ledger.mem_andThen_left member, by simpa [activeCalls] using more⟩

def Value.isWalk (ref : ArrayRef) : Value → Bool
  | .bound _ (.array owner .forEach) => owner == ref
  | _ => false

theorem Value.isWalk_of_isWalk {ref : ArrayRef} {value : Value} (walks : value.isWalk ref = true) :
    value.IsWalk ref := by
  unfold isWalk at walks
  split at walks
  · exact ⟨_, by rw [beq_iff_eq.mp walks]⟩
  · cases walks

/-- What a script leaves that has put the walk of an array into that array. -/
def selfWalk (env : Environment) : Machine :=
  (runProgram ⟨[
    .declaration .var [.declare "a" (some (.array []))],
    .declaration .var [.declare "f" (some (.member (.identifier "a") "forEach"))],
    .expression (.call (.member (.identifier "a") "push") [.identifier "f"])]⟩
    env (.fresh env.limits)).machine

/-- The settings under which the array is handed its own walk. -/
def selfWalkSettings : Environment :=
  ⟨{ stepBudget := 2000 }, fun _ => 0⟩

theorem selfWalk_calls :
    ∃ item, ((selfWalk selfWalkSettings).heap.arrayAt ⟨0⟩)[0]? = some item ∧
      ∃ event ∈ ((Eval.call item [item]).history selfWalkSettings (selfWalk selfWalkSettings)).events,
        1500 < activeCalls event.chain := by
  have walks : ((selfWalk selfWalkSettings).heap.arrayAt ⟨0⟩)[0]?.any (Value.isWalk ⟨0⟩) = true := by
    decide +kernel
  have steps : (selfWalk selfWalkSettings).steps + 1500 ≤ selfWalkSettings.limits.stepBudget := by
    decide +kernel
  obtain ⟨item, found, walks⟩ := (Option.any_eq_true _ _).mp walks
  have calm : selfWalkSettings.NeverStrikes := fun _ => Nat.zero_le _
  exact ⟨item, found, Eval.history_relays calm (Value.isWalk_of_isWalk walks) found 1500 steps⟩

/-- A call of that walk with itself goes deeper than any sum of the depths that
    are allowed. -/
theorem selfWalk_exceeds_caps :
    ∃ item, ((selfWalk selfWalkSettings).heap.arrayAt ⟨0⟩)[0]? = some item ∧
      ∃ event ∈ ((Eval.call item [item]).history selfWalkSettings (selfWalk selfWalkSettings)).events,
        maxEvalDepth + callDepthCap + 1 < activeCalls event.chain := by
  obtain ⟨item, found, event, member, calls⟩ := selfWalk_calls
  refine ⟨item, found, event, member, ?_⟩
  simp only [maxEvalDepth, callDepthCap]
  omega

/-- All but some of those calls are relays. -/
theorem selfWalk_relays :
    ∃ item, ∃ event ∈
      ((Eval.call item [item]).history selfWalkSettings (selfWalk selfWalkSettings)).events,
        1500 - 2 * (64 + 1) < relays event.chain := by
  obtain ⟨item, -, event, member, calls⟩ := selfWalk_calls
  obtain ⟨split, bound, -⟩ := Eval.history_activeCalls (Eval.call item [item]) selfWalkSettings
    (selfWalk selfWalkSettings) event member
  have depth : selfWalkSettings.limits.callDepth = 64 := rfl
  rw [depth] at bound
  exact ⟨item, event, member, by omega⟩

end StrategyQubo.Script
