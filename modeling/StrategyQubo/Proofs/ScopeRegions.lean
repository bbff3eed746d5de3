import StrategyQubo.Proofs.DepthCounters
import StrategyQubo.Proofs.KeptNames

namespace StrategyQubo.Script

/-! # Regions of scopes

The scopes from which the way outward leads through a scope make up its region.
A name that the scope binds is found inside the region from anywhere in it, and
stays what it is until something is done at a scope of the region.
-/

/-! ## Regions -/

/-- The way outward from a scope leads through `home`. -/
inductive Machine.Inside (m : Machine) (home : ScopeId) : ScopeId → Prop where
  | here (made : home < m.scopes.size) : Inside m home home
  | outer {scope parent : ScopeId} (made : scope < m.scopes.size)
      (inner : (m.scopeAt scope).parent = some parent) (rest : Inside m home parent) :
      Inside m home scope

namespace Machine

variable {m after : Machine} {home other scope parent : ScopeId} {name : String}

theorem found_of_made (made : scope < m.scopes.size) : m.scopes[scope]? = some (m.scopeAt scope) := by
  simp [scopeAt, Array.getD_eq_getD_getElem?, made]

theorem scopeAt_of_missing (missing : ¬ scope < m.scopes.size) :
    m.scopeAt scope = .fresh none true := by
  simp [scopeAt, Array.getD_eq_getD_getElem?, missing]

theorem Arena.parent_lt_of_made (arena : m.Arena) (made : scope < m.scopes.size)
    (inner : (m.scopeAt scope).parent = some parent) : parent < scope :=
  arena.parent_lt (found_of_made made) inner

theorem Later.parent_eq (later : m.Later after) (made : scope < m.scopes.size) :
    (after.scopeAt scope).parent = (m.scopeAt scope).parent := by
  obtain ⟨s, found, parent, -⟩ := later.scope (found_of_made made)
  rw [scopeAt_of_found found, parent]

namespace Inside

theorem made (inside : m.Inside home scope) : scope < m.scopes.size := by
  cases inside with
  | here made => exact made
  | outer made inner rest => exact made

theorem home_made (inside : m.Inside home scope) : home < m.scopes.size := by
  induction inside with
  | here made => exact made
  | outer made inner rest ih => exact ih

theorem later (inside : m.Inside home scope) (later : m.Later after) : after.Inside home scope := by
  have stays {old : ScopeId} (made : old < m.scopes.size) : old < after.scopes.size :=
    Nat.lt_of_lt_of_le made later.size_le
  induction inside with
  | here made => exact .here (stays made)
  | outer made inner rest ih => exact .outer (stays made) ((later.parent_eq made).trans inner) ih

theorem trans (outer : m.Inside home other) (inner : m.Inside other scope) : m.Inside home scope := by
  induction inner with
  | here made => exact outer
  | outer made inner rest ih => exact .outer made inner ih

theorem le (inside : m.Inside home scope) (arena : m.Arena) : home ≤ scope := by
  induction inside with
  | here made => exact Nat.le_refl home
  | outer made inner rest ih =>
      exact Nat.le_of_lt (Nat.lt_of_le_of_lt ih (arena.parent_lt_of_made made inner))

theorem ne_globalScope (inside : m.Inside home scope) (arena : m.Arena)
    (inner : home ≠ globalScope) : scope ≠ globalScope := by
  rintro rfl
  exact inner (Nat.le_zero.mp (inside.le arena))

/-- There is one way outward, so of two regions with a common scope one lies in the
    other. -/
theorem comparable (one : m.Inside home scope) (two : m.Inside other scope) :
    m.Inside home other ∨ m.Inside other home := by
  induction one with
  | here made => exact .inr two
  | outer made inner rest ih =>
      cases two with
      | here => exact .inl (.outer made inner rest)
      | outer made' inner' rest' =>
          -- Both ways go on from the same parent.
          cases inner.symm.trans inner'
          exact ih rest'

/-- Regions of two scopes with the same parent have no scope in common. -/
theorem apart (arena : m.Arena) (inner : (m.scopeAt home).parent = some parent)
    (inner' : (m.scopeAt other).parent = some parent) (differ : other ≠ home)
    (inside : m.Inside other scope) : ¬ m.Inside home scope := by
  -- Its parent would be in the region of its sibling, but that parent is the older one.
  have above {one two : ScopeId} (inner : (m.scopeAt one).parent = some parent)
      (inner' : (m.scopeAt two).parent = some parent) (differ : two ≠ one) :
      ¬ m.Inside one two := by
    intro within
    cases within with
    | here made => exact differ rfl
    | outer made between rest =>
        cases between.symm.trans inner'
        exact Nat.not_lt_of_le (rest.le arena) (arena.parent_lt_of_made rest.home_made inner)
  intro common
  rcases common.comparable inside with within | within
  · exact above inner inner' differ within
  · exact above inner' inner (Ne.symm differ) within

end Inside

/-! ## Looking up names -/

/-- The way outward goes no further than to where it ends. -/
theorem inside_of_resolveWithin {bound : Nat} {found : ScopeId}
    (resolved : m.resolveWithin name bound scope = some found) : m.Inside found scope := by
  induction bound generalizing scope with
  | zero => cases resolved
  | succ bound ih =>
      have made : scope < m.scopes.size := by
        by_contra missing
        rw [resolveWithin, scopeAt_of_missing missing] at resolved
        cases resolved
      rw [resolveWithin] at resolved
      split at resolved
      · cases resolved
        exact .here made
      · split at resolved
        · next parent inner => exact .outer made inner (ih resolved)
        · cases resolved

theorem inside_functionScopeWithin (arena : m.Arena) (made : scope < m.scopes.size) (bound : Nat) :
    m.Inside (m.functionScopeWithin bound scope) scope := by
  induction bound generalizing scope with
  | zero => exact .here made
  | succ bound ih =>
      rw [functionScopeWithin]
      split
      · exact .here made
      · split
        · next parent inner =>
          have older := arena.parent_lt_of_made made inner
          exact .outer made inner (ih (Nat.lt_trans older made))
        · exact .here made

/-- Where the records of a region are the same, the same is found from inside. -/
theorem Inside.resolveWithin (inside : m.Inside home scope) (arena : m.Arena)
    (binds : (m.scopeAt home).binds name = true)
    (same : ∀ inner, m.Inside home inner → after.scopeAt inner = m.scopeAt inner)
    {bound bound' : Nat} (enough : scope < bound) (enough' : scope < bound') :
    ∃ found, m.Inside home found ∧ m.resolveWithin name bound scope = some found ∧
      after.resolveWithin name bound' scope = some found := by
  induction inside generalizing bound bound' with
  | here made =>
      obtain ⟨bound, rfl⟩ := Nat.exists_eq_add_one.mpr (Nat.zero_lt_of_lt enough)
      obtain ⟨bound', rfl⟩ := Nat.exists_eq_add_one.mpr (Nat.zero_lt_of_lt enough')
      refine ⟨home, .here made, ?_, ?_⟩
      · rw [Machine.resolveWithin, if_pos binds]
      · rw [Machine.resolveWithin, same home (.here made), if_pos binds]
  | @outer scope parent made inner rest ih =>
      obtain ⟨bound, rfl⟩ := Nat.exists_eq_add_one.mpr (Nat.zero_lt_of_lt enough)
      obtain ⟨bound', rfl⟩ := Nat.exists_eq_add_one.mpr (Nat.zero_lt_of_lt enough')
      have here := Inside.outer made inner rest
      have older := arena.parent_lt_of_made made inner
      rw [Machine.resolveWithin, Machine.resolveWithin, same scope here]
      cases bound : (m.scopeAt scope).binds name with
      | true => exact ⟨scope, here, rfl, rfl⟩
      | false =>
          simp only [inner]
          exact ih (Nat.lt_of_lt_of_le older (Nat.le_of_lt_succ enough))
            (Nat.lt_of_lt_of_le older (Nat.le_of_lt_succ enough'))

theorem Inside.resolve (inside : m.Inside home scope) (arena : m.Arena)
    (binds : (m.scopeAt home).binds name = true) :
    ∃ found, m.Inside home found ∧ m.resolve scope name = some found := by
  obtain ⟨found, within, resolved, -⟩ :=
    inside.resolveWithin arena binds (fun _ _ => rfl) inside.made inside.made
  exact ⟨found, within, resolved⟩

theorem Inside.binding?_eq (inside : m.Inside home scope) (arena : m.Arena)
    (binds : (m.scopeAt home).binds name = true)
    (same : ∀ inner, m.Inside home inner → after.scopeAt inner = m.scopeAt inner)
    (grown : m.scopes.size ≤ after.scopes.size) :
    after.binding? scope name = m.binding? scope name := by
  obtain ⟨found, within, resolved, resolved'⟩ := inside.resolveWithin arena binds same inside.made
    (Nat.lt_of_lt_of_le inside.made grown)
  simp only [binding?, Machine.resolve, resolved, resolved', Option.bind_some, same found within]

end Machine

/-! ## Operations -/

/-- The scope at which something is looked up, bound, or made. -/
def Operation.at? : Operation → Option ScopeId
  | .newClosure _ scope => some scope
  | .newScope parent _ => some parent
  | .declare scope _ _ _ => some scope
  | .declareMissing scope _ => some scope
  | .resolves scope _ => some scope
  | .lookup scope _ => some scope
  | .assign scope _ _ => some scope
  | _ => none

section

variable {env : Environment} {m : Machine} {home target : ScopeId}

theorem Machine.scopeAt_declare_of_ne {scope : ScopeId} (other : scope ≠ target) (name : String)
    (value : Value) (isMutable : Bool) :
    (m.declare target name value isMutable).scopeAt scope = m.scopeAt scope := by
  rw [scopeAt_declare, if_neg fun same => other same.1]

theorem Machine.scopeAt_declareAllMissing_of_ne {scope at_ : ScopeId}
    (other : scope ≠ m.functionScopeOf at_) (names : List String) :
    (m.declareAllMissing at_ names).scopeAt scope = m.scopeAt scope := by
  simp only [declareAllMissing]
  generalize m.functionScopeOf at_ = target at other
  induction names generalizing m with
  | nil => rfl
  | cons name rest ih =>
      refine ih.trans ?_
      change (m.declareMissing target name).scopeAt scope = m.scopeAt scope
      unfold declareMissing
      split
      · rfl
      · exact scopeAt_declare_of_ne other ..

namespace Machine.Inside

variable {scope place : ScopeId}

/-- What is outside of a region declares nothing in it, -/
theorem ne_functionScopeOf (inside : m.Inside home scope) (arena : m.Arena)
    (outside : ¬ m.Inside home place) : scope ≠ m.functionScopeOf place := by
  rintro rfl
  by_cases made : place < m.scopes.size
  · exact outside (inside.trans (inside_functionScopeWithin arena made _))
  · have itself (bound : Nat) : m.functionScopeWithin bound place = place := by
      cases bound with
      | zero => rfl
      | succ bound =>
          rw [functionScopeWithin, scopeAt_of_missing made]
          rfl
    rw [functionScopeOf, itself] at inside
    exact outside inside

/-- and assigns to nothing in it. -/
theorem ne_assigned (inside : m.Inside home scope) (arena : m.Arena) (inner : home ≠ globalScope)
    (outside : ¬ m.Inside home place) (name : String) :
    scope ≠ (m.resolve place name).getD globalScope := by
  cases resolved : m.resolve place name with
  | some found =>
      rintro rfl
      exact outside (inside.trans (inside_of_resolveWithin resolved))
  | none => exact inside.ne_globalScope arena inner

end Machine.Inside

/-- What is done at no scope leaves the scopes alone. -/
theorem Operation.scopes_kept {op : Operation} (aside : op.at? = none) :
    (op.run env m).machine.scopes = m.scopes := by
  cases op with
  | tick =>
      simp only [run, Action.tick]
      split
      · rfl
      · split <;> rfl
  | checkLength requested =>
      simp only [run, Action.checkLength]
      split <;> rfl
  | stringify value =>
      simp only [run, Action.stringify]
      split <;> rfl
  | setProperty target key value =>
      simp only [run, Action.setProperty]
      split <;> rfl
  | newClosure | newScope | declare | declareMissing | resolves | lookup | assign => cases aside
  | _ => rfl

theorem Operation.lookup_machine (scope : ScopeId) (name : String) :
    ((Operation.lookup scope name).run env m).machine = m := by
  simp only [run, Action.lookup]
  split <;> rfl

/-- What is done at a scope outside of a region leaves all scopes of the region as
    they are. -/
theorem Operation.region_kept {op : Operation} (arena : m.Arena) (inner : home ≠ globalScope)
    (outside : ∀ scope ∈ op.at?, ¬ m.Inside home scope) {scope : ScopeId}
    (inside : m.Inside home scope) : (op.run env m).machine.scopeAt scope = m.scopeAt scope := by
  cases op with
  | newScope parent isFunction =>
      simp [run, Action.newScope, Machine.scopeAt, Array.getD_eq_getD_getElem?,
        Array.getElem?_push_lt, inside.made]
  | declare target name value isMutable =>
      refine Machine.scopeAt_declare_of_ne ?_ name value isMutable
      rintro rfl
      exact outside scope rfl inside
  | declareMissing target names =>
      exact Machine.scopeAt_declareAllMissing_of_ne
        (inside.ne_functionScopeOf arena (outside target rfl)) names
  | assign target name value =>
      -- A name that nobody binds is bound in the global scope, which is in no inner region.
      have other := inside.ne_assigned arena inner (outside target rfl) name
      have away := inside.ne_globalScope arena inner
      simp only [run, Action.assign]
      split
      · split
        · exact Machine.scopeAt_declare_of_ne other ..
        · rfl
      · exact Machine.scopeAt_declare_of_ne away ..
  | lookup target name => rw [lookup_machine]
  | resolves | newClosure => rfl
  | _ => rw [Machine.scopeAt, Machine.scopeAt, scopes_kept rfl]

end

/-! ## Events -/

def Event.at? : Event → Option ScopeId
  | .performed op _ _ => op.at?
  | _ => none

/-- The event is an operation as it is done on the machine, or leaves the scopes alone. -/
inductive Event.Happens (env : Environment) (m : Machine) : Event → Prop where
  | performed (op : Operation) :
      Happens env m (.performed op (op.run env m).error? (op.run env m).machine)
  | aside {event} (same : (m.advance event).scopes = m.scopes) : Happens env m event

/-- Whatever an operation does, no scope loses a name. -/
theorem Operation.run_gains_any (op : Operation) (env : Environment) (m : Machine) :
    m.Gains (fun _ _ => True) (op.run env m).machine := by
  have free : op.Confined (fun _ _ => True) m := by
    cases op <;> simp [Operation.Confined]
  exact (Operation.run_gains free).mono fun _ _ _ => trivial

namespace Event.Happens

variable {env : Environment} {m : Machine} {event : Event} {home scope : ScopeId}

theorem gains (happens : event.Happens env m) :
    m.Gains (fun _ _ => True) (m.advance event) := by
  cases happens with
  | performed op => exact op.run_gains_any env m
  | aside same => exact .of_scopes same

theorem region_kept (happens : event.Happens env m) (arena : m.Arena) (inner : home ≠ globalScope)
    (outside : ∀ scope ∈ event.at?, ¬ m.Inside home scope) (inside : m.Inside home scope) :
    (m.advance event).scopeAt scope = m.scopeAt scope := by
  cases happens with
  | performed op => exact op.region_kept arena inner outside inside
  | aside same => rw [Machine.scopeAt, Machine.scopeAt, same]

theorem binding?_eq (happens : event.Happens env m) (arena : m.Arena) (inner : home ≠ globalScope)
    (outside : ∀ scope ∈ event.at?, ¬ m.Inside home scope) {name : String}
    (binds : (m.scopeAt home).binds name = true) (inside : m.Inside home scope) :
    (m.advance event).binding? scope name = m.binding? scope name :=
  inside.binding?_eq arena binds (fun _ within => happens.region_kept arena inner outside within)
    happens.gains.grown

end Event.Happens

/-! ## Runs -/

/-- Events that happen one after the other. -/
inductive Chronicle (env : Environment) : Machine → List Event → Prop where
  | nothing {m} : Chronicle env m []
  | next {m event rest} (happens : event.Happens env m)
      (later : Chronicle env (m.advance event) rest) : Chronicle env m (event :: rest)

/-- Nothing that happens is done at a scope of the region. -/
def Machine.LeavesAlone (m : Machine) (home : ScopeId) (events : List Event) : Prop :=
  ∀ before event later, events = before ++ event :: later →
    ∀ scope ∈ event.at?, ¬ (m.replay before).Inside home scope

section

variable {m : Machine} {event : Event} {rest : List Event}

theorem Machine.LeavesAlone.tail {home : ScopeId} (alone : m.LeavesAlone home (event :: rest)) :
    (m.advance event).LeavesAlone home rest :=
  fun before next later split => alone (event :: before) next later (congrArg _ split)

theorem Machine.Throughout.tail {holds : Machine → Prop}
    (throughout : m.Throughout (event :: rest) holds) : (m.advance event).Throughout rest holds :=
  fun before begins => throughout (event :: before) (List.cons_prefix_cons.mpr ⟨rfl, begins⟩)

end

namespace Chronicle

variable {env : Environment} {m : Machine} {first second events : List Event}

theorem single {event : Event} (happens : event.Happens env m) : Chronicle env m [event] :=
  .next happens .nothing

theorem append (begun : Chronicle env m first) (rest : Chronicle env (m.replay first) second) :
    Chronicle env m (first ++ second) := by
  induction begun with
  | nothing => exact rest
  | next happens later ih => exact .next happens (ih rest)

theorem split (chronicle : Chronicle env m (first ++ second)) :
    Chronicle env m first ∧ Chronicle env (m.replay first) second := by
  induction first generalizing m with
  | nil => exact ⟨.nothing, chronicle⟩
  | cons event first ih =>
      cases chronicle with
      | next happens later =>
          obtain ⟨begun, rest⟩ := ih later
          exact ⟨.next happens begun, rest⟩

theorem gains (chronicle : Chronicle env m events) :
    m.Gains (fun _ _ => True) (m.replay events) := by
  induction chronicle with
  | nothing => exact .refl _
  | next happens later ih => exact happens.gains.trans ih

/-- As long as nothing is done in a region, its scopes stay as they are, -/
theorem region_kept (chronicle : Chronicle env m events)
    (arenas : m.Throughout events Machine.Arena) {home : ScopeId} (inner : home ≠ globalScope)
    (alone : m.LeavesAlone home events) {scope : ScopeId} (inside : m.Inside home scope) :
    (m.replay events).scopeAt scope = m.scopeAt scope := by
  induction chronicle with
  | nothing => rfl
  | @next m event rest happens later ih =>
      have kept : (m.advance event).scopeAt scope = m.scopeAt scope :=
        happens.region_kept (arenas [] List.nil_prefix) inner (alone [] event rest rfl) inside
      exact (ih arenas.tail alone.tail (inside.later happens.gains.later)).trans kept

/-- and what a name is bound to, seen from inside, stays what it is. -/
theorem binding?_eq (chronicle : Chronicle env m events)
    (arenas : m.Throughout events Machine.Arena) {home : ScopeId} (inner : home ≠ globalScope)
    {name : String} (binds : (m.scopeAt home).binds name = true) (alone : m.LeavesAlone home events)
    {scope : ScopeId} (inside : m.Inside home scope) :
    (m.replay events).binding? scope name = m.binding? scope name :=
  inside.binding?_eq (arenas [] List.nil_prefix) binds
    (fun _ within => chronicle.region_kept arenas inner alone within) chronicle.gains.grown

end Chronicle

theorem Course.chronicle {env : Environment} {under : List Task} {m after : Machine}
    {events : List Event} {failure? : Option (ScriptError × Nat)}
    (course : Course env under m events failure? after) :
    Chronicle env m events ∧ m.replay events = after := by
  have joined {m middle after : Machine} {first second : List Event}
      (begun : Chronicle env m first ∧ m.replay first = middle)
      (rest : Chronicle env middle second ∧ middle.replay second = after) :
      Chronicle env m (first ++ second) ∧ m.replay (first ++ second) = after := by
    obtain ⟨one, rfl⟩ := begun
    obtain ⟨two, rfl⟩ := rest
    exact ⟨one.append two, m.replay_append ..⟩
  induction course with
  | nothing => exact ⟨.nothing, rfl⟩
  | performed op => exact ⟨.single (.performed op), rfl⟩
  | threw value => exact ⟨.single (.aside rfl), rfl⟩
  | @refused under m after error task asked refused =>
      have same : after.scopes = m.scopes := by rw [refused.machine]
      exact ⟨.single (.aside same), rfl⟩
  | @task under m entered events failure? last task asked granted inner ih =>
      obtain ⟨chronicle, replayed⟩ := ih
      have begins : m.advance (.entered task under) = entered := granted.machine.symm
      have ends : (task.leave last).scopes = last.scopes := by rw [task.leave_eq]
      subst begins replayed
      exact ⟨.next (.aside rfl) (chronicle.append (.single (.aside ends))), m.replay_append _ [_]⟩
  | @caught _ m _ error _ _ _ _ _ body catchable binds handler first second =>
      obtain ⟨one, rfl⟩ := first
      obtain ⟨two, rfl⟩ := second
      obtain ⟨heap, thrown, frame⟩ := Machine.catching_frame (m.replay _) error
      have same := congrArg Machine.scopes frame
      exact ⟨one.append (.next (.aside same) two), m.replay_append ..⟩
  | andThen begun rest first second => exact joined first second
  | passed before catchable finalizer first second => exact joined first second
  | replaced before catchable finalizer first second => exact joined first second

theorem Errand.chronicle (errand : Errand) (env : Environment) (m : Machine) :
    Chronicle env m (errand.events env m) := by
  cases errand with
  | run program => exact ((programRule program.body).history_follows env m).chronicle.1
  | call function arguments =>
      exact ((Eval.call function arguments).history_follows env m).chronicle.1

/-! ## Later machines -/

/-- The machine now is one that the other has become: scopes have come and gained names,
    and none has gone. -/
structure Machine.Onward (m now : Machine) : Prop where
  gains : m.Gains (fun _ _ => True) now
  arena : now.Arena

section

variable {env : Environment} {m now last : Machine} {events : List Event}

theorem Machine.Onward.trans (first : m.Onward now) (second : now.Onward last) : m.Onward last :=
  ⟨first.gains.trans second.gains, second.arena⟩

theorem Machine.Throughout.drop {first second : List Event} {holds : Machine → Prop}
    (throughout : m.Throughout (first ++ second) holds) :
    (m.replay first).Throughout second holds := by
  intro before begins
  rw [← m.replay_append]
  exact throughout _ ((List.prefix_append_right_inj first).mpr begins)

theorem Chronicle.onward (chronicle : Chronicle env m events)
    (arenas : m.Throughout events Machine.Arena) : m.Throughout events m.Onward := by
  rintro before ⟨later, rfl⟩
  exact ⟨chronicle.split.1.gains, arenas before (List.prefix_append _ _)⟩

end

end StrategyQubo.Script
