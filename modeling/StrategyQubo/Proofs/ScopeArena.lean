import StrategyQubo.Proofs.Sessions

namespace StrategyQubo.Script

/-! # The arena of scopes

Closures outlive the blocks and calls that they are made in, and errors leave
evaluations half done.  Still every scope that is mentioned anywhere is one that
there is, and the way outward from it ends at the global scope.
-/

/-! ## The way outward -/

/-- Going outward from a scope ends at the last one: there, or where there is no
    outer scope.  Every scope on the way is one that there is. -/
inductive Machine.Outward (m : Machine) (stops : Scope → Bool) : ScopeId → ScopeId → Prop where
  | here {scope : ScopeId} {s : Scope} (found : m.scopes[scope]? = some s)
      (last : stops s = true ∨ s.parent = none) : Outward m stops scope scope
  | outer {scope parent last : ScopeId} {s : Scope} (found : m.scopes[scope]? = some s)
      (goesOn : stops s = false) (inner : s.parent = some parent)
      (rest : Outward m stops parent last) : Outward m stops scope last

namespace Machine

variable {m : Machine}

theorem scopeAt_of_found {scope : ScopeId} {s : Scope} (found : m.scopes[scope]? = some s) :
    m.scopeAt scope = s := by
  simp [scopeAt, Array.getD_eq_getD_getElem?, found]

theorem Arena.parent_lt (arena : m.Arena) {scope parent : ScopeId} {s : Scope}
    (found : m.scopes[scope]? = some s) (inner : s.parent = some parent) : parent < scope := by
  rcases Nat.eq_zero_or_pos scope with rfl | positive
  · obtain ⟨root, found', alone⟩ := arena.root
    cases found.symm.trans found'
    cases alone.symm.trans inner
  · obtain ⟨parent', inner', older⟩ := arena.inner scope s found positive
    cases inner.symm.trans inner'
    exact older

/-- The way outward is no longer than the index of the scope where it begins. -/
theorem Arena.resolveWithin (arena : m.Arena) {name : String} {bound : Nat} {scope : ScopeId}
    (enough : scope < bound) (made : scope < m.scopes.size) :
    ∃ last, m.Outward (·.binds name) scope last ∧
      m.resolveWithin name bound scope =
        if (m.scopeAt last).binds name then some last else none := by
  induction bound generalizing scope with
  | zero => exact absurd enough (Nat.not_lt_zero scope)
  | succ bound ih =>
      have found : m.scopes[scope]? = some m.scopes[scope] := Array.getElem?_eq_getElem made
      have here := scopeAt_of_found found
      generalize m.scopes[scope] = s at found here
      by_cases binds : s.binds name
      · exact ⟨scope, .here found (.inl binds), by simp [Machine.resolveWithin, here, binds]⟩
      · cases parent : s.parent with
        | none =>
            refine ⟨scope, .here found (.inr parent), ?_⟩
            simp [Machine.resolveWithin, here, binds, parent]
        | some outer =>
            have older := arena.parent_lt found parent
            obtain ⟨last, rest, same⟩ := ih (Nat.lt_of_lt_of_le older (Nat.le_of_lt_succ enough))
              (Nat.lt_trans older made)
            refine ⟨last, .outer found (by simpa using binds) parent rest, ?_⟩
            simp only [Machine.resolveWithin, here, parent, same]
            rw [if_neg binds]

theorem Arena.functionScopeWithin (arena : m.Arena) {bound : Nat} {scope : ScopeId}
    (enough : scope < bound) (made : scope < m.scopes.size) :
    m.Outward Scope.isFunction scope (m.functionScopeWithin bound scope) := by
  induction bound generalizing scope with
  | zero => exact absurd enough (Nat.not_lt_zero scope)
  | succ bound ih =>
      have found : m.scopes[scope]? = some m.scopes[scope] := Array.getElem?_eq_getElem made
      have here := scopeAt_of_found found
      generalize m.scopes[scope] = s at found here
      simp only [Machine.functionScopeWithin, here]
      by_cases isFunction : s.isFunction
      · rw [if_pos isFunction]
        exact .here found (.inl isFunction)
      · rw [if_neg isFunction]
        cases parent : s.parent with
        | none => exact .here found (.inr parent)
        | some outer =>
            have older := arena.parent_lt found parent
            exact .outer found (by simpa using isFunction) parent
              (ih (Nat.lt_of_lt_of_le older (Nat.le_of_lt_succ enough)) (Nat.lt_trans older made))

/-- The scopes form an arena, closures see scopes of it, and from every scope
    the way outward ends. -/
structure ScopesSafe (m : Machine) : Prop where
  arena : m.Arena
  held : ∀ function, m.Holds (.closure function) → function.scope < m.scopes.size
  resolve : ∀ scope < m.scopes.size, ∀ name, ∃ last, m.Outward (·.binds name) scope last ∧
    m.resolve scope name = if (m.scopeAt last).binds name then some last else none
  functionScope : ∀ scope < m.scopes.size,
    m.Outward Scope.isFunction scope (m.functionScopeOf scope)

theorem Sound.scopesSafe {env : Environment} {r : Ration env.limits} (sound : m.Sound r) :
    m.ScopesSafe where
  arena := sound.arena
  held _ held := (held.sound sound).1
  resolve _ made _ := sound.arena.resolveWithin made made
  functionScope _ made := sound.arena.functionScopeWithin made made

end Machine

/-! ## Mentioned scopes -/

def Value.scopes : Value → List ScopeId
  | .closure function => [function.scope]
  | _ => []

def Operation.scopes : Operation → List ScopeId
  | .stringify value => value.scopes
  | .newArray items => items.toList.flatMap Value.scopes
  | .newObject properties => properties.flatMap fun entry => entry.2.scopes
  | .newClosure _ scope => [scope]
  | .setProperty target _ value => target.scopes ++ value.scopes
  | .newScope parent _ => [parent]
  | .declare scope _ value _ => scope :: value.scopes
  | .declareMissing scope _ => [scope]
  | .resolves scope _ => [scope]
  | .lookup scope _ => [scope]
  | .assign scope _ value => scope :: value.scopes
  | _ => []

def Task.scopes : Task → List ScopeId
  | .statement _ scope => [scope]
  | .expression _ scope => [scope]
  | .call function arguments => (function :: arguments).flatMap Value.scopes

/-- The scopes in which something happens, and those of the closures that it
    happens with. -/
def Event.scopes : Event → List ScopeId
  | .performed op _ _ => op.scopes
  | .entered task _ => task.scopes
  | .refused task _ _ _ => task.scopes
  | .left task _ _ => task.scopes
  | .threw value => value.scopes
  | .caught _ _ _ given => given.scopes
  | .cutOff => []

section

variable {limits : Limits} {r : Ration limits} {scopes : Nat} {m : Machine}

theorem Value.Sound.scopes_lt {value : Value} (sound : value.Sound r scopes) :
    ∀ scope ∈ value.scopes, scope < scopes := by
  cases value with
  | closure function => exact List.forall_mem_singleton.mpr sound.1
  | _ => exact nofun

theorem Value.flatMap_scopes_lt {values : List Value}
    (sound : ∀ value ∈ values, value.Sound r scopes) :
    ∀ scope ∈ values.flatMap Value.scopes, scope < scopes := by
  intro scope member
  obtain ⟨value, among, mentioned⟩ := List.mem_flatMap.mp member
  exact (sound value among).scopes_lt scope mentioned

theorem Task.Sound.scopes_lt {task : Task} (sound : task.Sound r scopes) :
    ∀ scope ∈ task.scopes, scope < scopes := by
  cases task with
  | statement form scope => exact List.forall_mem_singleton.mpr sound.1
  | expression form scope => exact List.forall_mem_singleton.mpr sound.1
  | call function arguments =>
      exact Value.flatMap_scopes_lt (List.forall_mem_cons.mpr sound)

theorem Operation.Sound.scopes_lt {op : Operation} (sound : op.Sound r m) :
    ∀ scope ∈ op.scopes, scope < m.scopes.size := by
  cases op with
  | stringify value => exact Value.Sound.scopes_lt sound
  | newArray items =>
      exact Value.flatMap_scopes_lt fun value member =>
        sound.items value (Array.mem_toList_iff.mp member)
  | newObject properties =>
      intro scope member
      obtain ⟨entry, among, mentioned⟩ := List.mem_flatMap.mp member
      exact (sound entry among).scopes_lt scope mentioned
  | newClosure definition scope => exact List.forall_mem_singleton.mpr sound.1
  | setProperty target key value =>
      exact List.forall_mem_append.mpr ⟨sound.1.scopes_lt, sound.2.scopes_lt⟩
  | newScope parent isFunction => exact List.forall_mem_singleton.mpr sound
  | declare scope name value isMutable =>
      exact List.forall_mem_cons.mpr ⟨sound.1, sound.2.scopes_lt⟩
  | declareMissing scope names => exact List.forall_mem_singleton.mpr sound
  | resolves scope name => exact List.forall_mem_singleton.mpr sound
  | lookup scope name => exact List.forall_mem_singleton.mpr sound
  | assign scope name value => exact List.forall_mem_cons.mpr ⟨sound.1, sound.2.scopes_lt⟩
  | _ => exact nofun

theorem Event.Given.scopes_lt {event : Event} (given : event.Given r m) :
    ∀ scope ∈ event.scopes, scope < m.scopes.size := by
  cases event with
  | performed op error? after => exact Operation.Sound.scopes_lt given
  | entered task under => exact Task.Sound.scopes_lt given
  | refused task under error after => exact Task.Sound.scopes_lt given
  | left task error? after => exact Task.Sound.scopes_lt given
  | threw value => exact Value.Sound.scopes_lt given
  | caught under error since value => exact Value.Sound.scopes_lt given
  | cutOff => exact nofun

end

/-! ## Sessions -/

section

variable {env : Environment} {host : Host} {m : Machine} {shown : List Value}

/-- Nothing is asked of events if all lengths are allowed. -/
theorem Event.spares_unlimited (limits : Limits) (event : Event) :
    event.Spares (.unlimited limits) := by
  unfold Event.Spares
  split <;> simp [Ration.unlimited, Ration.Text]

theorem Host.respects_unlimited (own : ∀ value, host.gives value → value.scopes = []) :
    host.Respects (.unlimited env.limits) where
  runs _ _ statement _ :=
    statement.spelled_of_lenient ⟨fun _ => trivial, fun _ => trivial, fun _ => trivial⟩
  gives value brought scopes := by
    have none := own value brought
    cases value with
    | closure function => cases none
    | bound identity method => cases method <;> trivial
    | _ => trivial
  makes _ _ := trivial
  allows event _ := event.spares_unlimited env.limits

/-- Those outside may run any programs and call any functions, also after errors,
    as long as they have no closures but those of the machine itself. -/
theorem Session.scopes_safe (own : ∀ value, host.gives value → value.scopes = [])
    (session : Session env host m shown) :
    m.ScopesSafe ∧ (∀ function, .closure function ∈ shown → function.scope < m.scopes.size) ∧
    ∀ errand : Errand, errand.Permitted host shown →
      m.replay (errand.events env m) = errand.machine env m ∧
      ∀ before later, errand.events env m = before ++ later →
        m.Later (m.replay before) ∧ (m.replay before).ScopesSafe ∧
        ∀ event ∈ later.head?, (m.replay before).Later ((m.replay before).advance event) ∧
          ∀ scope ∈ event.scopes, scope < (m.replay before).scopes.size := by
  have respects : host.Respects (.unlimited env.limits) := Host.respects_unlimited own
  obtain ⟨sound, given⟩ := session.sound respects
  refine ⟨sound.scopesSafe, fun function member => (given _ member).1, fun errand permitted => ?_⟩
  have done := Errand.sound respects sound given permitted
    fun event _ => event.spares_unlimited env.limits
  refine ⟨done.replayed, fun before later split => ?_⟩
  have passage := done.passage
  rw [split] at passage
  cases later with
  | nil =>
      have leads := (List.append_nil before ▸ passage).leads sound
      exact ⟨leads.later, leads.sound.scopesSafe, by simp⟩
  | cons event later =>
      obtain ⟨leads, given, next⟩ := passage.split sound
      refine ⟨leads.later, leads.sound.scopesSafe, fun event' same => ?_⟩
      obtain rfl : event = event' := Option.some.inj same
      exact ⟨next.later, given.scopes_lt⟩

end

/-- Anyone who brings no closures along. -/
def Host.anyone : Host :=
  ⟨fun _ => True, fun value => value.scopes = [], fun _ => True, fun _ => True⟩

/-- A program that fails with a closure in flight, which sees the scope of a
    block. -/
def escaping : Program := ⟨[
  .block [
    .declaration .lexical [.declare "kept" (some (.number 7.0))],
    .throwValue (.function (.define none [] (.expression (.identifier "kept"))))]]⟩

def escapingSettings : Environment :=
  ⟨{ stepBudget := 100 }, fun _ => 0⟩

def escaped : Machine :=
  (Errand.run escaping).machine escapingSettings (.fresh escapingSettings.limits)

/-- What has been thrown can be called. -/
theorem escaped_call_safe :
    ∃ function, escaped.Holds (.closure function) ∧ globalScope < function.scope ∧
      function.scope < escaped.scopes.size ∧
      ((Errand.call (.closure function) []).machine escapingSettings escaped).ScopesSafe := by
  have thrown : (escaped.thrown.any fun value => value.scopes.any (globalScope < ·)) = true := by
    decide +kernel
  cases inFlight : escaped.thrown with
  | none => simp [inFlight] at thrown
  | some value =>
      rw [inFlight] at thrown
      cases value with
      | closure function =>
          have inner : globalScope < function.scope := by simpa [Value.scopes] using thrown
          have held : escaped.Holds (.closure function) := .thrown inFlight
          have session : Session escapingSettings .anyone escaped [.closure function] :=
            .look (.errand .fresh trivial fun _ _ => trivial) held
          obtain ⟨safe, -, errands⟩ := Session.scopes_safe (fun _ own => own) session
          have permitted : (Errand.call (.closure function) []).Permitted .anyone
              [.closure function] :=
            List.forall_mem_singleton.mpr (.inl List.mem_cons_self)
          obtain ⟨replayed, passes⟩ := errands _ permitted
          obtain ⟨-, after, -⟩ := passes _ [] (List.append_nil _).symm
          exact ⟨function, held, inner, safe.held function held, replayed ▸ after⟩
      | _ => simp [Value.scopes] at thrown

end StrategyQubo.Script
