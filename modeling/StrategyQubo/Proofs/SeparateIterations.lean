import StrategyQubo.Proofs.ArrayVisits
import StrategyQubo.Proofs.OwnEvents
import StrategyQubo.Proofs.ScopeArena

namespace StrategyQubo.Script

open Eval

/-! # Separate iterations

A loop over a collection whose header declares its variable runs its body in a new
scope for each item.  So the variable of one iteration is not the variable of
another.  A counting loop has one scope for all of its turns.
-/

/-- The variable, the collection and the body of a loop over a collection that declares
    its variable with `let`. -/
def Stmt.walk? : Stmt → Option (String × Expr × Stmt)
  | .forOf (some .lexical) name collection body => some (name, collection, body)
  | .forIn (some .lexical) name collection body => some (name, collection, body)
  | _ => none

theorem Stmt.cases_of_walk? {loop body : Stmt} {name : String} {collection : Expr}
    (walk : loop.walk? = some (name, collection, body)) :
    loop = .forOf (some .lexical) name collection body ∨
      loop = .forIn (some .lexical) name collection body := by
  unfold walk? at walk
  split at walk <;> cases walk
  · exact .inl rfl
  · exact .inr rfl

/-- The scope of an iteration, the machine as the loop has found it when it went on to
    the item, and the machine on which the body begins. -/
structure Iteration where
  home : ScopeId
  found : Machine
  begun : Machine

/-- The scope is a new one in that of the loop, with the variable in it.  All others
    are as they were. -/
def Iteration.Fresh (name : String) (scope : ScopeId) (iteration : Iteration) : Prop :=
  iteration.home = iteration.found.scopes.size ∧ ∃ item, iteration.begun.scopes =
    iteration.found.scopes.push ⟨[(name, ⟨item, true⟩)], some scope, false⟩

/-- No part is asked for, and nothing is done at a scope. -/
def Event.IsIdle (event : Event) : Prop :=
  event.isDirect = true ∧ event.at? = none

/-- A loop over a collection asks for its body in one iteration after the other, until
    it ends. -/
inductive Walks (env : Environment) (name : String) (body : Stmt) (scope : ScopeId)
    (under : List Task) : Machine → List Event → List Iteration → Prop where
  | ended {m events} (idle : ∀ event ∈ events, event.IsIdle) :
      Walks env name body scope under m events []
  | turn {m opening part rest iterations} (iteration : Iteration) (found : iteration.found = m)
      (opens : ∀ event ∈ opening, event.isDirect = true)
      (begun : iteration.begun = m.replay opening) (fresh : iteration.Fresh name scope)
      (trace : Trace env under iteration.begun part)
      (asks : asked under.length iteration.begun part = [] ∨
        asked under.length iteration.begun part =
          [(.statement body iteration.home, iteration.begun)])
      (later : Walks env name body scope under (iteration.begun.replay part) rest iterations) :
      Walks env name body scope under m (opening ++ part ++ rest) (iteration :: iterations)

/-! ## One item after the other -/

theorem Machine.scopes_declare_newScope (m : Machine) (scope : ScopeId) (name : String)
    (item : Value) (isMutable : Bool) :
    (Machine.declare { m with scopes := m.scopes.push (.fresh (some scope) false) } m.scopes.size
      name item isMutable).scopes = m.scopes.push ⟨[(name, ⟨item, isMutable⟩)], some scope, false⟩ := by
  apply Array.ext_getElem?
  intro other
  simp only [declare, modifyScope, Array.getElem?_modify, Array.getElem?_push]
  by_cases last : other = m.scopes.size
  · subst last
    rw [if_pos rfl, if_pos rfl, if_pos rfl]
    rfl
  · rw [if_neg (Ne.symm last), if_neg last, if_neg last]

/-- An item is read without any change. -/
theorem itemAt_idle (env : Environment)
    (answer : (task : Task) → Environment → Machine → Ledger task.Answer) (collection : Value)
    (index : Nat) (m : Machine) :
    let read := (itemAt collection index).ledger answer env m
    (∀ event ∈ read.events, event.IsIdle) ∧ m.replay read.events = m ∧
      ∀ item? after, read.outcome = .ok item? after → after = m := by
  have refused (other : Value) :
      let fault := TypeFault.notIterable (other.display m.heap)
      (do typeError (.notIterable (← display other)) : Eval (Option Value)).ledger answer env m =
        ⟨[.performed .heap none m, .performed (.typeError fault) (some (.type fault)) m], 0,
          .error (.type fault) m⟩ := rfl
  cases collection with
  | array ref =>
      refine ⟨List.forall_mem_singleton.mpr ⟨rfl, rfl⟩, rfl, fun item? after ended => ?_⟩
      cases ended
      rfl
  | string text =>
      refine ⟨List.forall_mem_nil _, rfl, fun item? after ended => ?_⟩
      cases ended
      rfl
  | _ =>
      simp only [itemAt, refused]
      refine ⟨?_, rfl, fun _ _ ended => nomatch ended⟩
      exact List.forall_mem_cons.mpr ⟨⟨rfl, rfl⟩, List.forall_mem_singleton.mpr ⟨rfl, rfl⟩⟩

section

variable {β : Type} {env : Environment} {under : List Task} {m : Machine} {scope : ScopeId}
  {name : String} {body : Stmt} {answer : (task : Task) → Environment → Machine → Ledger task.Answer}
  (traced : ∀ part m, (answer part env m).Traced env under m)
  (once : ∀ part m, asked under.length m (answer part env m).events = [] ∨
    asked under.length m (answer part env m).events = [(part, m)])

include traced once

/-- After the item has been read comes the body in a scope of its own. -/
theorem walkBody_walks {read : List Event} (idle : ∀ event ∈ read, event.IsIdle)
    (same : m.replay read = m) (item : Value) {next : Flow → Machine → Ledger β}
    (later : ∀ flow after, ∃ iterations,
      Walks env name body scope under after (next flow after).events iterations) :
    ∃ iterations, Walks env name body scope under m (read ++
      (((walkBody (some .lexical) name item body scope).ledger answer env m).andThen next).events)
      iterations := by
  let home : ScopeId := m.scopes.size
  let opened : Machine := { m with scopes := m.scopes.push (.fresh (some scope) false) }
  let begun := opened.declare home name item true
  let making : List Event := [.performed (.newScope scope false) none opened,
    .performed (.declare home name item true) none begun]
  let part := answer (.statement body home) env begun
  let closed := part.andThen fun flow m => ⟨[], 0, .ok flow m⟩
  -- All before the body can be computed.
  have events : ((walkBody (some .lexical) name item body scope).ledger answer env m).events =
      making ++ part.events := congrArg (making ++ ·) (part.andThen_returns id)
  have outcome : ((walkBody (some .lexical) name item body scope).ledger answer env m).outcome =
      part.outcome := by
    change closed.outcome = part.outcome
    simp only [closed, Ledger.andThen_outcome]
    cases part.outcome <;> rfl
  have replayed : begun.replay part.events = part.outcome.machine := (traced _ begun).replayed
  let iteration : Iteration := ⟨home, m, begun⟩
  have goesOn {rest : List Event} {iterations : List Iteration}
      (later : Walks env name body scope under part.outcome.machine rest iterations) :
      Walks env name body scope under m (read ++ making ++ part.events ++ rest)
        (iteration :: iterations) := by
    apply Walks.turn iteration rfl
    · intro event member
      rcases List.mem_append.mp member with early | late
      · exact (idle event early).1
      · simp only [making, List.mem_cons, List.not_mem_nil, or_false] at late
        rcases late with rfl | rfl <;> rfl
    · rw [m.replay_append, same]
      rfl
    · exact ⟨rfl, item, m.scopes_declare_newScope scope name item true⟩
    · exact (traced _ begun).trace
    · exact once _ begun
    · exact replayed ▸ later
  cases ended : part.outcome with
  | ok flow after =>
      rw [ended] at goesOn outcome
      obtain ⟨iterations, walks⟩ := later flow after
      refine ⟨iteration :: iterations, ?_⟩
      simpa only [Ledger.andThen, outcome, events, List.append_assoc] using goesOn walks
  | error error after =>
      rw [ended] at goesOn outcome
      refine ⟨[iteration], ?_⟩
      simpa only [Ledger.andThen, outcome, events, List.append_assoc, List.append_nil] using
        goesOn (.ended (List.forall_mem_nil _))

theorem forInTurns_walks (keys : List String) (m : Machine) :
    ∃ iterations, Walks env name body scope under m
      ((forInTurns (some .lexical) name body scope keys).ledger answer env m).events iterations := by
  induction keys generalizing m with
  | nil => exact ⟨[], .ended (List.forall_mem_nil _)⟩
  | cons key rest ih =>
      rw [forInTurns, Eval.ledger_bind]
      apply walkBody_walks traced once (List.forall_mem_nil _) rfl
      intro flow after
      cases flow.afterBody? with
      | some last => exact ⟨[], .ended (List.forall_mem_nil _)⟩
      | none => exact ih after

theorem forOf_walks (bound : Nat) (state : Value × Nat) (m : Machine) :
    ∃ iterations, Walks env name body scope under m (Ledger.repeated (fun state =>
      (forOfTurn (some .lexical) name body scope state).ledger answer) bound state env m).events
      iterations := by
  induction bound generalizing state m with
  | zero => exact ⟨[], .ended (List.forall_mem_singleton.mpr ⟨rfl, rfl⟩)⟩
  | succ bound ih =>
      obtain ⟨idle, same, unchanged⟩ := itemAt_idle env answer state.1 state.2 m
      rw [Ledger.repeated, forOfTurn, Eval.ledger_bind, Ledger.andThen_assoc]
      cases ended : ((itemAt state.1 state.2).ledger answer env m).outcome with
      | error error after =>
          simp only [Ledger.andThen, ended]
          exact ⟨[], .ended idle⟩
      | ok item? after =>
          obtain rfl := unchanged item? after ended
          rw [Ledger.events_andThen_ok ended]
          cases item? with
          | none => exact ⟨[], .ended (List.append_nil _ ▸ idle)⟩
          | some item =>
              rw [forOfItem, Eval.ledger_bind, Ledger.andThen_assoc]
              apply walkBody_walks traced once idle same
              intro flow after
              cases flow.afterBody? with
              | some last => exact ⟨[], .ended (List.forall_mem_nil _)⟩
              | none => exact ih _ after

/-- Before the iterations, the collection is evaluated. -/
theorem statementRule_walks {loop : Stmt} {collection : Expr}
    (walk : loop.walk? = some (name, collection, body)) (turns : Nat) (m : Machine) :
    ∃ head rest iterations,
      ((statementRule loop scope).ledger answer under turns env m).events = head ++ rest ∧
      (∀ call ∈ asked under.length m head, call.1 = .expression collection scope) ∧
      Walks env name body scope under (m.replay head) rest iterations := by
  let first := answer (.expression collection scope) env m
  have replayed : m.replay first.events = first.outcome.machine := (traced _ m).replayed
  have evaluates (call : Task × Machine) (member : call ∈ asked under.length m first.events) :
      call.1 = .expression collection scope := by
    rcases once (.expression collection scope) m with none | one
    · rw [none] at member
      cases member
    · rw [one] at member
      rw [List.mem_singleton.mp member]
  have goesOn {next : Value → Machine → Ledger Flow}
      (later : ∀ value after, ∃ idle rest iterations, (next value after).events = idle ++ rest ∧
        asked under.length after idle = [] ∧
        Walks env name body scope under (after.replay idle) rest iterations) :
      ∃ head rest iterations, (first.andThen next).events = head ++ rest ∧
        (∀ call ∈ asked under.length m head, call.1 = .expression collection scope) ∧
        Walks env name body scope under (m.replay head) rest iterations := by
    cases ended : first.outcome with
    | ok value after =>
        obtain ⟨idle, rest, iterations, events, silent, walks⟩ := later value after
        have reached : m.replay first.events = after := by rw [replayed, ended]; rfl
        refine ⟨first.events ++ idle, rest, iterations, ?_, ?_, ?_⟩
        · rw [Ledger.events_andThen_ok ended, events, List.append_assoc]
        · rw [asked_append, reached, silent, List.append_nil]
          exact evaluates
        · rw [m.replay_append, reached]
          exact walks
    | error error after =>
        refine ⟨first.events, [], [], ?_, evaluates, .ended (List.forall_mem_nil _)⟩
        simp only [Ledger.andThen, ended, List.append_nil]
  rcases Stmt.cases_of_walk? walk with rfl | rfl
  · have begins : (statementRule (.forOf (some .lexical) name collection body) scope).ledger answer
        under turns env m = (first.andThen fun value m => ⟨[], 0, .ok (value, 0) m⟩).andThen
          fun state m => Ledger.repeated (fun state =>
            (forOfTurn (some .lexical) name body scope state).ledger answer) turns state env m := rfl
    rw [begins, Ledger.andThen_assoc]
    apply goesOn
    intro value after
    obtain ⟨iterations, walks⟩ := forOf_walks traced once turns (value, 0) after
    exact ⟨[], _, iterations, rfl, rfl, walks⟩
  · have begins : (statementRule (.forIn (some .lexical) name collection body) scope).ledger answer
        under turns env m = first.andThen fun owner m =>
          (Ledger.single (.performed .heap none m) (.ok m.heap m)).andThen fun h m =>
            (forInTurns (some .lexical) name body scope (h.ownKeys owner)).ledger answer env m := rfl
    rw [begins]
    apply goesOn
    intro owner after
    obtain ⟨iterations, walks⟩ := forInTurns_walks traced once (after.heap.ownKeys owner) after
    exact ⟨[.performed .heap none after], _, iterations, rfl, rfl, walks⟩

end

/-! ## Regions of iterations -/

section

variable {env : Environment} {name : String} {body : Stmt} {scope : ScopeId} {under : List Task}
  {m now last : Machine} {events : List Event} {iterations : List Iteration}
  {iteration : Iteration}

/-- Each iteration begins on its way, in a scope of its own. -/
theorem Walks.reached (walks : Walks env name body scope under m events iterations) :
    ∀ iteration ∈ iterations, iteration.Fresh name scope ∧ ∃ past opening future,
      events = past ++ opening ++ future ∧ iteration.found = m.replay past ∧
        iteration.begun = iteration.found.replay opening := by
  induction walks with
  | ended idle => exact List.forall_mem_nil _
  | @turn m opening part rest iterations iteration found opens begun fresh trace asks later ih =>
      refine List.forall_mem_cons.mpr ⟨⟨fresh, [], opening, part ++ rest, ?_, found, ?_⟩, ?_⟩
      · rw [List.nil_append, List.append_assoc]
      · rw [begun, found]
      · intro other member
        obtain ⟨fresh', past, opening', future, rfl, found', begun'⟩ := ih other member
        refine ⟨fresh', opening ++ part ++ past, opening', future, ?_, ?_, begun'⟩
        · simp only [List.append_assoc]
        · rw [found', m.replay_append, m.replay_append, begun]

/-- What is found in an iteration has come of all those before. -/
theorem Walks.onward (walks : Walks env name body scope under m events iterations)
    (chronicle : Chronicle env m events) (arenas : m.Throughout events Machine.Arena) :
    iterations.Pairwise fun one other => one.begun.Onward other.found := by
  induction walks with
  | ended idle => exact .nil
  | @turn m opening part rest iterations iteration found opens begun fresh trace asks later ih =>
      rw [List.append_assoc] at chronicle arenas
      have chronicle' := chronicle.split.2
      have arenas' := arenas.drop
      rw [← begun] at chronicle' arenas'
      refine List.pairwise_cons.mpr ⟨fun other member => ?_, ?_⟩
      -- A later iteration is found behind this body, so behind its beginning.
      · obtain ⟨-, past, opening', future, rfl, found', -⟩ := later.reached other member
        rw [found', ← Machine.replay_append]
        exact chronicle'.onward arenas' _ ⟨opening' ++ future, by simp⟩
      · exact ih chronicle'.split.2 arenas'.drop

theorem Iteration.Fresh.record (fresh : iteration.Fresh name scope) :
    ∃ item, iteration.begun.scopeAt iteration.home = ⟨[(name, ⟨item, true⟩)], some scope, false⟩ := by
  obtain ⟨home, item, scopes⟩ := fresh
  refine ⟨item, Machine.scopeAt_of_found ?_⟩
  rw [scopes, home, Array.getElem?_push_size]

theorem Iteration.Fresh.made (fresh : iteration.Fresh name scope) :
    iteration.home < iteration.begun.scopes.size := by
  obtain ⟨home, item, scopes⟩ := fresh
  simp [scopes, home]

/-- What stays so of the scope of an iteration. -/
structure Machine.Lodges (now : Machine) (home : ScopeId) (name : String) (scope : ScopeId) :
    Prop where
  parent : (now.scopeAt home).parent = some scope
  binds : (now.scopeAt home).binds name = true
  inner : home ≠ globalScope

theorem Iteration.Fresh.lodges (fresh : iteration.Fresh name scope)
    (onward : iteration.begun.Onward now) : now.Lodges iteration.home name scope := by
  obtain ⟨item, record⟩ := fresh.record
  have parent : (now.scopeAt iteration.home).parent = some scope := by
    rw [onward.gains.later.parent_eq fresh.made, record]
  refine ⟨parent, onward.gains.binds fresh.made ?_, ?_⟩
  · rw [record, Scope.binds_iff]
    exact List.mem_cons_self
  · intro home
    obtain ⟨root, found, alone⟩ := onward.arena.root
    rw [home, Machine.scopeAt_of_found found, alone] at parent
    cases parent

/-- Regions of iterations of one loop have no scope in common. -/
theorem Machine.Lodges.apart {home other : ScopeId} {name' : String}
    (lodges : now.Lodges home name scope) (lodges' : now.Lodges other name' scope)
    (arena : now.Arena) (differ : other ≠ home) {place : ScopeId} (inside : now.Inside home place) :
    ¬ now.Inside other place :=
  inside.apart arena lodges'.parent lodges.parent (Ne.symm differ)

end

/-! ## What happens in a region -/

/-- Seen from the region of a scope, the name stands for a variable in the region, and
    is bound to the same until something is done there. -/
structure Machine.Shelters (env : Environment) (now : Machine) (home : ScopeId) (name : String) :
    Prop where
  resolves : ∀ place, now.Inside home place →
    ∃ bound, now.Inside home bound ∧ now.resolve place name = some bound
  keeps : ∀ events, Chronicle env now events → now.Throughout events Machine.Arena →
    now.LeavesAlone home events → ∀ place, now.Inside home place →
      (now.replay events).binding? place name = now.binding? place name

/-- From some machine on, all that code of one region does itself is done there, and
    leaves alone what the name is bound to as seen from the other region. -/
def Machine.Separates (env : Environment) (since : Machine) (name : String)
    (home other : ScopeId) : Prop :=
  ∀ (errand : Errand) m entry, errand.Does env m home entry → since.Onward entry.2 →
    (∀ scope ∈ entry.1.at?, entry.2.Inside home scope) ∧ ∀ place, entry.2.Inside other place →
      (entry.2.advance entry.1).binding? place name = entry.2.binding? place name

/-- The variable of an iteration is not that of an earlier one. -/
structure Iteration.Apart (env : Environment) (name : String) (earlier later : Iteration) : Prop where
  home_lt : earlier.home < later.home
  regions : ∀ now, later.begun.Onward now → ∀ place, now.Inside earlier.home place →
    ¬ now.Inside later.home place
  turn : ∀ place, later.found.Inside earlier.home place →
    later.begun.binding? place name = later.found.binding? place name
  forward : later.begun.Separates env name earlier.home later.home
  backward : later.begun.Separates env name later.home earlier.home

section

variable {env : Environment} {name : String} {scope home other : ScopeId} {m now : Machine}
  {events : List Event} {entry : Event × Machine}

theorem Machine.Lodges.shelters (lodges : now.Lodges home name scope) (arena : now.Arena) :
    now.Shelters env home name :=
  ⟨fun _ inside => inside.resolve arena lodges.binds,
    fun _ chronicle arenas alone _ inside =>
      chronicle.binding?_eq arenas lodges.inner lodges.binds alone inside⟩

theorem Machine.separates {since : Machine}
    (lodges : ∀ now, since.Onward now → now.Lodges home name scope)
    (lodges' : ∀ now, since.Onward now → now.Lodges other name scope) (differ : home ≠ other) :
    since.Separates env name home other := by
  intro errand m entry does onward
  refine ⟨does.inside, fun place inside => ?_⟩
  have apart (scope : ScopeId) (done : scope ∈ entry.1.at?) : ¬ entry.2.Inside other scope :=
    (lodges _ onward).apart (lodges' _ onward) onward.arena (Ne.symm differ) (does.inside scope done)
  exact does.happens.binding?_eq onward.arena (lodges' _ onward).inner apart
    (lodges' _ onward).binds inside

end

/-! ## Loops over collections -/

/-- Making the scope of an iteration changes no other. -/
theorem Iteration.Fresh.scopeAt_begun {name : String} {scope old : ScopeId} {iteration : Iteration}
    (fresh : iteration.Fresh name scope) (older : old < iteration.found.scopes.size) :
    iteration.begun.scopeAt old = iteration.found.scopeAt old := by
  obtain ⟨-, item, scopes⟩ := fresh
  simp only [Machine.scopeAt, Array.getD_eq_getD_getElem?, scopes, Array.getElem?_push_lt, older,
    Array.getElem?_eq_getElem]

theorem Iteration.Fresh.apart {env : Environment} {name : String} {scope : ScopeId}
    {earlier later : Iteration} (fresh : earlier.Fresh name scope)
    (fresh' : later.Fresh name scope) (onward : earlier.begun.Onward later.found)
    (begun : later.found.Onward later.begun) : Iteration.Apart env name earlier later := by
  have home_lt : earlier.home < later.home := by
    rw [fresh'.1]
    exact Nat.lt_of_lt_of_le fresh.made onward.gains.grown
  have lodges (now : Machine) (since : later.begun.Onward now) :
      now.Lodges earlier.home name scope := fresh.lodges ((onward.trans begun).trans since)
  have lodges' (now : Machine) (since : later.begun.Onward now) :
      now.Lodges later.home name scope := fresh'.lodges since
  refine ⟨home_lt, fun now since place => ?_, fun place inside => ?_, ?_, ?_⟩
  · exact (lodges now since).apart (lodges' now since) since.arena (Nat.ne_of_gt home_lt)
  · apply inside.binding?_eq onward.arena (fresh.lodges onward).binds
    · exact fun inner within => fresh'.scopeAt_begun within.made
    · exact begun.gains.grown
  · exact Machine.separates lodges lodges' (Nat.ne_of_lt home_lt)
  · exact Machine.separates lodges' lodges (Nat.ne_of_gt home_lt)

/-- Any two iterations of a loop are apart. -/
theorem Walks.apart {env : Environment} {name : String} {body : Stmt} {scope : ScopeId}
    {under : List Task} {m : Machine} {events : List Event} {iterations : List Iteration}
    (walks : Walks env name body scope under m events iterations)
    (chronicle : Chronicle env m events) (arenas : m.Throughout events Machine.Arena) :
    iterations.Pairwise (Iteration.Apart env name) := by
  apply (walks.onward chronicle arenas).imp_of_mem
  intro earlier later member member' onward
  obtain ⟨fresh, -⟩ := walks.reached earlier member
  obtain ⟨fresh', past, opening, future, rfl, found, begun⟩ := walks.reached later member'
  rw [List.append_assoc] at chronicle arenas
  have goesOn := chronicle.split.2.onward arenas.drop opening (List.prefix_append _ _)
  rw [← found, ← begun] at goesOn
  exact fresh.apart fresh' onward goesOn

section

variable {env : Environment} {host : Host} {m : Machine} {shown : List Value}

/-- Whatever is done in a session leads onward. -/
theorem Session.onward (own : ∀ value, host.gives value → value.scopes = [])
    (session : Session env host m shown) {errand : Errand} (permitted : errand.Permitted host shown)
    {past future : List Event} (split : errand.events env m = past ++ future) :
    (m.replay past).Throughout future (m.replay past).Onward := by
  obtain ⟨-, -, errands⟩ := session.scopes_safe own
  have arenas : (m.replay past).Throughout future Machine.Arena := by
    rintro before ⟨later, rfl⟩
    rw [← List.append_assoc] at split
    rw [← m.replay_append]
    exact ((errands errand permitted).2 _ later split).2.1.arena
  have chronicle := errand.chronicle env m
  rw [split] at chronicle
  exact chronicle.split.2.onward arenas

/-- Whenever a loop over a collection that declares its variable with `let` is entered, in
    any session: after the collection comes one iteration after the other.  From when an
    iteration begins, also when it is over, the variable seen from its region is in
    the region, and is bound to the same until something is done there.  Any two
    iterations are apart. -/
theorem Session.iterations_apart (own : ∀ value, host.gives value → value.scopes = [])
    (session : Session env host m shown) {errand : Errand} (permitted : errand.Permitted host shown)
    {before later : List Event} {under : List Task} {loop body : Stmt} {scope : ScopeId}
    {name : String} {collection : Expr}
    (split : errand.events env m = before ++ .entered (.statement loop scope) under :: later)
    (walk : loop.walk? = some (name, collection, body)) :
    let found := m.replay (before ++ [.entered (.statement loop scope) under])
    ∃ head rest iterations, untilLeft later 0 = head ++ rest ∧
      (∀ call ∈ asked (under.length + 1) found head, call.1 = .expression collection scope) ∧
      Walks env name body scope (.statement loop scope :: under) (found.replay head) rest
        iterations ∧
      (∀ iteration ∈ iterations, ∃ past future, errand.events env m = past ++ future ∧
        iteration.begun = m.replay past ∧
        iteration.begun.Throughout future iteration.begun.Onward ∧
        ∀ now, iteration.begun.Onward now → now.Shelters env iteration.home name) ∧
      iterations.Pairwise (Iteration.Apart env name) := by
  intro found
  let task := Task.statement loop scope
  obtain ⟨α, eval, history⟩ := errand.exists_history env m
  obtain ⟨rank, inside⟩ := eval.history_opens env m (history ▸ split)
  obtain ⟨head, rest, iterations, events, evaluates, walks⟩ := statementRule_walks
    (Task.ledger_traced rank (task :: under)) (Task.asked_ledger rank (task :: under)) walk
    (rank + 1) found
  have left : untilLeft later 0 = head ++ rest := inside.trans events
  obtain ⟨behind, whole⟩ := untilLeft_prefix later 0
  let start := before ++ [.entered task under] ++ head
  have all : errand.events env m = start ++ (rest ++ behind) := by
    rw [split, ← whole, left]
    simp [start, task]
  have reached : found.replay head = m.replay start := (m.replay_append _ head).symm
  have onward {past future : List Event} (split : rest = past ++ future) :
      (m.replay (start ++ past)).Throughout (future ++ behind) (m.replay (start ++ past)).Onward := by
    apply session.onward own permitted
    simp [all, split]
  have walked := walks
  rw [reached] at walked
  refine ⟨head, rest, iterations, left, evaluates, walks, fun iteration member => ?_, ?_⟩
  · obtain ⟨fresh, past, opening, future, split, found, begun⟩ := walked.reached iteration member
    rw [found, ← m.replay_append, ← m.replay_append, List.append_assoc] at begun
    refine ⟨start ++ (past ++ opening), future ++ behind, by simp [all, split], begun, ?_, ?_⟩
    · exact begun ▸ onward split
    · exact fun now since => (fresh.lodges since).shelters since.arena
  · have chronicle := errand.chronicle env m
    rw [all] at chronicle
    apply walked.apart chronicle.split.2.split.1
    intro past begins
    have along := onward (List.nil_append rest).symm past (begins.trans (List.prefix_append _ _))
    simpa using along.arena

end

/-! ## Loops that run -/

def iterationSettings : Environment :=
  ⟨{ stepBudget := 200 }, fun _ => 0⟩

/-- The closures of two iterations see a variable each. -/
def walking : String :=
  "var fs=[];for(let x of ['a','b'])\x7bfs.push(()=>x);\x7d"

def Task.isStatement : Task → Bool
  | .statement _ _ => true
  | _ => false

/-- A loop over a collection is entered and asks for its body so many times. -/
def walksTimes (count : Nat) (m : Machine) : Event → List Event → Bool
  | .entered (.statement loop _) under, later =>
      loop.walk?.isSome && ((asked (under.length + 1) m (untilLeft later 0)).countP
        fun call => call.1.isStatement) == count
  | _, _ => false

section

variable {env : Environment} {name : String} {body : Stmt} {scope : ScopeId} {under : List Task}
  {m : Machine} {events : List Event} {iterations : List Iteration}

/-- All that a loop asks for is its body, once in an iteration. -/
theorem Walks.asked_sublist (walks : Walks env name body scope under m events iterations) :
    (asked under.length m events).Sublist
      (iterations.map fun iteration => (.statement body iteration.home, iteration.begun)) := by
  induction walks with
  | ended idle => rw [asked_of_direct fun event member => (idle event member).1]; exact .slnil
  | @turn m opening part rest iterations iteration found opens begun fresh trace asks later ih =>
      rw [asked_append, asked_append, asked_of_direct opens, List.nil_append, m.replay_append,
        ← begun]
      rcases asks with none | one
      · exact none ▸ ih.cons _
      · exact one ▸ ih.cons_cons _

end

theorem walking_iterations_apart :
    ∃ program, Program.parse walking = .ok program ∧
      ∃ before loop scope under later name collection body rest iterations,
        (Errand.run program).events iterationSettings (.fresh iterationSettings.limits) =
          before ++ .entered (.statement loop scope) under :: later ∧
        loop.walk? = some (name, collection, body) ∧
        rest <:+ untilLeft later 0 ∧ 2 ≤ iterations.length ∧
        (∃ start, Walks iterationSettings name body scope (.statement loop scope :: under) start
          rest iterations) ∧
        iterations.Pairwise (Iteration.Apart iterationSettings name) := by
  have walks : anyEvent (walksTimes 2) (.fresh iterationSettings.limits)
      (eventsOf iterationSettings walking) = true := by
    decide +kernel
  obtain ⟨program, parsed, before, event, later, split, twice⟩ := exists_program_of_anyEvent walks
  have session : Session iterationSettings Host.anyone (.fresh iterationSettings.limits) [] := .fresh
  unfold walksTimes at twice
  split at twice
  · next loop scope under =>
    simp only [Bool.and_eq_true, beq_iff_eq, Option.isSome_iff_exists] at twice
    obtain ⟨⟨⟨name, collection, body⟩, walk⟩, count⟩ := twice
    have permitted : (Errand.run program).Permitted Host.anyone [] := trivial
    obtain ⟨head, rest, iterations, events, evaluates, walks, -, apart⟩ :=
      session.iterations_apart (fun _ own => own) permitted split walk
    refine ⟨program, parsed, before, loop, scope, under, later, name, collection, body, rest,
      iterations, split, walk, ⟨head, events.symm⟩, ?_, ⟨_, walks⟩, apart⟩
    rw [events, asked_append, List.countP_append] at count
    rw [List.countP_eq_zero.mpr, Nat.zero_add] at count
    · have asks := walks.asked_sublist.length_le
      rw [List.length_map] at asks
      exact (count ▸ List.countP_le_length).trans asks
    · intro call member
      rw [evaluates call member]
      exact Bool.false_ne_true
  · cases twice

/-- The closures of two turns see one variable. -/
def counting : String :=
  "var fs=[];for(let i=0;i<2;i++)\x7bfs.push(()=>i);\x7dvar a=fs[0](),b=fs[1]();"

/-- The scope in which the body of a counting loop begins that declares its variable
    with `let`. -/
def Event.turn? : Event → Option ScopeId
  | .entered (.statement (.block _) scope)
      (.statement (.forLoop (some (.declaration .lexical _)) _ _ _) _ :: _) => some scope
  | _ => none

/-- The task that has been entered makes a closure itself, in that scope. -/
def makesClosure (home : ScopeId) (m : Machine) (later : List Event) : Bool :=
  (ownEvents 0 m (untilLeft later 0)).any fun entry =>
    match entry.1 with
    | .performed (.newClosure _ scope) _ _ => scope == home
    | _ => false

/-- A turn begins in the scope and makes a closure there, and the variable is bound to
    a value of that text. -/
def turnWith (text : String) (home : ScopeId) (m : Machine) (event : Event)
    (later : List Event) : Bool :=
  event.turn? == some home && makesClosure home m later &&
    (m.binding? home "i").map (fun binding => binding.value.display m.heap) == some text

def turnsShare (m : Machine) (event : Event) (later : List Event) : Bool :=
  match event.turn? with
  | some home => turnWith "0" home m event later && anyEvent (turnWith "1" home) m later
  | none => false

/-- When a loop that counts goes on to its next turn, the variable becomes another for
    the closure of the turn before. -/
theorem counting_shares_variable :
    ∃ program, Program.parse counting = .ok program ∧ ∃ before first between second later home,
      (Errand.run program).events iterationSettings (.fresh iterationSettings.limits) =
        before ++ first :: (between ++ second :: later) ∧
      let m := (Machine.fresh iterationSettings.limits).replay (before ++ [first])
      let m' := m.replay (between ++ [second])
      first.turn? = some home ∧ makesClosure home m (between ++ second :: later) = true ∧
      second.turn? = some home ∧ makesClosure home m' later = true ∧
      (m.binding? home "i").map (fun binding => binding.value.display m.heap) = some "0" ∧
      (m'.binding? home "i").map (fun binding => binding.value.display m'.heap) = some "1" := by
  have shares : anyEvent turnsShare (.fresh iterationSettings.limits)
      (eventsOf iterationSettings counting) = true := by
    decide +kernel
  obtain ⟨program, parsed, before, first, rest, split, shares⟩ := exists_program_of_anyEvent shares
  unfold turnsShare at shares
  split at shares
  · next home begins =>
    obtain ⟨early, further⟩ := Bool.and_eq_true_iff.mp shares
    obtain ⟨between, second, later, rfl, late⟩ := exists_split_of_anyEvent further
    simp only [turnWith, Bool.and_eq_true, beq_iff_eq] at early late
    exact ⟨program, parsed, before, first, between, second, later, home, split, early.1.1,
      early.1.2, late.1.1, late.1.2, early.2, late.2⟩
  · cases shares

end StrategyQubo.Script
