import StrategyQubo.Proofs.SeparateIterations

namespace StrategyQubo.Script

open Eval

/-! # Hoisted names

A name that `var` declares anywhere in a function belongs to each call of the
function from the beginning.  Code of the call, and of closures that come of it,
finds the name in a scope of the call, and never in one around it.
-/

/-! ## Declarations -/

/-- The statement stands directly in the other one, outside of functions. -/
inductive Stmt.Part : Stmt → Stmt → Prop where
  | consequent {condition part alternative} : Part part (.ifElse condition part alternative)
  | alternative {condition consequent part} : Part part (.ifElse condition consequent (some part))
  | whileBody {condition part} : Part part (.whileLoop condition part)
  | doBody {condition part} : Part part (.doWhile part condition)
  | forHeader {part condition update body} : Part part (.forLoop (some part) condition update body)
  | forBody {initial condition update part} : Part part (.forLoop initial condition update part)
  | forOfBody {kind name iterable part} : Part part (.forOf kind name iterable part)
  | forInBody {kind name object part} : Part part (.forIn kind name object part)
  | block {part statements} (member : part ∈ statements) : Part part (.block statements)
  | tried {part block binding handler finalizer} (member : part ∈ block) :
      Part part (.tryBlock block binding handler finalizer)
  | handler {part block binding handler finalizer} (member : part ∈ handler) :
      Part part (.tryBlock block binding (some handler) finalizer)
  | finalizer {part block binding handler finalizer} (member : part ∈ finalizer) :
      Part part (.tryBlock block binding handler (some finalizer))

/-- The statement declares the name with `var`, itself or at any depth in it. -/
inductive Stmt.DeclaresVar (name : String) : Stmt → Prop where
  | declaration {declarators initial} (member : .declare name initial ∈ declarators) :
      DeclaresVar name (.declaration .var declarators)
  | forOf {iterable body} : DeclaresVar name (.forOf (some .var) name iterable body)
  | forIn {object body} : DeclaresVar name (.forIn (some .var) name object body)
  | part {part whole} (inner : Part part whole) (declares : DeclaresVar name part) :
      DeclaresVar name whole

section

variable {name : String}

theorem Declarator.mem_namesOf {declarators : List Declarator} :
    name ∈ namesOf declarators ↔ ∃ initial, .declare name initial ∈ declarators := by
  induction declarators with
  | nil => simp [namesOf]
  | cons first rest ih =>
      obtain ⟨bound, initial⟩ := first
      simp only [namesOf, List.mem_cons, ih, declare.injEq]
      constructor
      · rintro (rfl | ⟨initial', member⟩)
        · exact ⟨initial, .inl ⟨rfl, rfl⟩⟩
        · exact ⟨initial', .inr member⟩
      · rintro ⟨initial', ⟨rfl, -⟩ | member⟩
        · exact .inl rfl
        · exact .inr ⟨initial', member⟩

theorem Stmt.mem_varNamesOfList {statements : List Stmt} :
    name ∈ varNamesOfList statements ↔ ∃ statement ∈ statements, name ∈ statement.varNames := by
  induction statements with
  | nil => simp [varNamesOfList]
  | cons first rest ih => simp [varNamesOfList, ih]

theorem Stmt.Part.varNames_subset {part whole : Stmt} (inner : Part part whole) :
    part.varNames ⊆ whole.varNames := by
  intro name declared
  have among {statements : List Stmt} (member : part ∈ statements) :
      name ∈ varNamesOfList statements := mem_varNamesOfList.mpr ⟨part, member, declared⟩
  cases inner with
  | consequent => exact List.mem_append_left _ declared
  | whileBody | doBody => exact declared
  | forHeader => exact List.mem_append_left _ declared
  | alternative | forBody | forOfBody | forInBody => exact List.mem_append_right _ declared
  | block member => exact among member
  | tried member => exact List.mem_append_left _ (List.mem_append_left _ (among member))
  | handler member => exact List.mem_append_left _ (List.mem_append_right _ (among member))
  | finalizer member => exact List.mem_append_right _ (among member)

theorem Stmt.DeclaresVar.mem_varNames {statement : Stmt} (declares : statement.DeclaresVar name) :
    name ∈ statement.varNames := by
  induction declares with
  | declaration member => exact Declarator.mem_namesOf.mpr ⟨_, member⟩
  | forOf => exact List.mem_append_left _ (List.mem_singleton.mpr rfl)
  | forIn => exact List.mem_append_left _ (List.mem_singleton.mpr rfl)
  | part inner declares ih => exact inner.varNames_subset ih

mutual

theorem Stmt.declaresVar_of_mem : (statement : Stmt) → name ∈ statement.varNames →
    statement.DeclaresVar name
  | .declaration .var _, declared =>
      have ⟨_, member⟩ := Declarator.mem_namesOf.mp declared
      .declaration member
  | .ifElse _ consequent alternative, declared => by
      rcases List.mem_append.mp declared with first | second
      · exact .part .consequent (consequent.declaresVar_of_mem first)
      · obtain ⟨part, rfl, declares⟩ := Stmt.declaresVar_of_mem_option alternative second
        exact .part .alternative declares
  | .whileLoop _ body, declared => .part .whileBody (body.declaresVar_of_mem declared)
  | .doWhile body _, declared => .part .doBody (body.declaresVar_of_mem declared)
  | .forLoop initial _ _ body, declared => by
      rcases List.mem_append.mp declared with header | turn
      · obtain ⟨part, rfl, declares⟩ := Stmt.declaresVar_of_mem_option initial header
        exact .part .forHeader declares
      · exact .part .forBody (body.declaresVar_of_mem turn)
  | .forOf kind bound _ body, declared => by
      rcases List.mem_append.mp declared with header | turn
      · obtain ⟨rfl, rfl⟩ : kind = some .var ∧ name = bound := by simpa using header
        exact .forOf
      · exact .part .forOfBody (body.declaresVar_of_mem turn)
  | .forIn kind bound _ body, declared => by
      rcases List.mem_append.mp declared with header | turn
      · obtain ⟨rfl, rfl⟩ : kind = some .var ∧ name = bound := by simpa using header
        exact .forIn
      · exact .part .forInBody (body.declaresVar_of_mem turn)
  | .block statements, declared =>
      have ⟨_, member, declares⟩ := Stmt.declaresVar_of_mem_list statements declared
      .part (.block member) declares
  | .tryBlock tried _ handler finalizer, declared => by
      rcases List.mem_append.mp declared with early | last
      · rcases List.mem_append.mp early with first | caught
        · obtain ⟨part, member, declares⟩ := Stmt.declaresVar_of_mem_list tried first
          exact .part (.tried member) declares
        · obtain ⟨statements, rfl, part, member, declares⟩ :=
            Stmt.declaresVar_of_mem_optionList handler caught
          exact .part (.handler member) declares
      · obtain ⟨statements, rfl, part, member, declares⟩ :=
          Stmt.declaresVar_of_mem_optionList finalizer last
        exact .part (.finalizer member) declares

theorem Stmt.declaresVar_of_mem_option : (statement : Option Stmt) →
    name ∈ Stmt.varNamesOfOption statement →
      ∃ part, statement = some part ∧ part.DeclaresVar name
  | some part, declared => ⟨part, rfl, part.declaresVar_of_mem declared⟩

theorem Stmt.declaresVar_of_mem_list : (statements : List Stmt) →
    name ∈ Stmt.varNamesOfList statements → ∃ part ∈ statements, part.DeclaresVar name
  | first :: rest, declared => by
      rcases List.mem_append.mp declared with here | later
      · exact ⟨first, List.mem_cons_self, first.declaresVar_of_mem here⟩
      · obtain ⟨part, member, declares⟩ := Stmt.declaresVar_of_mem_list rest later
        exact ⟨part, List.mem_cons_of_mem _ member, declares⟩

theorem Stmt.declaresVar_of_mem_optionList : (statements : Option (List Stmt)) →
    name ∈ Stmt.varNamesOfOptionList statements →
      ∃ parts, statements = some parts ∧ ∃ part ∈ parts, part.DeclaresVar name
  | some parts, declared => ⟨parts, rfl, Stmt.declaresVar_of_mem_list parts declared⟩

end

/-- The names that a body hoists are those that `var` declares in it. -/
theorem Stmt.mem_varNamesOfList_iff {statements : List Stmt} :
    name ∈ varNamesOfList statements ↔ ∃ statement ∈ statements, statement.DeclaresVar name :=
  ⟨declaresVar_of_mem_list statements, fun ⟨statement, member, declares⟩ =>
    mem_varNamesOfList.mpr ⟨statement, member, declares.mem_varNames⟩⟩

end

/-! ## Bindings -/

/-- The operation reads or writes a binding of the name in that scope. -/
inductive Operation.Touches (m : Machine) (name : String) (place : ScopeId) : Operation → Prop where
  | lookup {scope} (found : m.resolve scope name = some place) :
      Touches m name place (.lookup scope name)
  | resolves {scope} (found : m.resolve scope name = some place) :
      Touches m name place (.resolves scope name)
  | assign {scope value} (found : (m.resolve scope name).getD globalScope = place) :
      Touches m name place (.assign scope name value)
  | declare {value isMutable} : Touches m name place (.declare place name value isMutable)
  | declareMissing {scope names} (member : name ∈ names) (found : m.functionScopeOf scope = place) :
      Touches m name place (.declareMissing scope names)

def Event.Touches (m : Machine) (name : String) (place : ScopeId) : Event → Prop
  | .performed op _ _ => op.Touches m name place
  | _ => False

/-- The operation binds names without looking any up. -/
def Operation.declares : Operation → Bool
  | .declare _ _ _ _ => true
  | .declareMissing _ _ => true
  | _ => false

/-- The scope has been made for a call. -/
structure Machine.CallScope (now : Machine) (home : ScopeId) : Prop where
  made : home < now.scopes.size
  isFunction : (now.scopeAt home).isFunction = true

/-- The scope has been made for a call, and binds the name. -/
structure Machine.Hosts (now : Machine) (home : ScopeId) (name : String) : Prop
    extends now.CallScope home where
  binds : (now.scopeAt home).binds name = true

section

variable {m now after : Machine} {home scope place : ScopeId} {name : String}

theorem Machine.Later.isFunction_eq (later : m.Later after) (made : scope < m.scopes.size) :
    (after.scopeAt scope).isFunction = (m.scopeAt scope).isFunction := by
  obtain ⟨s, found, -, same⟩ := later.scope (Machine.found_of_made made)
  rw [Machine.scopeAt_of_found found, same]

theorem Machine.CallScope.gains {may : ScopeId → String → Prop} (call : m.CallScope home)
    (gains : m.Gains may now) : now.CallScope home where
  made := Nat.lt_of_lt_of_le call.made gains.grown
  isFunction := (gains.later.isFunction_eq call.made).trans call.isFunction

theorem Machine.Hosts.onward (hosts : m.Hosts home name) (onward : m.Onward now) :
    now.Hosts home name where
  toCallScope := hosts.toCallScope.gains onward.gains
  binds := onward.gains.binds hosts.made hosts.binds

/-- The way outward goes no further than the first function scope. -/
theorem Machine.Inside.functionScopeOf (inside : m.Inside home scope) (arena : m.Arena)
    (call : m.CallScope home) : m.Inside home (m.functionScopeOf scope) := by
  have within {bound : Nat} (enough : scope < bound) :
      m.Inside home (m.functionScopeWithin bound scope) := by
    induction inside generalizing bound with
    | here made =>
        obtain ⟨bound, rfl⟩ := Nat.exists_eq_add_one.mpr (Nat.zero_lt_of_lt enough)
        rw [functionScopeWithin, if_pos call.isFunction]
        exact .here made
    | @outer scope parent made inner rest ih =>
        obtain ⟨bound, rfl⟩ := Nat.exists_eq_add_one.mpr (Nat.zero_lt_of_lt enough)
        have older := arena.parent_lt_of_made made inner
        rw [functionScopeWithin]
        split
        · exact .outer made inner rest
        · simp only [inner]
          exact ih (Nat.lt_of_lt_of_le older (Nat.le_of_lt_succ enough))
  exact within inside.made

/-- What is done inside touches the name inside, once it is bound there. -/
theorem Operation.Touches.inside {op : Operation} (touches : op.Touches m name place)
    (arena : m.Arena) (call : m.CallScope home) (within : ∀ scope ∈ op.at?, m.Inside home scope)
    (settled : op.declares = true ∨ (m.scopeAt home).binds name = true) : m.Inside home place := by
  have stops {scope : ScopeId} (inside : m.Inside home scope)
      (settled : (m.scopeAt home).binds name = true) :
      ∃ bound, m.Inside home bound ∧ m.resolve scope name = some bound :=
    inside.resolve arena settled
  cases touches with
  | lookup found | resolves found =>
      obtain ⟨bound, inside, resolved⟩ := stops (within _ rfl) (settled.resolve_left nofun)
      cases resolved.symm.trans found
      exact inside
  | assign found =>
      obtain ⟨bound, inside, resolved⟩ := stops (within _ rfl) (settled.resolve_left nofun)
      rw [resolved] at found
      exact found ▸ inside
  | declare => exact within place rfl
  | declareMissing member found => exact found ▸ (within _ rfl).functionScopeOf arena call

end

section

variable {env : Environment} {m : Machine} {place : ScopeId} {name : String}

theorem Scope.findIn_bindIn_of_ne {other : String} (differ : name ≠ other)
    (bindings : List (String × Binding)) (binding : Binding) :
    findIn (bindIn bindings other binding) name = findIn bindings name := by
  induction bindings with
  | nil => simp [bindIn, findIn, Ne.symm differ]
  | cons entry rest ih =>
      by_cases same : entry.1 = other
      · simp [bindIn, findIn, same, Ne.symm differ]
      · simp [bindIn, findIn, same, ih]

theorem Machine.find?_declare_of_apart {target : ScopeId} {other : String}
    (apart : place = target → name ≠ other) (value : Value) (isMutable : Bool) :
    ((m.declare target other value isMutable).scopeAt place).find? name =
      (m.scopeAt place).find? name := by
  rw [scopeAt_declare]
  split
  · next here => exact Scope.findIn_bindIn_of_ne (apart here.1) ..
  · rfl

theorem Machine.find?_declareAllMissing_of_notMem {scope : ScopeId} {names : List String}
    (missing : name ∉ names) : ((m.declareAllMissing scope names).scopeAt place).find? name =
      (m.scopeAt place).find? name := by
  simp only [declareAllMissing]
  generalize m.functionScopeOf scope = target
  induction names generalizing m with
  | nil => rfl
  | cons first rest ih =>
      obtain ⟨other, missing⟩ := not_or.mp (List.mem_cons.not.mp missing)
      refine (ih (m := m.declareMissing target first) missing).trans ?_
      unfold declareMissing
      split
      · rfl
      · exact find?_declare_of_apart (fun _ => other) ..

theorem Machine.binds_of_resolveWithin {bound : Nat} {scope found : ScopeId}
    (resolved : m.resolveWithin name bound scope = some found) :
    (m.scopeAt found).binds name = true := by
  induction bound generalizing scope with
  | zero => cases resolved
  | succ bound ih =>
      rw [resolveWithin] at resolved
      split at resolved
      · next binds =>
        cases resolved
        exact binds
      · split at resolved
        · exact ih resolved
        · cases resolved

/-- A new scope binds nothing, as if it were missing still. -/
theorem Machine.find?_push (m : Machine) (outer : ScopeId) (isFunction : Bool) :
    (({ m with scopes := m.scopes.push (.fresh (some outer) isFunction) } : Machine).scopeAt
      place).find? name = (m.scopeAt place).find? name := by
  rcases Nat.lt_trichotomy place m.scopes.size with made | rfl | beyond
  · simp [scopeAt, Array.getD_eq_getD_getElem?, Array.getElem?_push_lt, made]
  · rw [scopeAt_of_found Array.getElem?_push_size, scopeAt_of_missing (Nat.lt_irrefl _)]
    rfl
  · rw [scopeAt_of_missing (Nat.not_lt.mpr (Nat.le_of_lt beyond)), scopeAt_of_missing]
    rw [Array.size_push]
    exact Nat.not_lt.mpr beyond

/-- A binding that an operation does not touch stays as it is. -/
theorem Operation.find?_untouched {op : Operation} (untouched : ¬ op.Touches m name place) :
    ((op.run env m).machine.scopeAt place).find? name = (m.scopeAt place).find? name := by
  cases op with
  | declare scope other value isMutable =>
      refine Machine.find?_declare_of_apart ?_ value isMutable
      rintro rfl rfl
      exact untouched .declare
  | declareMissing scope names =>
      by_cases member : name ∈ names
      · have other : place ≠ m.functionScopeOf scope := by
          rintro rfl
          exact untouched (.declareMissing member rfl)
        exact congrArg (·.find? name) (Machine.scopeAt_declareAllMissing_of_ne other names)
      · exact Machine.find?_declareAllMissing_of_notMem member
  | assign scope other value =>
      have apart : place = (m.resolve scope other).getD globalScope → name ≠ other := by
        rintro rfl rfl
        exact untouched (.assign rfl)
      simp only [run, Action.assign]
      split
      · split
        · exact Machine.find?_declare_of_apart apart ..
        · rfl
      · next missing =>
        refine Machine.find?_declare_of_apart ?_ ..
        cases resolved : m.resolve scope other with
        | none => simpa [resolved] using apart
        | some found =>
            -- The scope where a name is found binds it.
            have binds := Machine.binds_of_resolveWithin resolved
            rw [resolved] at missing
            rw [Scope.binds, show (m.scopeAt found).find? other = none from missing] at binds
            cases binds
  | newScope parent isFunction => exact m.find?_push parent isFunction
  | lookup scope other => rw [lookup_machine]
  | resolves | newClosure => rfl
  | _ => rw [Machine.scopeAt, Machine.scopeAt, scopes_kept rfl]

/-- What a name stands for does not depend on a binding that is not touched. -/
theorem Machine.binding?_untouched {scope : ScopeId} {other : String}
    (untouched : ¬ (Operation.lookup scope other).Touches m name place)
    (binds : (m.scopeAt place).binds name = true) (value : Value) (isMutable : Bool) :
    (m.declare place name value isMutable).binding? scope other = m.binding? scope other := by
  have same (found : ScopeId) :
      ((m.declare place name value isMutable).scopeAt found).binds other =
        (m.scopeAt found).binds other ∧
      ((m.declare place name value isMutable).scopeAt found).parent = (m.scopeAt found).parent := by
    rw [scopeAt_declare]
    split
    · next here =>
      refine ⟨?_, rfl⟩
      rw [Bool.eq_iff_iff, Scope.binds_iff, Scope.binds_iff, Scope.names_bind, here.1,
        if_pos ((Scope.binds_iff _ name).mp binds), List.append_nil]
    · exact ⟨rfl, rfl⟩
  have resolves (bound : Nat) (scope : ScopeId) :
      (m.declare place name value isMutable).resolveWithin other bound scope =
        m.resolveWithin other bound scope := by
    induction bound generalizing scope with
    | zero => rfl
    | succ bound ih => simp only [resolveWithin, same, ih]
  have size : (m.declare place name value isMutable).scopes.size = m.scopes.size := by
    simp [declare, modifyScope]
  unfold binding? resolve
  rw [resolves, size]
  cases found : m.resolveWithin other m.scopes.size scope with
  | none => rfl
  | some found =>
      refine find?_declare_of_apart ?_ value isMutable
      rintro rfl rfl
      exact untouched (.lookup found)

end

/-! ## The beginning of a call -/

theorem Machine.binds_declareMissing {m : Machine} {target : ScopeId} {name first : String}
    (made : target < m.scopes.size)
    (bound : (m.scopeAt target).binds name = true ∨ name = first) :
    ((m.declareMissing target first).scopeAt target).binds name = true := by
  unfold declareMissing
  split
  · next held =>
    rcases bound with bound | rfl
    · exact bound
    · exact held
  · rw [scopeAt_declare, if_pos ⟨rfl, made⟩, Scope.binds_iff, Scope.names_bind]
    rcases bound with bound | rfl
    · exact List.mem_append_left _ ((Scope.binds_iff ..).mp bound)
    · rw [List.mem_append]
      split
      · next member => exact .inl member
      · exact .inr (List.mem_singleton.mpr rfl)

/-- Hoisted names are bound in the function scope. -/
theorem Machine.binds_declareAllMissing {m : Machine} {scope : ScopeId} {names : List String}
    {name : String} (made : m.functionScopeOf scope < m.scopes.size) (member : name ∈ names) :
    ((m.declareAllMissing scope names).scopeAt (m.functionScopeOf scope)).binds name = true := by
  simp only [declareAllMissing]
  generalize m.functionScopeOf scope = target at made
  have settled : (m.scopeAt target).binds name = true ∨ name ∈ names := .inr member
  clear member
  induction names generalizing m with
  | nil => exact settled.resolve_right List.not_mem_nil
  | cons first rest ih =>
      refine ih (m := m.declareMissing target first) ?_ ?_
      · unfold declareMissing
        split
        · exact made
        · simpa [declare, modifyScope] using made
      · rw [List.mem_cons, ← or_assoc] at settled
        exact settled.imp_left (binds_declareMissing made)

/-- The event binds names in the scope, and no part is asked for. -/
def Event.Binds (home : ScopeId) (event : Event) : Prop :=
  ∃ op error? after, event = .performed op error? after ∧ op.declares = true ∧ op.at? = some home

section

variable {env : Environment} {m : Machine} {home : ScopeId}
  {answer : (task : Task) → Environment → Machine → Ledger task.Answer}

/-- Parameters are bound one after the other, and nothing else happens. -/
theorem bindParameters_binds (parameters : List String) (arguments : List Value) {m : Machine}
    (call : m.CallScope home) :
    let read := (bindParameters home parameters arguments).ledger answer env m
    (∀ event ∈ read.events, event.Binds home) ∧
      read.outcome = .ok () (m.replay read.events) ∧ (m.replay read.events).CallScope home := by
  induction parameters generalizing arguments m with
  | nil => exact ⟨List.forall_mem_nil _, rfl, call⟩
  | cons name rest ih =>
      have step (value : Value) (others : List Value) {read : Ledger Unit}
          (split : read = (Ledger.single (.performed (.declare home name value true) none
            (m.declare home name value true)) (.ok () (m.declare home name value true))).andThen
              fun _ m => (bindParameters home rest others).ledger answer env m) :
          (∀ event ∈ read.events, event.Binds home) ∧
            read.outcome = .ok () (m.replay read.events) ∧
            (m.replay read.events).CallScope home := by
        have gains : m.Gains (fun _ _ => True) (m.declare home name value true) :=
          m.gains_declare value true fun _ => trivial
        obtain ⟨binds, ended, further⟩ := ih others (call.gains gains)
        subst split
        exact ⟨List.forall_mem_cons.mpr ⟨⟨_, _, _, rfl, rfl, rfl⟩, binds⟩, ended, further⟩
      cases arguments with
      | nil => exact step .undefined [] rfl
      | cons value others => exact step value others rfl

/-- The machine with one more scope, made for a call. -/
def Machine.openCall (m : Machine) (outer : ScopeId) : Machine :=
  { m with scopes := m.scopes.push (.fresh (some outer) true) }

theorem Machine.callScope_openCall (m : Machine) (outer : ScopeId) :
    (m.openCall outer).CallScope m.scopes.size where
  made := by simp [openCall]
  isFunction := by
    have record : (m.openCall outer).scopeAt m.scopes.size = .fresh (some outer) true :=
      Machine.scopeAt_of_found Array.getElem?_push_size
    rw [record]
    rfl

/-- What a call does in its scope. -/
def callBody (home : ScopeId) (parameters : List String) (statements : List Stmt)
    (arguments : List Value) : Eval Value := do
  bindParameters home parameters arguments
  operate (.declareMissing home (Stmt.varNamesOfList statements))
  hoistFunctions statements home
  runBody home statements

section

variable {under : List Task} {statements : List Stmt}

/-- A call of a function with a block makes a scope, and does the rest there. -/
theorem events_invoke_of_block {closure : Closure}
    (block : closure.definition.body = .block statements) (arguments : List Value) :
    ((invoke closure arguments).ledger answer env m).events =
      .performed (.newScope closure.scope true) none (m.openCall closure.scope) ::
        ((callBody m.scopes.size closure.definition.parameters statements arguments).ledger answer
          env (m.openCall closure.scope)).events := by
  simp only [invoke, block]
  rfl

theorem callBody_actsAt (home : ScopeId) (parameters : List String) (statements : List Stmt)
    (arguments : List Value) : (callBody home parameters statements arguments).ActsAt home := by
  have missing : (operate (.declareMissing home (Stmt.varNamesOfList statements))).ActsAt home :=
    operate_actsAt fun _ found => (Option.some.inj found).symm
  exact (bindParameters_actsAt parameters arguments).bind fun _ => missing.bind fun _ =>
    (declareFunctions_actsAt _).bind fun _ => runBody_actsAt statements

/-- First of all what a function declares is bound in the scope of the call. -/
theorem callBody_hosts (call : m.CallScope home) (parameters : List String)
    (statements : List Stmt) (arguments : List Value) :
    ∃ opening rest,
      ((callBody home parameters statements arguments).ledger answer env m).events = opening ++ rest ∧
      (∀ event ∈ opening, event.Binds home) ∧
      ∀ name ∈ Stmt.varNamesOfList statements, (m.replay opening).Hosts home name := by
  let last : Eval Value := do
    hoistFunctions statements home
    runBody home statements
  let read := (bindParameters home parameters arguments).ledger answer env m
  obtain ⟨binds, ended, call⟩ : (∀ event ∈ read.events, event.Binds home) ∧
      read.outcome = .ok () (m.replay read.events) ∧ (m.replay read.events).CallScope home :=
    bindParameters_binds _ _ call
  generalize bound_eq : m.replay read.events = bound at ended call
  let hoisted := bound.declareAllMissing home (Stmt.varNamesOfList statements)
  let hoisting : Event := .performed (.declareMissing home (Stmt.varNamesOfList statements)) none hoisted
  have events : ((callBody home parameters statements arguments).ledger answer env m).events =
      read.events ++ [hoisting] ++ (last.ledger answer env hoisted).events := by
    simp only [callBody, last, Eval.ledger_bind]
    rw [Ledger.events_andThen_ok ended, List.append_assoc]
    rfl
  refine ⟨_, _, events, List.forall_mem_append.mpr
    ⟨binds, List.forall_mem_singleton.mpr ⟨_, _, _, rfl, rfl, rfl⟩⟩, fun name member => ?_⟩
  rw [m.replay_append, bound_eq]
  have itself : bound.functionScopeOf home = home :=
    Machine.functionScopeOf_eq_self (Machine.found_of_made call.made) call.isFunction
  have settled := Machine.binds_declareAllMissing (itself.symm ▸ call.made) member
  rw [itself] at settled
  have gains : bound.Gains (fun _ _ => True) hoisted :=
    bound.gains_declareAllMissing fun _ _ => trivial
  exact ⟨call.gains gains, settled⟩

/-- A call of a function with a block makes the scope of the call, binds there what the
    function declares, and does all the rest inside. -/
theorem invoke_opens (answers : ∀ task m, (∀ scope ∈ task.at?, m.Inside home scope) →
      (answer task env m).Own env home under m)
    {closure : Closure} (block : closure.definition.body = .block statements)
    (arguments : List Value) (here : home = m.scopes.size) :
    let opened := m.openCall closure.scope
    ∃ opening rest, ((invoke closure arguments).ledger answer env m).events =
        .performed (.newScope closure.scope true) none opened :: (opening ++ rest) ∧
      opened.CallScope home ∧ (∀ event ∈ opening, event.Binds home) ∧
      (∀ name ∈ Stmt.varNamesOfList statements, (opened.replay opening).Hosts home name) ∧
      OwnTrace env home under opened (opening ++ rest) := by
  intro opened
  have call : opened.CallScope home := here ▸ m.callScope_openCall closure.scope
  have invoked : ((invoke closure arguments).ledger answer env m).events =
      .performed (.newScope closure.scope true) none opened ::
        ((callBody home closure.definition.parameters statements arguments).ledger answer env
          opened).events :=
    here ▸ events_invoke_of_block block arguments
  obtain ⟨opening, rest, events, binds, hosts⟩ :=
    callBody_hosts call closure.definition.parameters statements arguments
  have own := Eval.ledger_own_of_actsAt answers
    (callBody_actsAt home closure.definition.parameters statements arguments) (.here call.made)
  exact ⟨opening, rest, events ▸ invoked, call, binds, hosts, events ▸ own.trace⟩

end

end

/-! ## Code of a call -/

theorem untilLeft_prefix_append (part rest : List Event) (opened : Nat) :
    untilLeft part opened <+: untilLeft (part ++ rest) opened := by
  induction part generalizing opened with
  | nil => exact List.nil_prefix
  | cons event part ih =>
      cases event with
      | left =>
          cases opened with
          | zero => exact List.nil_prefix
          | succ opened => exact (List.prefix_cons_inj _).mpr (ih _)
      | _ => exact (List.prefix_cons_inj _).mpr (ih _)

theorem ownEvents_append_subset (calls : Nat) (m : Machine) (first second : List Event) :
    ownEvents calls m first ⊆ ownEvents calls m (first ++ second) := by
  induction first generalizing calls m with
  | nil => exact List.nil_subset _
  | cons event rest ih =>
      rw [List.cons_append, ownEvents, ownEvents]
      split
      · exact List.cons_subset_cons _ (ih _ _)
      · exact ih _ _

/-- What a task has done itself so far. -/
def doneSoFar (m : Machine) (part : List Event) : List (Event × Machine) :=
  ownEvents 0 m (untilLeft part 0)

theorem doneSoFar_subset (m : Machine) (part rest : List Event) :
    doneSoFar m part ⊆ doneSoFar m (part ++ rest) := by
  obtain ⟨more, whole⟩ := untilLeft_prefix_append part rest 0
  unfold doneSoFar
  rw [← whole]
  exact ownEvents_append_subset 0 m _ more

/-- What has been done so far has been done at some point before. -/
theorem exists_split_of_mem_doneSoFar {m : Machine} {part : List Event} {entry : Event × Machine}
    (done : entry ∈ doneSoFar m part) :
    ∃ before later, part = before ++ entry.1 :: later ∧ entry.2 = m.replay before ∧
      before ++ [entry.1] <+: untilLeft part 0 := by
  obtain ⟨before, later, split, found⟩ := exists_split_of_mem_ownEvents done
  obtain ⟨behind, whole⟩ := untilLeft_prefix part 0
  refine ⟨before, later ++ behind, ?_, found, later, ?_⟩
  · rw [← whole, split, List.append_assoc, List.cons_append]
  · rw [split, List.append_assoc, List.singleton_append]

/-- A call is entered behind these events: the one that is entered behind `start`, or that of
    a closure that has been made by code of such a call before. -/
inductive Errand.CodeOf (env : Environment) (m : Machine) (errand : Errand) (start : List Event) :
    List Event → Prop where
  | itself : CodeOf env m errand start start
  | closure {past part later task under definition scope error? after found arguments under'}
      (code : CodeOf env m errand start past)
      (split : errand.events env m = past ++ .entered task under :: (part ++
        .entered (.call (.closure ⟨found.identities, definition, scope⟩) arguments) under' :: later))
      (made : (.performed (.newClosure definition scope) error? after, found) ∈
        doneSoFar (m.replay (past ++ [.entered task under])) part) :
      CodeOf env m errand start (past ++ .entered task under :: part)

/-- Whatever an errand comes to leads onward. -/
def Errand.LeadsOn (env : Environment) (m : Machine) (errand : Errand) : Prop :=
  ∀ first second rest, errand.events env m = first ++ (second ++ rest) →
    (m.replay first).Onward (m.replay (first ++ second))

theorem Session.leadsOn {env : Environment} {host : Host} {m : Machine} {shown : List Value}
    (own : ∀ value, host.gives value → value.scopes = []) (session : Session env host m shown)
    {errand : Errand} (permitted : errand.Permitted host shown) : errand.LeadsOn env m := by
  intro first second rest split
  rw [m.replay_append]
  exact session.onward own permitted split second (List.prefix_append second rest)

/-- Whatever the event touches of the name is inside.  A closure that it makes belongs inside,
    and is made when the name is settled. -/
structure Machine.KeepsInside (m : Machine) (settled : List Event) (home : ScopeId) (name : String)
    (reached : List Event) (entry : Event × Machine) : Prop where
  touches : ∀ place, entry.1.Touches entry.2 name place → entry.2.Inside home place ∧ home ≤ place
  makes : ∀ definition scope error? after,
    entry.1 = .performed (.newClosure definition scope) error? after →
      settled <+: reached ∧ (m.replay reached).Inside home scope

/-- The task that is entered there keeps inside, as far as it gets. -/
def Errand.Shelters (env : Environment) (m : Machine) (errand : Errand) (settled : List Event)
    (home : ScopeId) (name : String) (past : List Event) : Prop :=
  ∀ task under part rest, errand.events env m = past ++ .entered task under :: (part ++ rest) →
    ∀ entry ∈ doneSoFar (m.replay (past ++ [.entered task under])) part,
      m.KeepsInside settled home name (past ++ .entered task under :: part) entry

section

variable {env : Environment} {m : Machine} {errand : Errand} {home : ScopeId} {name : String}
  {settled past : List Event}

/-- What is done inside at such a point keeps to the region. -/
theorem Machine.Onward.keeps {since now : Machine} (onward : since.Onward now)
    (call : since.CallScope home) {event : Event} (within : ∀ scope ∈ event.at?, now.Inside home scope)
    (bound : event.Binds home ∨ (now.scopeAt home).binds name = true) {place : ScopeId}
    (touches : event.Touches now name place) : now.Inside home place ∧ home ≤ place := by
  cases event with
  | performed op error? after =>
      have settled : op.declares = true ∨ (now.scopeAt home).binds name = true := by
        refine bound.imp_left ?_
        rintro ⟨op', _, _, same, declares, -⟩
        cases same
        exact declares
      have inside := Operation.Touches.inside touches onward.arena (call.gains onward.gains) within
        settled
      exact ⟨inside, inside.le onward.arena⟩
  | _ => cases touches

/-- Making a scope touches no name. -/
theorem Machine.KeepsInside.of_newScope {reached : List Event} {entry : Event × Machine}
    {parent : ScopeId} {isFunction : Bool} {error? : Option ScriptError} {after : Machine}
    (opens : entry.1 = .performed (.newScope parent isFunction) error? after) :
    m.KeepsInside settled home name reached entry := by
  constructor
  · intro place touches
    rw [opens] at touches
    cases touches
  · intro definition scope error? after makes
    cases opens.symm.trans makes

/-- What is done inside keeps inside, when it binds names or when the name is settled. -/
theorem Errand.LeadsOn.keepsInside (leads : errand.LeadsOn env m)
    (start before behind rest : List Event) {entry : Event × Machine}
    (split : errand.events env m = start ++ (before ++ (entry.1 :: behind ++ rest)))
    (found : entry.2 = m.replay (start ++ before)) (call : (m.replay start).CallScope home)
    (hosts : (m.replay settled).Hosts home name)
    (within : ∀ scope ∈ entry.1.at?, entry.2.Inside home scope)
    (bound : entry.1.Binds home ∨ settled <+: start ++ before) :
    m.KeepsInside settled home name (start ++ (before ++ entry.1 :: behind)) entry := by
  constructor
  · intro place touches
    have onward : (m.replay start).Onward entry.2 := found ▸ leads start before _ split
    refine onward.keeps call within (bound.imp_right fun since => ?_) touches
    obtain ⟨more, reached⟩ := since
    rw [← List.append_assoc, ← reached, List.append_assoc] at split
    have settles : (m.replay settled).Onward entry.2 := by
      rw [found, ← reached]
      exact leads settled more _ split
    exact (hosts.onward settles).binds
  · intro definition scope error? after makes
    rcases bound with ⟨op, _, _, same, declares, -⟩ | since
    · cases makes.symm.trans same
      cases declares
    · have here : entry.2.Inside home scope := within scope (by rw [makes]; rfl)
      rw [← List.append_assoc] at split ⊢
      have further := leads (start ++ before) (entry.1 :: behind) rest split
      rw [← found] at further
      exact ⟨since.trans (List.prefix_append ..), here.later further.gains.later⟩

/-- A closure inside does all inside. -/
theorem Errand.shelters_closure (leads : errand.LeadsOn env m)
    (hosts : (m.replay settled).Hosts home name) (since : settled <+: past) {closure : Closure}
    {arguments : List Value} {under : List Task} {later : List Event}
    (split : errand.events env m = past ++ .entered (.call (.closure closure) arguments) under :: later)
    (inside : (m.replay past).Inside home closure.scope) :
    errand.Shelters env m settled home name past := by
  intro task under' part rest split' entry done
  obtain ⟨same, rfl⟩ := List.cons.inj (List.append_cancel_left (split.symm.trans split'))
  cases same
  let entered : Event := .entered (.call (.closure closure) arguments) under
  have within : (m.replay (past ++ [entered])).Inside home closure.scope :=
    inside.later (leads past [entered] (part ++ rest) split').gains.later
  have does : errand.Does env m home entry :=
    ⟨past, _, under, part ++ rest, closure.scope, split', rfl, within,
      doneSoFar_subset _ part rest done⟩
  obtain ⟨before, behind, rfl, found, -⟩ := exists_split_of_mem_doneSoFar done
  rw [← m.replay_append, List.append_assoc] at found
  obtain ⟨more, rfl⟩ := since
  have keeps := leads.keepsInside settled (more ++ [entered] ++ before) behind rest
    (by simp [split', entered]) (by simpa using found) hosts.toCallScope hosts does.inside
    (.inr (List.prefix_append ..))
  simpa [entered] using keeps

/-- A task keeps inside that begins with making the scope and binding the name there. -/
theorem Errand.keepsInside_opening (leads : errand.LeadsOn env m) {entered : Event}
    {part rest opening body : List Event} {under : List Task} {parent : ScopeId} {opened : Machine}
    (split : errand.events env m = past ++ entered :: (part ++ rest))
    (events : untilLeft (part ++ rest) 0 =
      .performed (.newScope parent true) none opened :: (opening ++ body))
    (call : opened.CallScope home) (binds : ∀ event ∈ opening, event.Binds home)
    (hosts : (opened.replay opening).Hosts home name)
    (own : OwnTrace env home under opened (opening ++ body)) {entry : Event × Machine}
    (done : entry ∈ doneSoFar (m.replay (past ++ [entered])) part) :
    m.KeepsInside (past ++ entered :: .performed (.newScope parent true) none opened :: opening)
      home name (past ++ entered :: part) entry := by
  let opens : Event := .performed (.newScope parent true) none opened
  have begun : m.replay (past ++ [entered, opens]) = opened := by
    rw [m.replay_append]
    rfl
  have among := doneSoFar_subset (m.replay (past ++ [entered])) part rest done
  rw [doneSoFar, events, ownEvents_cons] at among
  rcases List.mem_cons.mp among with first | among
  · exact .of_newScope (congrArg Prod.fst first)
  have within : ∀ scope ∈ entry.1.at?, entry.2.Inside home scope := own.ownEvents_inside entry among
  obtain ⟨before, behind, rfl, found, front⟩ := exists_split_of_mem_doneSoFar done
  obtain ⟨more, same⟩ := front.trans (untilLeft_prefix_append _ rest 0)
  rw [events, List.append_assoc, List.singleton_append] at same
  cases before with
  | nil => exact .of_newScope (List.cons.inj same).1
  | cons first before =>
      obtain ⟨rfl, others⟩ := List.cons.inj same
      -- Parameters are bound, or names are hoisted, or all of that is done.
      have bound : entry.1.Binds home ∨
          past ++ entered :: opens :: opening <+: past ++ [entered, opens] ++ before := by
        rcases split_append others.symm with ⟨_, early, -⟩ | ⟨since, rfl, -⟩
        · exact .inl (binds _ (early ▸ List.mem_append_right _ List.mem_cons_self))
        · exact .inr ⟨since, by simp⟩
      have settles : (m.replay (past ++ entered :: opens :: opening)).Hosts home name := by
        rwa [← begun, ← m.replay_append, List.append_assoc] at hosts
      have reached : entry.2 = m.replay (past ++ [entered, opens] ++ before) := by
        rw [found, ← m.replay_append, List.append_assoc, List.append_assoc]
        rfl
      have keeps := leads.keepsInside (past ++ [entered, opens]) before behind rest
        (by simp [split, opens]) reached (begun.symm ▸ call) settles within bound
      simpa using keeps

/-- With the call all code of the call keeps inside. -/
theorem Errand.CodeOf.shelters {start : List Event} (leads : errand.LeadsOn env m)
    (hosts : (m.replay settled).Hosts home name)
    (begins : errand.Shelters env m settled home name start)
    (code : errand.CodeOf env m start past) : errand.Shelters env m settled home name past := by
  induction code with
  | itself => exact begins
  | @closure past part later task under definition scope error? after found arguments under' code
      split made ih =>
      obtain ⟨since, inside⟩ := (ih task under part _ split _ made).makes definition scope _ _ rfl
      have called : errand.events env m = (past ++ .entered task under :: part) ++
          .entered (.call (.closure ⟨found.identities, definition, scope⟩) arguments) under' ::
            later := by
        rw [split, List.append_assoc]
        rfl
      exact Errand.shelters_closure leads hosts since called inside

end

/-! ## Sessions -/

/-- Whenever a function with a block is called in any session, the call begins with a scope of
    its own.  Whatever the call and the closures that come of it do themselves, from
    beginning to end: what they read or write of a name that `var` declares in the
    block is in that scope or in one inside it, which has been made since. -/
theorem Session.names_sheltered {env : Environment} {host : Host} {m : Machine}
    {shown : List Value} (own : ∀ value, host.gives value → value.scopes = [])
    (session : Session env host m shown) {errand : Errand} (permitted : errand.Permitted host shown)
    {before later : List Event} {under : List Task} {closure : Closure} {arguments : List Value}
    {statements : List Stmt} {name : String}
    (split : errand.events env m = before ++ .entered (.call (.closure closure) arguments) under :: later)
    (block : closure.definition.body = .block statements)
    (declared : ∃ statement ∈ statements, statement.DeclaresVar name) :
    let begun := m.replay (before ++ [.entered (.call (.closure closure) arguments) under])
    let home := begun.scopes.size
    (∃ opened rest, untilLeft later 0 = .performed (.newScope closure.scope true) none opened :: rest ∧
      opened.scopes = begun.scopes.push (.fresh (some closure.scope) true)) ∧
    ∀ past task under' later', errand.CodeOf env m before past →
      errand.events env m = past ++ .entered task under' :: later' →
      ∀ entry ∈ ownEvents 0 (m.replay (past ++ [.entered task under'])) (untilLeft later' 0),
        ∀ place, entry.1.Touches entry.2 name place → entry.2.Inside home place ∧ home ≤ place := by
  intro begun home
  obtain ⟨α, eval, history⟩ := errand.exists_history env m
  obtain ⟨rank, inner⟩ := eval.history_opens env m (history ▸ split)
  obtain ⟨opening, body, events, call, binds, hosts, inside⟩ := invoke_opens
    (Task.ledger_own rank (.call (.closure closure) arguments :: under)) block arguments
    (rfl : home = begun.scopes.size)
  let opened := begun.openCall closure.scope
  have opens := inner.trans events
  have leads := session.leadsOn own permitted
  have hosts := hosts name (Stmt.mem_varNamesOfList_iff.mpr declared)
  refine ⟨⟨_, _, opens, rfl⟩, fun past task under' later' code split' entry done place touches => ?_⟩
  let settled := before ++ .entered (.call (.closure closure) arguments) under ::
    .performed (.newScope closure.scope true) none opened :: opening
  have begins : errand.Shelters env m settled home name before := by
    intro task under' part rest split' entry done
    obtain ⟨same, rfl⟩ := List.cons.inj (List.append_cancel_left (split.symm.trans split'))
    cases same
    exact Errand.keepsInside_opening leads split' opens call binds hosts inside done
  have settles : (m.replay settled).Hosts home name := by
    have reached : m.replay settled = opened.replay opening := m.replay_append ..
    exact reached ▸ hosts
  have whole : errand.events env m = past ++ .entered task under' :: (later' ++ []) := by
    rw [split', List.append_nil]
  exact (code.shelters leads settles begins task under' later' [] whole entry done).touches place touches

/-! ## A name that is used before it is declared -/

/-- The variable of the function hides the global one, although its declaration is not reached. -/
def hoisting : String :=
  "var x='a';function f()\x7bx='b';var g=()=>x;if(false)\x7bvar x;\x7dreturn g();\x7dvar r=f();"

def hoistingSettings : Environment :=
  ⟨{ stepBudget := 200 }, fun _ => 0⟩

def reader : FunctionDef :=
  .define none [] (.expression (.identifier "x"))

def isReader : FunctionDef → Bool
  | .define none [] (.expression (.identifier name)) => name == "x"
  | _ => false

theorem eq_reader {definition : FunctionDef} (reads : isReader definition = true) :
    definition = reader := by
  unfold isReader at reads
  split at reads
  · rw [beq_iff_eq.mp reads]
    rfl
  · cases reads

/-- Whether there is an event of which the test holds, given the events before and after. -/
def anyPart (test : List Event → Event → List Event → Bool) : List Event → List Event → Bool
  | _, [] => false
  | part, event :: rest => test part event rest || anyPart test (part ++ [event]) rest

theorem exists_split_of_anyPart {test : List Event → Event → List Event → Bool}
    {part events : List Event} (any : anyPart test part events = true) :
    ∃ between event rest, events = between ++ event :: rest ∧
      test (part ++ between) event rest = true := by
  induction events generalizing part with
  | nil => cases any
  | cons event rest ih =>
      rcases Bool.or_eq_true_iff.mp any with here | further
      · exact ⟨[], event, rest, rfl, by simpa using here⟩
      · obtain ⟨between, found, later, rfl, holds⟩ := ih further
        exact ⟨event :: between, found, later, rfl, by simpa using holds⟩

/-- The reader is made with this identity, in that scope. -/
def makesReader (closure : Closure) (entry : Event × Machine) : Bool :=
  match entry.1 with
  | .performed (.newClosure definition scope) _ _ =>
      isReader definition && closure.identity == entry.2.identities && closure.scope == scope
  | _ => false

theorem closure_of_makesReader {closure : Closure} {entry : Event × Machine}
    (reads : isReader closure.definition = true) (makes : makesReader closure entry = true) :
    closure = ⟨entry.2.identities, reader, closure.scope⟩ ∧
      ∃ error? after, entry.1 = .performed (.newClosure reader closure.scope) error? after := by
  obtain ⟨identity, definition, scope⟩ := closure
  obtain ⟨event, found⟩ := entry
  unfold makesReader at makes
  split at makes
  · next definition' scope' error? after same =>
    simp only [Bool.and_eq_true, beq_iff_eq] at makes
    obtain ⟨⟨reads', rfl⟩, rfl⟩ := makes
    obtain rfl : definition = reader := eq_reader reads
    obtain rfl := eq_reader reads'
    exact ⟨rfl, error?, after, same⟩
  · cases makes

def readsVariable (entry : Event × Machine) : Bool :=
  match entry.1 with
  | .performed (.lookup scope name) _ _ => name == "x" && (entry.2.resolve scope "x").isSome
  | _ => false

theorem touches_of_readsVariable {entry : Event × Machine} (reads : readsVariable entry = true) :
    ∃ place, entry.1.Touches entry.2 "x" place := by
  obtain ⟨event, found⟩ := entry
  unfold readsVariable at reads
  split at reads
  · next scope name error? after same =>
    simp only [Bool.and_eq_true, beq_iff_eq, Option.isSome_iff_exists] at reads
    obtain ⟨rfl, place, resolved⟩ := reads
    refine ⟨place, ?_⟩
    rw [show event = _ from same]
    exact .lookup resolved
  · cases reads

/-- A reader is called that has been made before, and reads the variable. -/
def callsReader (m : Machine) (part : List Event) (event : Event) (rest : List Event) : Bool :=
  match event with
  | .entered (.call (.closure closure) _) _ =>
      isReader closure.definition && (doneSoFar m part).any (makesReader closure) &&
        (ownEvents 0 (m.replay (part ++ [event])) (untilLeft rest 0)).any readsVariable
  | _ => false

theorem exists_parts_of_callsReader {m : Machine} {part rest : List Event} {event : Event}
    (calls : callsReader m part event rest = true) :
    ∃ found scope error? after arguments under,
      event = .entered (.call (.closure ⟨found.identities, reader, scope⟩) arguments) under ∧
      (.performed (.newClosure reader scope) error? after, found) ∈ doneSoFar m part ∧
      ∃ entry ∈ ownEvents 0 (m.replay (part ++ [event])) (untilLeft rest 0),
        ∃ place, entry.1.Touches entry.2 "x" place := by
  unfold callsReader at calls
  split at calls
  · next closure arguments under =>
    simp only [Bool.and_eq_true, List.any_eq_true] at calls
    obtain ⟨⟨reads, ⟨event, found⟩, among, makes⟩, entry, done, reads'⟩ := calls
    obtain ⟨same, error?, after, rfl⟩ := closure_of_makesReader reads makes
    exact ⟨found, closure.scope, error?, after, arguments, under, by rw [← same], among, entry, done,
      touches_of_readsVariable reads'⟩
  · cases calls

/-- A function is called that hoists the variable, and then such a reader is. -/
def callsHoisting (m : Machine) (event : Event) (later : List Event) : Bool :=
  match event with
  | .entered (.call (.closure closure) _) _ =>
      match closure.definition.body with
      | .block statements => (Stmt.varNamesOfList statements).contains "x" &&
          anyPart (callsReader m) [] later
      | .expression _ => false
  | _ => false

theorem names_sheltered_unreached :
    ∃ program, Program.parse hoisting = .ok program ∧
      ∃ before closure arguments under later statements part reader arguments' under' later' entry place,
        let m := Machine.fresh hoistingSettings.limits
        let entered := Event.entered (.call (.closure closure) arguments) under
        let entered' := Event.entered (.call (.closure reader) arguments') under'
        (Errand.run program).events hoistingSettings m = before ++ entered :: later ∧
        closure.definition.body = .block statements ∧
        (∃ statement ∈ statements, statement.DeclaresVar "x") ∧
        later = part ++ entered' :: later' ∧
        (Errand.run program).CodeOf hoistingSettings m before (before ++ entered :: part) ∧
        entry ∈ ownEvents 0 (m.replay (before ++ entered :: part ++ [entered'])) (untilLeft later' 0) ∧
        entry.1.Touches entry.2 "x" place ∧
        (m.replay (before ++ [entered])).scopes.size ≤ place := by
  have calls : anyEvent callsHoisting (.fresh hoistingSettings.limits)
      (eventsOf hoistingSettings hoisting) = true := by
    decide +kernel
  obtain ⟨program, parsed, before, event, later, split, calls⟩ := exists_program_of_anyEvent calls
  have session : Session hoistingSettings Host.anyone (.fresh hoistingSettings.limits) [] := .fresh
  have permitted : (Errand.run program).Permitted Host.anyone [] := trivial
  unfold callsHoisting at calls
  split at calls
  · next closure arguments under =>
    split at calls
    · next statements block =>
      obtain ⟨hoists, reads⟩ := Bool.and_eq_true_iff.mp calls
      have declared := Stmt.mem_varNamesOfList_iff.mp (List.contains_iff_mem.mp hoists)
      obtain ⟨part, event, later', rfl, called⟩ := exists_split_of_anyPart reads
      obtain ⟨found, scope, error?, after, arguments', under', rfl, among, entry, done, place, touches⟩ :=
        exists_parts_of_callsReader called
      rw [List.nil_append] at among done
      have code : (Errand.run program).CodeOf hoistingSettings (.fresh hoistingSettings.limits)
          before (before ++ .entered (.call (.closure closure) arguments) under :: part) :=
        .closure .itself split among
      have split' : (Errand.run program).events hoistingSettings (.fresh hoistingSettings.limits) =
          (before ++ .entered (.call (.closure closure) arguments) under :: part) ++
            .entered (.call (.closure ⟨found.identities, reader, scope⟩) arguments') under' ::
              later' := by
        rw [split, List.append_assoc]
        rfl
      rw [← Machine.replay_append, ← List.append_assoc, List.append_assoc before,
        List.singleton_append] at done
      obtain ⟨-, sheltered⟩ := session.names_sheltered (fun _ own => own) permitted split block declared
      obtain ⟨-, since⟩ := sheltered _ _ _ _ code split' entry done place touches
      exact ⟨program, parsed, before, closure, arguments, under, _, statements, part, _, arguments',
        under', later', entry, place, split, block, declared, rfl, code, done, touches, since⟩
    · cases calls
  · cases calls

end StrategyQubo.Script
