import StrategyQubo.Proofs.ArrayVisits
import StrategyQubo.Proofs.JoinedPieces
import StrategyQubo.Proofs.QuietExpressions

namespace StrategyQubo.Script

/-! # Changed properties

A compound assignment and an update read a property, make a new value of what
they find, and write that.  The owner and the key stay the values that they were
evaluated to once; but the key is put into text again for writing, and the text of
an array or an object may be another by then.
-/

open Eval

/-! ## Parts in turn -/

instance : LawfulMonad Eval := .mk' Eval
  (fun eval => by
    change eval.bind (fun value => .done value) = eval
    induction eval with
    | done value => rfl
    | perform op next ih => exact congrArg _ (funext ih)
    | ask task next ih => exact congrArg _ (funext ih))
  (fun value next => rfl)
  (fun eval next last => by
    change (eval.bind next).bind last = eval.bind fun value => (next value).bind last
    induction eval with
    | done value => rfl
    | perform op rest ih => exact congrArg _ (funext ih)
    | ask task rest ih => exact congrArg _ (funext ih))

section

variable {α β : Type}

/-- A part that is evaluated without an error has been asked for, once. -/
theorem Task.asked_evaluated {rank : Nat} {task : Task} {env : Environment} {m after : Machine}
    {value : task.Answer} (evaluated : task.evaluate rank env m = .ok value after)
    (under : List Task) :
    asked under.length m (task.ledger rank under env m).events = [(task, m)] := by
  cases rank with
  | zero => cases evaluated
  | succ rank => exact task.asked_ledger_succ rank under m

/-- The parts of a task are asked for within it. -/
theorem Task.asked_within {task : Task} {env : Environment} {m found : Machine}
    (entered : task.enter env m = .ok () found) (rank : Nat) (under : List Task) :
    asked (under.length + 1) m (task.ledger (rank + 1) under env m).events =
      asked (under.length + 1) found (task.inner rank under env found).events := by
  have silent : (Event.entered task under).asks? (under.length + 1) = none :=
    if_neg (Nat.ne_of_lt (Nat.lt_succ_self _))
  simp only [ledger, entered]
  change asked (under.length + 1) m
    (.entered task under :: ((task.inner rank under env found).events ++ [_])) = _
  rw [asked_cons_none silent, task.advance_entered entered, asked_append]
  exact List.append_nil _

/-- Whoever completes the program has asked for these parts, for each once and in
    this order. -/
def Eval.AsksInTurn (parts : List Task) (eval : Eval α) : Prop :=
  ∀ (rank : Nat) (under : List Task) (env : Environment) (m : Machine) (value : α)
    (after : Machine), eval.run (Task.evaluate rank) env m = .ok value after →
      (asked under.length m (eval.ledger (Task.ledger rank under) env m).events).map Prod.fst =
        parts

namespace Eval

theorem Quiet.asksInTurn {eval : Eval α} (quiet : eval.Quiet fun _ => False) :
    eval.AsksInTurn [] := by
  intro rank under env m value after ran
  rw [Eval.asked_nothing quiet.asks]
  rfl

theorem evaluate_asksInTurn (expression : Expr) (scope : ScopeId) :
    (evaluate expression scope).AsksInTurn [.expression expression scope] := by
  intro rank under env m value after ran
  rw [Eval.run_evaluate] at ran
  have once := Task.asked_evaluated ran under
  have same : ((evaluate expression scope).ledger (Task.ledger rank under) env m).events =
      (Task.ledger rank under (.expression expression scope) env m).events :=
    Ledger.andThen_returns _ id
  rw [same, once]
  rfl

theorem AsksInTurn.bind {parts later : List Task} {first : Eval α} {next : α → Eval β}
    (begins : first.AsksInTurn parts) (goesOn : ∀ value, (next value).AsksInTurn later) :
    (first >>= next).AsksInTurn (parts ++ later) := by
  intro rank under env m value after ran
  obtain ⟨found, middle, begun, ended⟩ := exists_of_bind_eq_ok ran
  have outcome : (first.ledger (Task.ledger rank under) env m).outcome = .ok found middle :=
    (Eval.ledger_outcome (Task.ledger_outcome rank under) first env m).trans begun
  have traced : (first.ledger (Task.ledger rank under) env m).Traced env under m :=
    Eval.ledger_traced (Task.ledger_traced rank under) first m
  rw [ledger_bind, traced.asked_andThen_ok outcome, List.map_append,
    begins rank under env m found middle begun, goesOn found rank under env middle value after ended]

theorem AsksInTurn.quietly {parts : List Task} {first : Eval α} {next : α → Eval β}
    (begins : first.AsksInTurn parts) (quiet : ∀ value, (next value).Quiet fun _ => False) :
    (first >>= next).AsksInTurn parts :=
  List.append_nil parts ▸ begins.bind fun value => (quiet value).asksInTurn

end Eval

end

/-! ## Changes -/

/-- What makes a new value of a property out of the one it has. -/
inductive PropertyChange where
  | assign (op : BinaryOp) (source : Expr)
  | update (increment before : Bool)

namespace PropertyChange

def expression (target : Expr) : PropertyChange → Expr
  | assign op source => .assign (some op) target source
  | update increment before => .update increment before target

def isUpdate : PropertyChange → Bool
  | assign _ _ => false
  | update _ _ => true

/-- What is evaluated between reading and writing. -/
def operands : PropertyChange → List Expr
  | assign _ source => [source]
  | update _ _ => []

/-- The new value, and what the whole expression answers. -/
def renewed (current : Value) (scope : ScopeId) : PropertyChange → Eval (Value × Value)
  | assign op source => do
      let operand ← evaluate source scope
      let value ← op.apply current operand
      pure (value, value)
  | update increment before => do
      let old ← toNumber current
      let new := if increment then old + 1.0 else old - 1.0
      pure (.number new, .number (if before then new else old))

/-- Both forms resolve their target, read, make a new value and write it. -/
theorem rule_expression (change : PropertyChange) (target : Expr) (scope : ScopeId) :
    expressionRule (change.expression target) scope = (do
      let place ← placeOf target scope
      let current ← readPlace place scope
      let (new, result) ← change.renewed current scope
      writePlace place new scope
      pure result) := by
  cases change with
  | assign op source => simp [expressionRule, expression, assignExpression, renewed]
  | update increment before => rfl

theorem renewed_asksInTurn (change : PropertyChange) (current : Value) (scope : ScopeId) :
    (change.renewed current scope).AsksInTurn (change.operands.map (.expression · scope)) := by
  cases change with
  | assign op source =>
      apply (evaluate_asksInTurn source scope).quietly
      intro operand
      exact (op.apply_quiet current operand).bind fun _ => trivial
  | update increment before =>
      exact Quiet.asksInTurn ((toNumber_quiet current).bind fun _ => trivial)

end PropertyChange

/-- The expressions that a property is denoted by: its owner, and its key unless that
    is fixed. -/
def Expr.propertyParts? : Expr → Option (List Expr)
  | .member owner _ => some [owner]
  | .index owner key => some [owner, key]
  | _ => none

section

variable {target : Expr} {parts : List Expr} {scope : ScopeId}

theorem placeOf_asksInTurn (property : target.propertyParts? = some parts) (scope : ScopeId) :
    (placeOf target scope).AsksInTurn (parts.map (.expression · scope)) := by
  cases target with
  | member owner name =>
      cases property
      exact (evaluate_asksInTurn owner scope).quietly fun _ => trivial
  | index owner key =>
      cases property
      have keyed (owner : Value) : Eval.AsksInTurn [.expression key scope] (do
          let key ← evaluate key scope
          pure (Place.property owner key)) :=
        (evaluate_asksInTurn key scope).quietly fun _ => trivial
      exact (evaluate_asksInTurn owner scope).bind keyed
  | _ => cases property

theorem placeOf_eq_ok (property : target.propertyParts? = some parts)
    {answer : (task : Task) → Action task.Answer} {env : Environment} {m after : Machine}
    {place : Place} (ran : (placeOf target scope).run answer env m = .ok place after) :
    ∃ owner key, place = .property owner key := by
  cases target with
  | member owner name =>
      obtain ⟨owner, middle, -, ended⟩ := Eval.exists_of_bind_eq_ok ran
      cases ended
      exact ⟨owner, .string name, rfl⟩
  | index owner key =>
      obtain ⟨owner, middle, -, resolved⟩ := Eval.exists_of_bind_eq_ok ran
      obtain ⟨key, last, -, ended⟩ := Eval.exists_of_bind_eq_ok resolved
      cases ended
      exact ⟨owner, key, rfl⟩
  | _ => cases property

end

namespace PropertyChange

theorem expression_asksInTurn (change : PropertyChange) {target : Expr} {parts : List Expr}
    (property : target.propertyParts? = some parts) (scope : ScopeId) :
    (expressionRule (change.expression target) scope).AsksInTurn
      ((parts ++ change.operands).map (.expression · scope)) := by
  rw [rule_expression, List.map_append]
  apply (placeOf_asksInTurn property scope).bind
  intro place
  apply ((readPlace_quiet place scope).asksInTurn).bind
  intro current
  apply (change.renewed_asksInTurn current scope).quietly
  intro answers
  exact (writePlace_quiet place answers.1 scope).bind fun _ => trivial

/-! ## Reading and writing -/

/-- How a change went that has been completed: which property was read, with which
    value, and which was written. -/
structure Completion (change : PropertyChange) (target : Expr) (scope : ScopeId)
    (answer : (task : Task) → Action task.Answer) (env : Environment) (found : Machine)
    (result : Value) (written : Machine) where
  owner : Value
  key : Value
  reading : Machine
  resolved : (placeOf target scope).run answer env found = .ok (.property owner key) reading
  current : Value
  resumed : Machine
  read : (getProperty owner (key.propertyKey reading.heap)).run answer env reading =
    .ok current resumed
  new : Value
  writing : Machine
  renewed : (change.renewed current scope).run answer env resumed = .ok (new, result) writing
  wrote : (setProperty owner (key.propertyKey writing.heap) new).run answer env writing =
    .ok () written

section

variable {change : PropertyChange} {target : Expr} {parts : List Expr} {scope : ScopeId}
  {answer : (task : Task) → Action task.Answer} {env : Environment} {m found written after : Machine}
  {result : Value}

namespace Completion

def keyRead (completion : change.Completion target scope answer env found result written) :
    String :=
  completion.key.propertyKey completion.reading.heap

def keyWritten (completion : change.Completion target scope answer env found result written) :
    String :=
  completion.key.propertyKey completion.writing.heap

end Completion

theorem readPlace_run (owner key : Value) (m : Machine) :
    (readPlace (.property owner key) scope).run answer env m =
      (getProperty owner (key.propertyKey m.heap)).run answer env m := by
  simp only [readPlace, propertyKey, bind_assoc, pure_bind]
  rw [Eval.run_bind, heap, Eval.run_operate, Operation.run, Outcome.andThen_ok]

theorem writePlace_run (owner key new : Value) (m : Machine) :
    (writePlace (.property owner key) new scope).run answer env m =
      (setProperty owner (key.propertyKey m.heap) new).run answer env m := by
  simp only [writePlace, propertyKey, bind_assoc, pure_bind]
  rw [Eval.run_bind, heap, Eval.run_operate, Operation.run, Outcome.andThen_ok]

theorem exists_completion (property : target.propertyParts? = some parts)
    (ran : (expressionRule (change.expression target) scope).run answer env found =
      .ok result written) :
    Nonempty (change.Completion target scope answer env found result written) := by
  rw [rule_expression] at ran
  obtain ⟨place, reading, resolved, ran⟩ := Eval.exists_of_bind_eq_ok ran
  obtain ⟨owner, key, rfl⟩ := placeOf_eq_ok property resolved
  obtain ⟨current, resumed, read, ran⟩ := Eval.exists_of_bind_eq_ok ran
  obtain ⟨⟨new, answered⟩, writing, renewed, ran⟩ := Eval.exists_of_bind_eq_ok ran
  obtain ⟨done, last, wrote, ended⟩ := Eval.exists_of_bind_eq_ok ran
  cases ended
  rw [readPlace_run] at read
  rw [writePlace_run] at wrote
  exact ⟨⟨owner, key, reading, resolved, current, resumed, read, new, writing, renewed, wrote⟩⟩

/-! ## The key -/

theorem heap_eq_of_getProperty {owner value : Value} {key : String}
    (ran : (getProperty owner key).run answer env m = .ok value after) : after.heap = m.heap := by
  obtain ⟨h, middle, seen, found⟩ := Eval.exists_of_bind_eq_ok ran
  rw [heap, Eval.run_operate, Operation.run] at seen
  cases seen
  split at found
  · cases found
    rfl
  · rw [newBound, Eval.run_operate, Operation.run] at found
    cases found
    rfl
  · cases found

theorem eq_of_renewed_update {increment before : Bool} {current : Value}
    {answers : Value × Value}
    (ran : ((update increment before).renewed current scope).run answer env m =
      .ok answers after) : after = m := by
  obtain ⟨old, middle, read, ended⟩ := Eval.exists_of_bind_eq_ok ran
  obtain ⟨h, last, seen, converted⟩ := Eval.exists_of_bind_eq_ok read
  rw [heap, Eval.run_operate, Operation.run] at seen
  cases seen
  cases converted
  cases ended
  rfl

theorem write_of_scalar {value : Value} (scalar : value.container? = none) (h : Heap)
    (style : Style) (limit : Nat) :
    value.write h style limit = writePiece limit value.scalarText "" := by
  simp only [Value.write, maxDisplayDepth, Display.value, Display.valueWith, scalar]

theorem propertyKey_of_scalar {key : Value} (scalar : key.container? = none) (h h' : Heap) :
    key.propertyKey h = key.propertyKey h' := by
  have shown : key.display h = key.display h' := by
    simp only [Value.display, write_of_scalar scalar]
  cases key with
  | number value => rfl
  | _ => exact shown

/-- The key is the same text again, unless something is evaluated in between and can
    have changed what the text of an array or an object is. -/
theorem Completion.keys_eq
    (completion : change.Completion target scope answer env found result written)
    (steady : change.isUpdate = true ∨ completion.key.container? = none) :
    completion.keyWritten = completion.keyRead := by
  rcases steady with updates | scalar
  · cases change with
    | assign op source => cases updates
    | update increment before =>
        have same : completion.writing.heap = completion.reading.heap :=
          (congrArg Machine.heap (eq_of_renewed_update completion.renewed)).trans
            (heap_eq_of_getProperty completion.read)
        rw [keyWritten, keyRead, same]
  · exact propertyKey_of_scalar scalar _ _

end

/-- Whatever a compound assignment or an update of a property does on the way, if it is
    completed it has evaluated each part of its target and its source once, and what it
    writes is a property of the same object as the one that it reads.  It is the same
    property, except that an assignment with an array or an object for a key writes
    where the key leads to by then. -/
theorem writes_where_it_reads (change : PropertyChange) {target : Expr} {parts : List Expr}
    (property : target.propertyParts? = some parts) {scope : ScopeId} {env : Environment}
    {m after : Machine} {rank : Nat} {result : Value}
    (completed : Task.evaluate (rank + 1) (.expression (change.expression target) scope) env m =
      .ok result after) (under : List Task) :
    let task := Task.expression (change.expression target) scope
    ∃ found written,
      ∃ completion : change.Completion target scope (Task.evaluate rank) env found result written,
        task.enter env m = .ok () found ∧ after = task.leave written ∧
        (asked (under.length + 1) m (task.ledger (rank + 1) under env m).events).map Prod.fst =
          (parts ++ change.operands).map (.expression · scope) ∧
        (change.isUpdate = true ∨ completion.key.container? = none →
          completion.keyWritten = completion.keyRead) := by
  intro task
  obtain ⟨⟨⟩, found, entered, ran⟩ := Outcome.exists_of_andThen_eq_ok completed
  cases inner : (expressionRule (change.expression target) scope).run (Task.evaluate rank) env found with
  | error error written =>
      simp only [Task.rule, Rule.run, inner] at ran
      cases ran
  | ok answered written =>
      simp only [Task.rule, Rule.run, inner] at ran
      cases ran
      obtain ⟨completion⟩ := exists_completion property inner
      refine ⟨found, written, completion, entered, rfl, ?_, completion.keys_eq⟩
      -- Entering and leaving the task asks for no part, so the parts are those of its rule.
      rw [task.asked_within entered]
      exact change.expression_asksInTurn property scope rank (task :: under) env found result written inner

end PropertyChange

/-! ## Keys that change -/

def changeSettings : Environment :=
  ⟨{ stepBudget := 200 }, fun _ => 0⟩

namespace PropertyChange

/-- The keys that are read and written, in a change that gets as far as writing. -/
def keys? (change : PropertyChange) (target : Expr) (scope : ScopeId)
    (answer : (task : Task) → Action task.Answer) (env : Environment) (found : Machine) :
    Option (String × String) :=
  match (placeOf target scope).run answer env found with
  | .ok (.property owner key) reading =>
      match (getProperty owner (key.propertyKey reading.heap)).run answer env reading with
      | .ok current resumed =>
          match (change.renewed current scope).run answer env resumed with
          | .ok _ writing => some (key.propertyKey reading.heap, key.propertyKey writing.heap)
          | .error _ _ => none
      | .error _ _ => none
  | _ => none

theorem Completion.keys {change : PropertyChange} {target : Expr} {scope : ScopeId}
    {answer : (task : Task) → Action task.Answer} {env : Environment} {found written : Machine}
    {result : Value}
    (completion : change.Completion target scope answer env found result written) :
    change.keys? target scope answer env found =
      some (completion.keyRead, completion.keyWritten) := by
  simp only [keys?, completion.resolved, completion.read, completion.renewed]
  rfl

end PropertyChange

/-- The function that makes the key replaces what the variables hold. -/
def replacing : String :=
  "var o=\x7ba:1\x7d;function f()\x7bo=null;return ['a']\x7d"

/-- The update writes the object that it has read. -/
theorem writes_where_it_reads_replaced :
    ∃ program, Program.parse replacing = .ok program ∧
      let m := (Errand.run program).machine changeSettings (.fresh changeSettings.limits)
      let target := Expr.index (.identifier "o") (.call (.identifier "f") [])
      let task := Task.expression (.update true false target) globalScope
      ∃ result after found written,
        task.evaluate 20 changeSettings m = .ok result after ∧
        ∃ completion : (PropertyChange.update true false).Completion target globalScope
            (Task.evaluate 19) changeSettings found result written,
          completion.keyWritten = completion.keyRead ∧
          (asked 1 m (task.ledger 20 [] changeSettings m).events).map Prod.fst =
            [.expression (.identifier "o") globalScope,
              .expression (.call (.identifier "f") []) globalScope] := by
  let target := Expr.index (.identifier "o") (.call (.identifier "f") [])
  have evaluates : (Program.parse replacing).toOption.any (fun program =>
      (Task.evaluate 20 (.expression (.update true false target) globalScope) changeSettings
        ((Errand.run program).machine changeSettings
          (.fresh changeSettings.limits))).error?.isNone) = true := by
    decide +kernel
  cases parsed : Program.parse replacing with
  | error error =>
      rw [parsed] at evaluates
      cases evaluates
  | ok program =>
      rw [parsed] at evaluates
      refine ⟨program, rfl, ?_⟩
      intro m target task
      cases completed : task.evaluate 20 changeSettings m with
      | error error after =>
          change (task.evaluate 20 changeSettings m).error?.isNone = true at evaluates
          rw [completed] at evaluates
          cases evaluates
      | ok result after =>
          have property : target.propertyParts? =
              some [.identifier "o", .call (.identifier "f") []] := rfl
          obtain ⟨found, written, completion, -, -, parts, same⟩ :=
            (PropertyChange.update true false).writes_where_it_reads property completed []
          exact ⟨result, after, found, written, rfl, completion, same (.inl rfl), parts⟩

/-- The key is an array, and what is added changes it. -/
def moving : String :=
  "var k=['a'],o=\x7ba:1,b:10\x7d;function f()\x7bk[0]='b';return 1\x7do[k]+=f();var a=o.a,b=o.b;"

/-- An assignment begins that is completed, and uses these keys. -/
def movesKey (keys : String × String) (found : Machine) : Event → List Event → Bool
  | .entered (.expression (.assign (some op) target source) scope) _, _ =>
      target.propertyParts?.isSome &&
        ((expressionRule (.assign (some op) target source) scope).run (Task.evaluate 20)
          changeSettings found).error?.isNone &&
        (PropertyChange.assign op source).keys? target scope (Task.evaluate 20) changeSettings
          found == some keys
  | _, _ => false

/-- What is read under one key is written under another. -/
theorem moving_writes_other_key :
    ∃ program, Program.parse moving = .ok program ∧ ∃ before op target source scope under later,
      let change := PropertyChange.assign op source
      let entered := Event.entered (.expression (change.expression target) scope) under
      (Errand.run program).events changeSettings (.fresh changeSettings.limits) =
        before ++ entered :: later ∧
      ∃ result written, ∃ completion : change.Completion target scope (Task.evaluate 20)
          changeSettings ((Machine.fresh changeSettings.limits).replay (before ++ [entered])) result
          written,
        completion.keyRead = "a" ∧ completion.keyWritten = "b" := by
  have moves : anyEvent (movesKey ("a", "b")) (.fresh changeSettings.limits)
      (eventsOf changeSettings moving) =
      true := by
    decide +kernel
  obtain ⟨program, parsed, before, event, later, split, moves⟩ := exists_program_of_anyEvent moves
  unfold movesKey at moves
  split at moves
  · next op target source scope under =>
    simp only [Bool.and_eq_true, beq_iff_eq, Option.isSome_iff_exists] at moves
    obtain ⟨⟨⟨parts, property⟩, ends⟩, keys⟩ := moves
    refine ⟨program, parsed, before, op, target, source, scope, under, later, split, ?_⟩
    cases ran : (expressionRule (.assign (some op) target source) scope).run (Task.evaluate 20)
        changeSettings ((Machine.fresh changeSettings.limits).replay (before ++ [_])) with
    | error error written =>
        rw [ran] at ends
        cases ends
    | ok result written =>
        obtain ⟨completion⟩ :=
          (PropertyChange.assign op source).exists_completion property ran
        rw [completion.keys] at keys
        obtain ⟨read, wrote⟩ := Prod.mk.inj (Option.some.inj keys)
        exact ⟨result, written, completion, read, wrote⟩
  · cases moves

end StrategyQubo.Script
