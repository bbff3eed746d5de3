import StrategyQubo.Proofs.JsonTrees
import StrategyQubo.Proofs.Unhindered

namespace StrategyQubo

open StrategyQubo.Script

/-! # JSON texts as values

Evaluating the literal of a JSON value makes new arrays and objects that hold
it.
-/

/-! ## Growing heaps -/

namespace Script.Heap

/-- Nothing that was there has changed. -/
structure Grows (h h' : Heap) : Prop where
  arrays : ∀ (i : Nat) (items : Array Value), h.arrays[i]? = some items →
    h'.arrays[i]? = some items
  objects : ∀ (i : Nat) (record : Record), h.objects[i]? = some record →
    h'.objects[i]? = some record

theorem Grows.refl (h : Heap) : h.Grows h :=
  ⟨fun _ _ found => found, fun _ _ found => found⟩

theorem Grows.trans {h h' h'' : Heap} (first : h.Grows h') (second : h'.Grows h'') :
    h.Grows h'' where
  arrays i items found := second.arrays i items (first.arrays i items found)
  objects i record found := second.objects i record (first.objects i record found)

theorem getElem?_push_of_some {α : Type} {xs : Array α} {i : Nat} {x : α} (found : xs[i]? = some x)
    (y : α) : (xs.push y)[i]? = some x := by
  obtain ⟨within, -⟩ := Array.getElem?_eq_some_iff.mp found
  rw [Array.getElem?_push, if_neg (Nat.ne_of_lt within), found]

theorem grows_newArray (h : Heap) (items : Array Value) : h.Grows (h.newArray items).2 where
  arrays _ _ found := getElem?_push_of_some found items
  objects _ _ found := found

theorem grows_newObject (h : Heap) (record : Record) : h.Grows (h.newObject record).2 where
  arrays _ _ found := found
  objects _ _ found := getElem?_push_of_some found record

end Script.Heap

namespace Json

/-! ## Stored values -/

/-- What holds a value in a heap. -/
inductive Stored (h : Heap) : Json → Value → Prop where
  | null : Stored h null .null
  | bool (value : Bool) : Stored h (bool value) (.bool value)
  | integer {value : Int} {x : Float} :
      Number.literal? (toString value) = some x → Stored h (integer value) (.number x)
  | double {value x : Float} :
      Number.literal? (doubleText value) = some x → Stored h (double value) (.number x)
  | string (text : String) : Stored h (string text) (.string text)
  | array {items : List Json} {ref : ArrayRef} {values : Array Value} :
      h.arrays[ref.index]? = some values → items.length = values.size →
      (∀ pair ∈ items.zip values.toList, Stored h pair.1 pair.2) →
      Stored h (array items) (.array ref)
  | record {fields : List (String × Json)} {ref : ObjectRef} {properties : Record} :
      h.objects[ref.index]? = some properties → fields.map (·.1) = properties.map (·.1) →
      (∀ pair ∈ fields.zip properties, Stored h pair.1.2 pair.2.2) →
      Stored h (record fields) (.object ref)

theorem Stored.grows {h h' : Heap} (grows : h.Grows h') {j : Json} {v : Value}
    (stored : Stored h j v) : Stored h' j v := by
  induction stored with
  | null => exact .null
  | bool value => exact .bool value
  | integer read => exact .integer read
  | double read => exact .double read
  | string text => exact .string text
  | array found same _ ih => exact .array (grows.arrays _ _ found) same ih
  | record found same _ ih => exact .record (grows.objects _ _ found) same ih

/-! ## Steps -/

mutual

/-- More steps than this no literal of the value takes. -/
def steps : Json → Nat
  | array items => itemsSteps items + 1
  | object fields => fieldsSteps fields + 1
  | integer _ => 2
  | double _ => 2
  | _ => 1

def itemsSteps : List Json → Nat
  | [] => 0
  | item :: rest => item.steps + itemsSteps rest

def fieldsSteps : List (Option String × Json) → Nat
  | [] => 0
  | (_, value) :: rest => value.steps + fieldsSteps rest

end

theorem itemsHeight_le_itemsSteps {items : List Json}
    (each : ∀ item ∈ items, item.height ≤ item.steps) : itemsHeight items ≤ itemsSteps items := by
  induction items with
  | nil => exact le_refl _
  | cons item rest ih =>
      obtain ⟨first, others⟩ := List.forall_mem_cons.mp each
      have later := ih others
      rw [itemsHeight, itemsSteps]
      omega

theorem fieldsHeight_le_fieldsSteps {fields : List (Option String × Json)}
    (each : ∀ field ∈ fields, field.2.height ≤ field.2.steps) :
    fieldsHeight fields ≤ fieldsSteps fields := by
  induction fields with
  | nil => exact le_refl _
  | cons field rest ih =>
      obtain ⟨first, others⟩ := List.forall_mem_cons.mp each
      have later := ih others
      rw [fieldsHeight, fieldsSteps]
      omega

theorem Readable.height_le_steps {limit : Nat} {j : Json} (readable : j.Readable limit) :
    j.height ≤ j.steps := by
  induction readable with
  | array _ _ ih => exact Nat.succ_le_succ (itemsHeight_le_itemsSteps ih)
  | record _ _ ih =>
      refine Nat.succ_le_succ (fieldsHeight_le_fieldsSteps fun field member => ?_)
      obtain ⟨entry, found, rfl⟩ := List.mem_map.mp member
      exact ih entry found
  | integer | double => exact Nat.le_succ 1
  | null | bool | string => exact le_refl 1

/-! ## Evaluating -/

variable {env : Environment} {rank : Nat} {scope : ScopeId} {m : Machine}

theorem evaluate_once (calm : env.NeverStrikes) (budget : m.steps < env.limits.stepBudget)
    (shallow : m.nesting < maxEvalDepth) {e : Expr} {v : Value}
    (rule : expressionRule e scope = pure v) :
    Task.evaluate (rank + 1) (.expression e scope) env m =
      .ok v { m with steps := m.steps + 1 } := by
  have ran : (expressionRule e scope).run (Task.evaluate rank) env
      { m with steps := m.steps + 1, nesting := m.nesting + 1 } =
        .ok v { m with steps := m.steps + 1, nesting := m.nesting + 1 } := by
    rw [rule]
    rfl
  exact Task.evaluate_expression calm budget shallow ran

/-- From a machine with so many steps and levels left, the outcome is a value
    that holds this one, in a heap that has grown. -/
def Makes (m : Machine) (outcome : Outcome Value) (j : Json) : Prop :=
  ∃ v heap count, outcome = .ok v { m with heap := heap, steps := count } ∧
    count ≤ m.steps + j.steps ∧ m.heap.Grows heap ∧ Stored heap j v

def Evaluates (env : Environment) (rank : Nat) (j : Json) : Prop :=
  ∀ scope m, m.steps + j.steps ≤ env.limits.stepBudget → m.nesting + j.height < maxEvalDepth →
    Makes m (Task.evaluate rank (.expression j.tree scope) env m) j

theorem evaluates_plain (calm : env.NeverStrikes) {j : Json} {v : Value} (once : j.steps = 1)
    (rule : ∀ scope, expressionRule j.tree scope = pure v) (stored : ∀ h, Stored h j v) :
    Evaluates env (rank + 1) j := by
  intro scope m budget shallow
  have within : m.steps < env.limits.stepBudget := by omega
  have above : m.nesting < maxEvalDepth := by omega
  exact ⟨v, m.heap, m.steps + 1, evaluate_once calm within above (rule scope),
    by rw [once], .refl _, stored _⟩

theorem evaluates_number (calm : env.NeverStrikes) {j : Json} {text : String} {negative : Bool}
    {n : Number.Numeral} (read : Number.signedNumeral? text.toList = some (negative, n))
    (same : j.tree = numberTree text) (twice : j.steps = 2) (flat : j.height = 1)
    (stored : ∀ h x, Number.literal? text = some x → Stored h j (.number x)) :
    Evaluates env (rank + 2) j := by
  intro scope m budget shallow
  have within : m.steps + 1 < env.limits.stepBudget := by omega
  have above : m.nesting + 1 < maxEvalDepth := by omega
  rw [same, numberTree_eq read]
  cases negative with
  | false =>
      refine ⟨.number n.toFloat, m.heap, m.steps + 1, ?_, by omega, .refl _, stored _ _ ?_⟩
      · exact evaluate_once calm (by omega) (by omega) rfl
      · rw [Number.literal?, read]
        rfl
  | true =>
      refine ⟨.number (-n.toFloat), m.heap, m.steps + 2, ?_, by omega, .refl _, stored _ _ ?_⟩
      · have operand : Task.evaluate (rank + 1) (.expression (.number n.toFloat) scope) env
            { m with steps := m.steps + 1, nesting := m.nesting + 1 } =
              .ok (.number n.toFloat) { m with steps := m.steps + 2, nesting := m.nesting + 1 } :=
          evaluate_once calm within above rfl
        have ran : (expressionRule (.unary .negate (.number n.toFloat)) scope).run
            (Task.evaluate (rank + 1)) env
              { m with steps := m.steps + 1, nesting := m.nesting + 1 } =
              .ok (.number (-n.toFloat))
                { m with steps := m.steps + 2, nesting := m.nesting + 1 } := by
          change (Eval.evaluate (.number n.toFloat) scope >>= UnaryOp.apply .negate).run _ _ _ = _
          rw [Eval.run_bind, Eval.run_evaluate, operand]
          rfl
        exact Task.evaluate_expression calm (by omega) (by omega) ran
      · rw [Number.literal?, read]
        rfl

/-! ### Items -/

/-- Each item is what the value in its place holds. -/
def AllStored (h : Heap) (items : List Json) (values : List Value) : Prop :=
  items.length = values.length ∧ ∀ pair ∈ items.zip values, Stored h pair.1 pair.2

theorem AllStored.cons {h h' : Heap} {item : Json} {items : List Json} {v : Value}
    {values : List Value} (first : Stored h item v) (grows : h.Grows h')
    (others : AllStored h' items values) : AllStored h' (item :: items) (v :: values) :=
  ⟨congrArg (· + 1) others.1, List.forall_mem_cons.mpr ⟨first.grows grows, others.2⟩⟩

theorem evaluateAll_items {items : List Json} (each : ∀ item ∈ items, Evaluates env rank item)
    (scope : ScopeId) (values : List Value) (m : Machine)
    (budget : m.steps + itemsSteps items ≤ env.limits.stepBudget)
    (shallow : m.nesting + itemsHeight items < maxEvalDepth) :
    ∃ made heap count,
      (evaluateAll scope (itemTrees items) values).run (Task.evaluate rank) env m =
        .ok (values.reverse ++ made) { m with heap := heap, steps := count } ∧
      count ≤ m.steps + itemsSteps items ∧ m.heap.Grows heap ∧ AllStored heap items made := by
  induction items generalizing values m with
  | nil =>
      refine ⟨[], m.heap, m.steps, ?_, le_refl _, .refl _, rfl, nofun⟩
      rw [List.append_nil]
      rfl
  | cons item rest ih =>
      obtain ⟨first, others⟩ := List.forall_mem_cons.mp each
      rw [itemsSteps] at budget ⊢
      rw [itemsHeight] at shallow
      obtain ⟨v, heap, count, evaluated, spent, grown, stored⟩ :=
        first scope m (by omega) (by omega)
      obtain ⟨made, heap', count', listed, spent', grown', stored'⟩ :=
        ih others (v :: values) { m with heap := heap, steps := count }
          (show count + _ ≤ _ by omega) (show m.nesting + _ < _ by omega)
      refine ⟨v :: made, heap', count', ?_, le_trans spent' (show count + _ ≤ _ by omega),
        grown.trans grown', .cons stored grown' stored'⟩
      rw [itemTrees, evaluateAll, Eval.run_bind, Eval.run_evaluate, evaluated, Outcome.andThen_ok,
        listed, List.reverse_cons, List.append_assoc, List.singleton_append]

theorem length_itemTrees (items : List Json) : (itemTrees items).length = items.length := by
  induction items with
  | nil => rfl
  | cons item rest ih => rw [itemTrees, List.length_cons, List.length_cons, ih]

theorem evaluates_array (calm : env.NeverStrikes) {items : List Json}
    (fits : items.length ≤ env.limits.maxCollectionLen)
    (each : ∀ item ∈ items, Evaluates env rank item) : Evaluates env (rank + 1) (array items) := by
  intro scope m budget shallow
  rw [steps] at budget
  rw [height] at shallow
  obtain ⟨made, heap, count, listed, spent, grown, same, stored⟩ := evaluateAll_items each scope []
    { m with steps := m.steps + 1, nesting := m.nesting + 1 }
    (show m.steps + 1 + _ ≤ _ by omega) (show m.nesting + 1 + _ < _ by omega)
  have checked : ∀ m, Action.checkLength (itemTrees items).length env m = .ok () m := by
    intro m
    rw [Action.checkLength, length_itemTrees, if_neg (Nat.not_lt.mpr fits)]
  have ran : (expressionRule (.array (itemTrees items)) scope).run (Task.evaluate rank) env
      { m with steps := m.steps + 1, nesting := m.nesting + 1 } =
        .ok (.array ⟨heap.arrays.size⟩)
          { m with heap := (heap.newArray made.toArray).2, steps := count,
                   nesting := m.nesting + 1 } := by
    change (Eval.checkLength (itemTrees items).length >>= fun _ =>
      evaluateAll scope (itemTrees items) [] >>= fun values => Eval.newArray values.toArray).run
        _ _ _ = _
    rw [Eval.run_bind, Eval.checkLength, Eval.run_operate]
    change (Action.checkLength _ env _).andThen _ = _
    rw [checked, Outcome.andThen_ok, Eval.run_bind, listed]
    rfl
  have bigger := grown.trans (heap.grows_newArray made.toArray)
  refine ⟨_, _, count, Task.evaluate_expression calm (by omega) (by omega) ran, ?_, bigger, ?_⟩
  · rw [steps]
    exact le_trans spent (show m.steps + 1 + _ ≤ _ by omega)
  · refine .array Array.getElem?_push_size same fun pair member => ?_
    exact (stored pair member).grows (heap.grows_newArray _)

/-! ### Fields -/

/-- Each field has the key of the property in its place, and is what this one
    holds. -/
def AllKept (h : Heap) (fields : List (String × Json)) (properties : Record) : Prop :=
  fields.map (·.1) = properties.map (·.1) ∧
    ∀ pair ∈ fields.zip properties, Stored h pair.1.2 pair.2.2

theorem AllKept.cons {h h' : Heap} {key : String} {value : Json} {fields : List (String × Json)}
    {v : Value} {properties : Record} (first : Stored h value v) (grows : h.Grows h')
    (others : AllKept h' fields properties) :
    AllKept h' ((key, value) :: fields) ((key, v) :: properties) :=
  ⟨congrArg (key :: ·) others.1, List.forall_mem_cons.mpr ⟨first.grows grows, others.2⟩⟩

theorem set_of_notMem {record : Record} {key : String} (fresh : key ∉ record.map (·.1))
    (v : Value) : record.set key v = record ++ [(key, v)] := by
  induction record with
  | nil => rfl
  | cons entry rest ih =>
      rw [List.map_cons, List.mem_cons, not_or] at fresh
      obtain ⟨different, later⟩ := fresh
      rw [Record.set, if_neg (Ne.symm different), ih later, List.cons_append]

def keyed (fields : List (String × Json)) : List (Option String × Json) :=
  fields.map fun (key, value) => (some key, value)

theorem record_eq (fields : List (String × Json)) : record fields = object (keyed fields) := rfl

theorem mem_keyed {fields : List (String × Json)} {field : String × Json}
    (member : field ∈ fields) : (some field.1, field.2) ∈ keyed fields :=
  List.mem_map.mpr ⟨field, member, rfl⟩

theorem propertiesOf_fields {fields : List (String × Json)}
    (each : ∀ field ∈ fields, Evaluates env rank field.2) (scope : ScopeId) (record : Record)
    (m : Machine) (distinct : (record.map (·.1) ++ fields.map (·.1)).Nodup)
    (budget : m.steps + fieldsSteps (keyed fields) ≤
      env.limits.stepBudget)
    (shallow : m.nesting + fieldsHeight (keyed fields) <
      maxEvalDepth) :
    ∃ made heap count,
      (propertiesOf scope (fieldTrees (keyed fields))
          record).run (Task.evaluate rank) env m =
        .ok (record ++ made) { m with heap := heap, steps := count } ∧
      count ≤ m.steps + fieldsSteps (keyed fields) ∧
      m.heap.Grows heap ∧ AllKept heap fields made := by
  induction fields generalizing record m with
  | nil =>
      refine ⟨[], m.heap, m.steps, ?_, le_refl _, .refl _, rfl, nofun⟩
      rw [List.append_nil]
      rfl
  | cons field rest ih =>
      obtain ⟨first, others⟩ := List.forall_mem_cons.mp each
      obtain ⟨key, value⟩ := field
      have split : keyed ((key, value) :: rest) = (some key, value) :: keyed rest := rfl
      rw [split, fieldsSteps] at budget ⊢
      rw [split, fieldsHeight] at shallow
      obtain ⟨v, heap, count, evaluated, spent, grown, stored⟩ :=
        first scope m (show _ + value.steps ≤ _ by omega) (show _ + value.height < _ by omega)
      have within : count ≤ m.steps + value.steps := spent
      have fresh : key ∉ record.map (·.1) := fun found =>
        (List.nodup_append.mp distinct).2.2 key found key List.mem_cons_self rfl
      have set := set_of_notMem fresh v
      obtain ⟨made, heap', count', listed, spent', grown', stored'⟩ :=
        ih others (record ++ [(key, v)]) { m with heap := heap, steps := count }
          (by simpa using distinct) (show count + _ ≤ _ by omega) (show m.nesting + _ < _ by omega)
      refine ⟨(key, v) :: made, heap', count', ?_, le_trans spent' (show count + _ ≤ _ by omega),
        grown.trans grown', .cons stored grown' stored'⟩
      rw [fieldTrees, propertiesOf, Eval.run_bind]
      change (((Eval.evaluate value.tree scope) >>= fun v => propertiesOf scope _
        (record.set key v)).run _ env m) = _
      rw [Eval.run_bind, Eval.run_evaluate, evaluated, Outcome.andThen_ok, set, listed,
        List.append_assoc, List.singleton_append]

theorem evaluates_record (calm : env.NeverStrikes) {fields : List (String × Json)}
    (distinct : (fields.map (·.1)).Nodup)
    (each : ∀ field ∈ fields, Evaluates env rank field.2) :
    Evaluates env (rank + 1) (record fields) := by
  intro scope m budget shallow
  rw [record_eq, steps] at budget
  rw [record_eq, height] at shallow
  obtain ⟨made, heap, count, listed, spent, grown, same, stored⟩ := propertiesOf_fields each scope
    [] { m with steps := m.steps + 1, nesting := m.nesting + 1 } distinct
    (show m.steps + 1 + _ ≤ _ by omega) (show m.nesting + 1 + _ < _ by omega)
  have ran : (expressionRule (record fields).tree scope).run (Task.evaluate rank) env
      { m with steps := m.steps + 1, nesting := m.nesting + 1 } =
        .ok (.object ⟨heap.objects.size⟩)
          { m with heap := (heap.newObject made).2, steps := count, nesting := m.nesting + 1 } := by
    rw [record_eq, tree]
    change (propertiesOf scope _ [] >>= fun properties => Eval.newObject properties).run _ _ _ = _
    rw [Eval.run_bind, listed]
    rfl
  have bigger := grown.trans (heap.grows_newObject made)
  refine ⟨_, _, count, Task.evaluate_expression calm (by omega) (by omega) ran, ?_, bigger, ?_⟩
  · rw [record_eq, steps]
    exact le_trans spent (show m.steps + 1 + _ ≤ _ by omega)
  · refine .record Array.getElem?_push_size same fun pair member => ?_
    exact (stored pair member).grows (heap.grows_newObject _)

/-- Evaluating the literal of a readable value makes a value that holds it. -/
theorem Readable.evaluates (calm : env.NeverStrikes) {j : Json}
    (readable : j.Readable env.limits.maxCollectionLen) (above : j.height < rank) :
    Evaluates env rank j := by
  induction readable generalizing rank with
  | null =>
      obtain ⟨rank, rfl⟩ := Nat.exists_eq_add_of_le' above
      exact evaluates_plain calm rfl (fun _ => rfl) fun _ => .null
  | bool value =>
      obtain ⟨rank, rfl⟩ := Nat.exists_eq_add_of_le' above
      exact evaluates_plain calm rfl (fun _ => rfl) fun _ => .bool value
  | integer read =>
      obtain ⟨rank, rfl⟩ := Nat.exists_eq_add_of_le' above
      exact evaluates_number calm read rfl rfl rfl fun _ _ => .integer
  | double read =>
      obtain ⟨rank, rfl⟩ := Nat.exists_eq_add_of_le' above
      exact evaluates_number calm read rfl rfl rfl fun _ _ => .double
  | string text =>
      obtain ⟨rank, rfl⟩ := Nat.exists_eq_add_of_le' above
      exact evaluates_plain calm rfl (fun _ => rfl) fun _ => .string text
  | @array items fits _ ih =>
      rw [height] at above
      obtain ⟨rank, rfl⟩ := Nat.exists_eq_add_of_le' (Nat.one_le_of_lt above)
      refine evaluates_array calm fits fun item member => ih item member ?_
      have inner := height_le_of_mem_items member
      omega
  | @record fields distinct _ ih =>
      rw [record_eq, height] at above
      obtain ⟨rank, rfl⟩ := Nat.exists_eq_add_of_le' (Nat.one_le_of_lt above)
      refine evaluates_record calm distinct fun field member => ih field member ?_
      have inner : field.2.height ≤ fieldsHeight (keyed fields) :=
        height_le_of_mem_fields (mem_keyed member)
      omega

end Json

end StrategyQubo
