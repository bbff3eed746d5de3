import Mathlib.Data.List.Forall2
import Mathlib.Data.List.Perm.Subperm
import StrategyQubo.Proofs.Asking
import StrategyQubo.Proofs.Sessions
import StrategyQubo.Proofs.Traces

namespace StrategyQubo.Script

/-! # Visits of array elements

The methods of arrays that call back do so for one element after another, each
as the array has it at that moment, whatever their callback does to the array.
All but folds leave alone what a callback has appended.
-/

/-- The call hands the element at the index over to the callback, as the machine
    has it.  A fold hands over its total too. -/
def ArrayMethod.Visits (method : ArrayMethod) (callback : Value) (ref : ArrayRef) (index : Nat)
    (call : Task × Machine) : Prop :=
  ∃ item, (call.2.heap.arrayAt ref)[index]? = .some item ∧
    if method = .reduce then
      ∃ total, call.1 = .call callback [total, item, naturalValue index, .array ref]
    else
      call.1 = .call callback [item, naturalValue index, .array ref]

/-- Each call visits an index, from `start` on and always a larger one. -/
def Increasing (visits : Nat → Task × Machine → Prop) (start : Nat)
    (calls : List (Task × Machine)) : Prop :=
  ∃ indices : List Nat, indices.Pairwise (· < ·) ∧ (∀ index ∈ indices, start ≤ index) ∧
    List.Forall₂ visits indices calls

section

variable {visits : Nat → Task × Machine → Prop} {start : Nat} {call : Task × Machine}
  {calls first : List (Task × Machine)}

theorem Increasing.nil : Increasing visits start [] :=
  ⟨[], .nil, List.forall_mem_nil _, .nil⟩

theorem Increasing.from {later : Nat} (increasing : Increasing visits later calls)
    (before : start ≤ later) : Increasing visits start calls := by
  obtain ⟨indices, sorted, bound, each⟩ := increasing
  exact ⟨indices, sorted, fun index member => Nat.le_trans before (bound index member), each⟩

theorem Increasing.cons (visit : visits start call) (later : Increasing visits (start + 1) calls) :
    Increasing visits start (call :: calls) := by
  obtain ⟨indices, increasing, bound, each⟩ := later
  refine ⟨start :: indices, List.pairwise_cons.mpr ⟨bound, increasing⟩, ?_, .cons visit each⟩
  exact List.forall_mem_cons.mpr
    ⟨Nat.le_refl _, fun index member => Nat.le_of_succ_le (bound index member)⟩

theorem Increasing.mono {weaker : Nat → Task × Machine → Prop}
    (increasing : Increasing visits start calls)
    (implies : ∀ index call, visits index call → weaker index call) :
    Increasing weaker start calls := by
  obtain ⟨indices, sorted, bound, each⟩ := increasing
  exact ⟨indices, sorted, bound, each.imp implies⟩

/-- One call at most comes before those for later indices. -/
theorem Increasing.append (once : first = [] ∨ first = [call]) (visit : visits start call)
    (later : Increasing visits (start + 1) calls) : Increasing visits start (first ++ calls) := by
  rcases once with rfl | rfl
  · exact later.from (Nat.le_succ start)
  · exact later.cons visit

end

/-! ## What programs ask for -/

section

variable {α β : Type} {env : Environment} {under : List Task} {m : Machine} {depth : Nat}
  {answer : (task : Task) → Environment → Machine → Ledger task.Answer}

theorem Ledger.Traced.asked_andThen_ok {first : Ledger α} (traced : first.Traced env under m)
    {next : α → Machine → Ledger β} {value : α} {after : Machine}
    (ended : first.outcome = .ok value after) :
    asked depth m (first.andThen next).events =
      asked depth m first.events ++ asked depth after (next value after).events := by
  have replayed := traced.replayed
  rw [ended] at replayed
  simp only [Ledger.andThen, ended, asked_append, replayed, Outcome.machine_ok]

theorem Ledger.asked_andThen {first : Ledger α} (traced : first.Traced env under m)
    (next : α → Machine → Ledger β) {calls : List (Task × Machine)}
    (begun : asked depth m first.events = calls) :
    (∃ value after, first.outcome = .ok value after ∧
      asked depth m (first.andThen next).events =
        calls ++ asked depth after (next value after).events) ∨
    asked depth m (first.andThen next).events = calls ++ [] := by
  cases ended : first.outcome with
  | ok value after => exact .inl ⟨value, after, rfl, begun ▸ traced.asked_andThen_ok ended⟩
  | error error after =>
      rw [List.append_nil, ← begun]
      simp only [andThen, ended, or_true]

theorem Eval.asked_nothing {eval : Eval α} (asks : eval.Asks fun _ => False) (m : Machine) :
    asked depth m (eval.ledger answer env m).events = [] := by
  induction eval generalizing m with
  | done value => rfl
  | perform op next ih =>
      have performed : (Ledger.single (.performed op (op.run env m).error? (op.run env m).machine)
          (op.run env m)).Traced env [] m := .single rfl rfl
      rcases Ledger.asked_andThen performed (fun value m => (next value).ledger answer env m) rfl with
        ⟨value, after, -, same⟩ | same
      · exact same.trans (ih value (asks value) after)
      · exact same
  | ask task next ih => exact asks.1.elim

/-- Nothing happens where a value is only put in another form. -/
theorem Ledger.andThen_returns (first : Ledger α) (form : α → β) :
    (first.andThen fun value m => ⟨[], 0, .ok (form value) m⟩).events = first.events := by
  unfold andThen
  cases first.outcome with
  | ok value m => exact List.append_nil _
  | error error m => rfl

theorem Eval.ledger_heap (next : Heap → Eval α) (m : Machine) :
    (Eval.heap >>= next).ledger answer env m =
      ⟨.performed .heap none m :: ((next m.heap).ledger answer env m).events,
        ((next m.heap).ledger answer env m).since, ((next m.heap).ledger answer env m).outcome⟩ :=
  rfl

theorem Eval.asked_heap (next : Heap → Eval α) (m : Machine) :
    asked depth m ((Eval.heap >>= next).ledger answer env m).events =
      asked depth m ((next m.heap).ledger answer env m).events :=
  rfl

theorem Eval.ledger_call (function : Value) (arguments : List Value) (next : Value → Eval α)
    (m : Machine) :
    (Eval.call function arguments >>= next).ledger answer env m =
      (answer (.call function arguments) env m).andThen fun value m =>
        (next value).ledger answer env m :=
  rfl

/-- One visit at most comes before those of later indices. -/
theorem Increasing.behind {visits : Nat → Task × Machine → Prop} {start : Nat}
    {call : Task × Machine} {first : Ledger α} {next : α → Machine → Ledger β}
    (traced : first.Traced env under m)
    (once : asked depth m first.events = [] ∨ asked depth m first.events = [call])
    (visit : visits start call)
    (later : ∀ value after, first.outcome = .ok value after →
      Increasing visits (start + 1) (asked depth after (next value after).events)) :
    Increasing visits start (asked depth m (first.andThen next).events) := by
  rcases Ledger.asked_andThen traced next rfl with ⟨value, after, ended, same⟩ | same
  · exact same ▸ .append once visit (later value after ended)
  · exact same ▸ .append once visit .nil

theorem Increasing.unasked {visits : Nat → Task × Machine → Prop} {start : Nat}
    {first : Ledger α} {next : α → Machine → Ledger β} (traced : first.Traced env under m)
    (nothing : asked depth m first.events = [])
    (later : ∀ value after, first.outcome = .ok value after →
      Increasing visits start (asked depth after (next value after).events)) :
    Increasing visits start (asked depth m (first.andThen next).events) := by
  rcases Ledger.asked_andThen traced next nothing with ⟨value, after, ended, same⟩ | same
  · exact same ▸ later value after ended
  · exact same ▸ .nil

end

/-- Where the callback cannot be called, nothing but an error comes of it. -/
theorem callbackOf_cases (method : ArrayMethod) (arguments : List Value) :
    callbackOf method arguments = .done (argument arguments 0) ∨
      ∃ fault : Heap → TypeFault, ∀ {α : Type} (next : Value → Eval α),
        callbackOf method arguments >>= next = Eval.heap >>= fun h => Eval.typeError (fault h) := by
  by_cases callable : (argument arguments 0).isCallable = true
  · left
    rw [callbackOf, if_pos callable]
    rfl
  · right
    rw [callbackOf, if_neg callable]
    refine ⟨fun h => .notACallback ((argument arguments 0).display h) method.name, fun next => ?_⟩
    refine congrArg (Eval.perform .heap) (funext fun h => ?_)
    exact congrArg (Eval.perform _) (funext fun never => never.elim)

/-! ## Walks and folds -/

section

variable {env : Environment} {under : List Task} {m : Machine} {ref : ArrayRef}
  {answer : (task : Task) → Environment → Machine → Ledger task.Answer}
  (traced : ∀ part m, (answer part env m).Traced env under m)
  (once : ∀ part m, asked under.length m (answer part env m).events = [] ∨
    asked under.length m (answer part env m).events = [(part, m)])

include traced once

theorem walk_increasing {method : ArrayMethod} (walks : method ≠ .reduce) (function : Value)
    {size left index : Nat} (gathered : Array Value) (within : index + left ≤ size) :
    Increasing (fun index call => method.Visits function ref index call ∧ index < size) index
      (asked under.length m
        ((walk method ref function left index gathered).ledger answer env m).events) := by
  have stop (gathered : Array Value) (m : Machine) :
      asked under.length m ((walkEnd method gathered).ledger answer env m).events = [] := by
    refine Eval.asked_nothing ?_ m
    cases method <;> first | trivial | exact fun _ => trivial
  induction left generalizing index gathered m with
  | zero => exact stop gathered m ▸ .nil
  | succ left ih =>
      rw [walk, Eval.asked_heap]
      cases found : (m.heap.arrayAt ref)[index]? with
      | none => exact stop gathered m ▸ .nil
      | some item =>
          have visit : method.Visits function ref index
              (.call function [item, naturalValue index, .array ref], m) :=
            ⟨item, found, (if_neg walks).mpr rfl⟩
          have called := once (.call function [item, naturalValue index, .array ref]) m
          dsimp only
          rw [Eval.ledger_call]
          refine Increasing.behind (traced _ m) called ⟨visit, by omega⟩ fun result after _ => ?_
          cases walkStep method gathered index item result with
          | done value => exact .nil
          | next gathered => exact ih gathered (by omega)

theorem walkAll_increasing {method : ArrayMethod} (walks : method ≠ .reduce)
    (arguments : List Value) :
    Increasing (fun index call => method.Visits (argument arguments 0) ref index call ∧
        index < (m.heap.arrayAt ref).size) 0
      (asked under.length m ((walkAll method ref arguments).ledger answer env m).events) := by
  rw [walkAll, Eval.asked_heap]
  rcases callbackOf_cases method arguments with called | ⟨fault, refused⟩
  · rw [called]
    exact walk_increasing traced once walks _ _ (Nat.le_of_eq (Nat.zero_add _))
  · rw [refused]
    exact .nil

omit traced once in
theorem foldStart_function {arguments : List Value} {fold : Fold} {after : Machine}
    (started : ((foldStart ref arguments).ledger answer env m).outcome = .ok fold after) :
    fold.function = argument arguments 0 := by
  rw [foldStart] at started
  rcases callbackOf_cases .reduce arguments with called | ⟨fault, refused⟩
  · rw [called] at started
    cases given : arguments[1]? with
    | some initial =>
        rw [given] at started
        cases started
        rfl
    | none =>
        rw [given] at started
        change ((Eval.heap >>= _).ledger answer env m).outcome = _ at started
        rw [Eval.ledger_heap] at started
        cases first : (m.heap.arrayAt ref)[0]? with
        | some first =>
            rw [first] at started
            cases started
            rfl
        | none =>
            rw [first] at started
            cases started
  · rw [refused] at started
    cases started

omit traced in
/-- A turn of a fold visits one element, or there is none and the turn is the
    last. -/
theorem foldTurn_cases (fold : Fold) (m : Machine) :
    (foldTurn ref fold).ledger answer env m =
      ⟨[.performed .heap none m], 0, .ok (.finished fold.total) m⟩ ∨
    ∃ call, ArrayMethod.Visits .reduce fold.function ref fold.index call ∧
      (asked under.length m ((foldTurn ref fold).ledger answer env m).events = [] ∨
        asked under.length m ((foldTurn ref fold).ledger answer env m).events = [call]) ∧
      ∀ reached after, ((foldTurn ref fold).ledger answer env m).outcome = .ok reached after →
        ∃ total, reached = .again { fold with index := fold.index + 1, total := total } := by
  rw [foldTurn, Eval.ledger_heap]
  cases found : (m.heap.arrayAt ref)[fold.index]? with
  | none => exact .inl rfl
  | some item =>
      let part := Task.call fold.function [fold.total, item, naturalValue fold.index, .array ref]
      let again (total : Value) : Turn Fold Value :=
        .again { fold with index := fold.index + 1, total := total }
      have called : (foldItem ref fold (some item)).ledger answer env m =
          (answer part env m).andThen fun total m => ⟨[], 0, .ok (again total) m⟩ := rfl
      refine .inr ⟨(part, m), ⟨item, found, fold.total, rfl⟩, ?_, fun reached after ended => ?_⟩
      · rw [asked_cons_none rfl, called, Ledger.andThen_returns]
        exact once part m
      · rw [called, Ledger.andThen_outcome] at ended
        cases outcome : (answer part env m).outcome with
        | ok total middle =>
            rw [outcome] at ended
            cases ended
            exact ⟨total, rfl⟩
        | error error middle =>
            rw [outcome] at ended
            cases ended

theorem fold_increasing (ref : ArrayRef) (bound : Nat) (fold : Fold) (m : Machine) :
    Increasing (ArrayMethod.Visits .reduce fold.function ref) fold.index
      (asked under.length m (Ledger.repeated (fun fold => (foldTurn ref fold).ledger answer)
        bound fold env m).events) := by
  induction bound generalizing fold m with
  | zero => exact .nil
  | succ bound ih =>
      rw [Ledger.repeated]
      rcases foldTurn_cases once fold m with ended | ⟨call, visit, once, again⟩
      · rw [ended]
        exact .nil
      · refine .behind (Eval.ledger_traced traced (foldTurn ref fold) m) once visit ?_
        intro reached after ended
        obtain ⟨total, rfl⟩ := again reached after ended
        exact ih { fold with index := fold.index + 1, total := total } after

/-- A rule visits the elements of the array that it finds, a fold also later
    ones. -/
theorem ArrayMethod.rule_increasing {method : ArrayMethod}
    (listed : method ∈ [map, filter, forEach, some, every, find, findIndex, reduce])
    (arguments : List Value) (turns : Nat) :
    Increasing (fun index call => method.Visits (argument arguments 0) ref index call ∧
        (method ≠ .reduce → index < (m.heap.arrayAt ref).size)) 0
      (asked under.length m
        ((method.rule ref arguments).ledger answer under turns env m).events) := by
  by_cases folds : method = .reduce
  · subst folds
    have started : asked under.length m ((foldStart ref arguments).ledger answer env m).events = [] :=
      Eval.asked_nothing (foldStart_quiet ref arguments).asks m
    refine Increasing.unasked (Eval.ledger_traced traced (foldStart ref arguments) m) started ?_
    intro fold after begun
    have function := foldStart_function begun
    have folded := (fold_increasing traced once ref turns fold after).from (Nat.zero_le _)
    rw [function] at folded
    exact folded.mono fun index call visit => ⟨visit, fun folds => absurd rfl folds⟩
  · have walks : method.rule ref arguments = .once (walkAll method ref arguments) := by
      simp only [List.mem_cons, List.not_mem_nil, or_false] at listed
      rcases listed with rfl | rfl | rfl | rfl | rfl | rfl | rfl | rfl <;>
        first | rfl | exact absurd rfl folds
    rw [walks]
    exact (walkAll_increasing traced once folds arguments).mono fun index call visit =>
      ⟨visit.1, fun _ => visit.2⟩

end

/-! ## Runs -/

/-- Wherever a method of an array calls back, in any run, from when it is called
    until it is left: each call of the callback is for a larger index than the
    one before, with the element that is there at that moment.  The index is
    below the size that the array had at first, except in a fold in which the
    array has become longer. -/
theorem Eval.history_visits {α : Type} (eval : Eval α) (env : Environment) (m : Machine)
    {before later : List Event} {under : List Task} {identity : Nat} {ref : ArrayRef}
    {method : ArrayMethod} {arguments : List Value}
    (split : (eval.history env m).events =
      before ++ .entered (.call (.bound identity (.array ref method)) arguments) under :: later)
    (listed : method ∈
      [.map, .filter, .forEach, .some, .every, .find, .findIndex, .reduce]) :
    let task := Task.call (.bound identity (.array ref method)) arguments
    let found := m.replay (before ++ [.entered task under])
    ∃ indices : List Nat, indices.Pairwise (· < ·) ∧
      List.Forall₂
        (fun index call => method.Visits (argument arguments 0) ref index call ∧
          ((method = .reduce →
              (call.2.heap.arrayAt ref).size ≤ (found.heap.arrayAt ref).size) →
            index < (found.heap.arrayAt ref).size))
        indices (asked (under.length + 1) found (untilLeft later 0)) := by
  intro task found
  obtain ⟨rank, inside⟩ := eval.history_opens env m split
  rw [inside]
  obtain ⟨indices, increasing, -, each⟩ := ArrayMethod.rule_increasing
    (Task.ledger_traced rank (task :: under)) (Task.asked_ledger rank (task :: under)) listed
    arguments (rank + 1)
  refine ⟨indices, increasing, each.imp fun index call ⟨visit, below⟩ => ⟨visit, fun holds => ?_⟩⟩
  by_cases folds : method = .reduce
  · obtain ⟨item, here, -⟩ := visit
    exact Nat.lt_of_lt_of_le (Array.getElem?_eq_some_iff.mp here).1 (holds folds)
  · exact below folds

/-! ## Events of programs -/

def eventsOf (env : Environment) (source : String) : List Event :=
  match Program.parse source with
  | .ok program => (Errand.run program).events env (.fresh env.limits)
  | .error _ => []

theorem exists_program_of_anyEvent {env : Environment} {source : String}
    {test : Machine → Event → List Event → Bool}
    (any : anyEvent test (.fresh env.limits) (eventsOf env source) = true) :
    ∃ program, Program.parse source = .ok program ∧ ∃ before event later,
      (Errand.run program).events env (.fresh env.limits) = before ++ event :: later ∧
      test ((Machine.fresh env.limits).replay (before ++ [event])) event later = true := by
  unfold eventsOf at any
  cases parsed : Program.parse source with
  | error error =>
      rw [parsed] at any
      cases any
  | ok program =>
      rw [parsed] at any
      exact ⟨program, rfl, exists_split_of_anyEvent any⟩

/-! ## Arrays that grow -/

/-- Somewhere in the events the method is called on an array of that size, and
    calls back so many times. -/
def callsBack (method : ArrayMethod) (size count : Nat) : Machine → List Event → Bool
  | _, [] => false
  | m, event :: rest =>
      (match event with
        | .entered (.call (.bound _ (.array ref called)) _) under =>
            called == method && ((m.advance event).heap.arrayAt ref).size == size &&
              (asked (under.length + 1) (m.advance event) (untilLeft rest 0)).length == count
        | _ => false) ||
      callsBack method size count (m.advance event) rest

theorem exists_split_of_callsBack {method : ArrayMethod} {size count : Nat} {m : Machine}
    {events : List Event} (calls : callsBack method size count m events = true) :
    ∃ before identity ref arguments under later,
      events = before ++ .entered (.call (.bound identity (.array ref method)) arguments) under ::
        later ∧
      let found := m.replay
        (before ++ [.entered (.call (.bound identity (.array ref method)) arguments) under])
      (found.heap.arrayAt ref).size = size ∧
        (asked (under.length + 1) found (untilLeft later 0)).length = count := by
  induction events generalizing m with
  | nil => cases calls
  | cons event rest ih =>
      simp only [callsBack, Bool.or_eq_true] at calls
      rcases calls with here | further
      · split at here
        · simp only [Bool.and_eq_true, beq_iff_eq] at here
          obtain ⟨⟨rfl, size⟩, count⟩ := here
          exact ⟨[], _, _, _, _, rest, rfl, size, count⟩
        · cases here
      · obtain ⟨before, identity, ref, arguments, under, later, rfl, counted⟩ := ih further
        exact ⟨event :: before, identity, ref, arguments, under, later, rfl, counted⟩

/-- The callbacks append to the arrays that are visited. -/
def growing : String :=
  "var a=[1,2];a.forEach(x=>a.push(x));var b=[1,2];var seen=[];" ++
    "b.reduce((t,x,i)=>seen.push(i)<3&&b.push(x),0);"

def growingSettings : Environment :=
  ⟨{ stepBudget := 200 }, fun _ => 0⟩

def growingEvents : List Event :=
  match Program.parse growing with
  | .ok program => (Errand.run program).events growingSettings (.fresh growingSettings.limits)
  | .error _ => []

theorem growing_split {method : ArrayMethod} {size count : Nat}
    (calls : callsBack method size count (.fresh growingSettings.limits) growingEvents = true) :
    ∃ program, Program.parse growing = .ok program ∧
      ∃ before identity ref arguments under later,
        (Errand.run program).events growingSettings (.fresh growingSettings.limits) =
          before ++ .entered (.call (.bound identity (.array ref method)) arguments) under :: later ∧
        let found := (Machine.fresh growingSettings.limits).replay
          (before ++ [.entered (.call (.bound identity (.array ref method)) arguments) under])
        (found.heap.arrayAt ref).size = size ∧
          (asked (under.length + 1) found (untilLeft later 0)).length = count := by
  unfold growingEvents at calls
  cases parsed : Program.parse growing with
  | error error =>
      rw [parsed] at calls
      cases calls
  | ok program =>
      rw [parsed] at calls
      exact ⟨program, rfl, exists_split_of_callsBack calls⟩

/-- The walk visits the two elements that there are at first. -/
theorem growing_walk_visits :
    ∃ program, Program.parse growing = .ok program ∧
      ∃ before identity ref arguments under later,
        (Errand.run program).events growingSettings (.fresh growingSettings.limits) =
          before ++ .entered (.call (.bound identity (.array ref .forEach)) arguments) under ::
            later ∧
        let found := (Machine.fresh growingSettings.limits).replay
          (before ++ [.entered (.call (.bound identity (.array ref .forEach)) arguments) under])
        ∃ indices : List Nat, indices.length = 2 ∧ indices.Pairwise (· < ·) ∧
          List.Forall₂
            (fun index call => ArrayMethod.Visits .forEach (argument arguments 0) ref index call ∧
              index < 2)
            indices (asked (under.length + 1) found (untilLeft later 0)) := by
  have calls : callsBack .forEach 2 2 (.fresh growingSettings.limits) growingEvents = true := by
    decide +kernel
  obtain ⟨program, parsed, before, identity, ref, arguments, under, later, split, size, count⟩ :=
    growing_split calls
  refine ⟨program, parsed, before, identity, ref, arguments, under, later, split, ?_⟩
  obtain ⟨indices, increasing, each⟩ := (programRule program.body).history_visits growingSettings
    (.fresh growingSettings.limits) split (by decide)
  refine ⟨indices, each.length_eq.trans count, increasing, ?_⟩
  exact each.imp fun index call ⟨visit, below⟩ => ⟨visit, size ▸ below nofun⟩

/-- The fold goes on to what its callback has appended. -/
theorem growing_exceeds_size :
    ∃ program, Program.parse growing = .ok program ∧
      ∃ before identity ref arguments under later,
        (Errand.run program).events growingSettings (.fresh growingSettings.limits) =
          before ++ .entered (.call (.bound identity (.array ref .reduce)) arguments) under ::
            later ∧
        let found := (Machine.fresh growingSettings.limits).replay
          (before ++ [.entered (.call (.bound identity (.array ref .reduce)) arguments) under])
        ¬ ∃ indices : List Nat, indices.Pairwise (· < ·) ∧
          List.Forall₂
            (fun index call => ArrayMethod.Visits .reduce (argument arguments 0) ref index call ∧
              index < (found.heap.arrayAt ref).size)
            indices (asked (under.length + 1) found (untilLeft later 0)) := by
  have calls : callsBack .reduce 2 4 (.fresh growingSettings.limits) growingEvents = true := by
    decide +kernel
  obtain ⟨program, parsed, before, identity, ref, arguments, under, later, split, size, count⟩ :=
    growing_split calls
  refine ⟨program, parsed, before, identity, ref, arguments, under, later, split, ?_⟩
  rintro found ⟨indices, increasing, each⟩
  -- Four different indices are not all below two.
  have below : ∀ index ∈ indices, index < (found.heap.arrayAt ref).size :=
    ((List.forall₂_and_left _ _).mp (each.imp fun _ _ visit => visit.symm)).1
  have few : indices.length ≤ (List.range (found.heap.arrayAt ref).size).length :=
    (List.subperm_of_subset (increasing.imp Nat.ne_of_lt)
      fun index member => List.mem_range.mpr (below index member)).length_le
  rw [each.length_eq, count, List.length_range, size] at few
  omega

end StrategyQubo.Script
