import StrategyQubo.Proofs.Course

namespace StrategyQubo.Script

/-! # Thrown values

A thrown value travels in a place that the whole machine has one of.  What a
catch clause is given depends on what has become of that place since the throw.
-/

/-- The value in flight after an event: the one of the last throw, until a catch
    clause takes a thrown error. -/
def Event.inFlight (value? : Option Value) : Event → Option Value
  | threw value => some value
  | caught _ (.thrown _) _ _ => none
  | _ => value?

def inFlightAfter (value? : Option Value) (events : List Event) : Option Value :=
  events.foldl Event.inFlight value?

/-- A clause that catches what has been thrown is given the value in flight, or
    else the text of the error.  The error was raised by a throw, as many events
    ago as are said to have happened since. -/
def Event.Intercepts (before later : List Event) : Event → Prop
  | caught under (.thrown text) since given =>
      ∃ earlier value between, before = earlier ++ .threw value :: between ∧
        between.length = since ∧ (∃ h : Heap, text = value.display h) ∧
        given = (inFlightAfter (some value) between).getD (.string text) ∧
        BindsGiven under given later
  | _ => True

theorem BindsGiven.append {under : List Task} {given : Value} {events : List Event}
    (binds : BindsGiven under given events) (later : List Event) :
    BindsGiven under given (events ++ later) := by
  intro block name handler finalizer scope outer same
  obtain ⟨opened, inner, bound, rest, split, found⟩ :=
    binds block name handler finalizer scope outer same
  exact ⟨opened, inner, bound, rest ++ later, by rw [split]; rfl, found⟩

theorem Event.Intercepts.widen {event : Event} {before later : List Event}
    (intercepts : event.Intercepts before later) (earlier after : List Event) :
    event.Intercepts (earlier ++ before) (later ++ after) := by
  unfold Event.Intercepts at intercepts ⊢
  split at intercepts
  · obtain ⟨first, value, between, split, since, text, given, binds⟩ := intercepts
    exact ⟨earlier ++ first, value, between, by simp [split], since, text, given, binds.append after⟩
  · trivial

/-- Every catch clause of these events is given what it should be. -/
def Intercepted (events : List Event) : Prop :=
  ∀ before event later, events = before ++ event :: later → event.Intercepts before later

namespace Intercepted

variable {first second : List Event}

theorem nil : Intercepted [] := by
  intro before event later split
  simp at split

theorem append (begun : Intercepted first) (rest : Intercepted second) :
    Intercepted (first ++ second) := by
  intro before event later split
  rcases List.append_eq_append_iff.mp split with ⟨more, rfl, tail⟩ | ⟨more, rfl, tail⟩
  · simpa using (rest more event later tail).widen first []
  · cases more with
    | nil =>
        have found := rest [] event later (by simpa using tail.symm)
        simpa using found.widen before []
    | cons head more =>
        obtain ⟨rfl, rfl⟩ := List.cons.inj tail
        simpa using (begun before event more rfl).widen [] second

theorem insert {event : Event} (begun : Intercepted first) (intercepts : event.Intercepts first second)
    (rest : Intercepted second) : Intercepted (first ++ event :: second) := by
  intro before event' later split
  rcases List.append_eq_append_iff.mp split with ⟨more, rfl, tail⟩ | ⟨more, rfl, tail⟩
  · cases more with
    | nil =>
        obtain ⟨rfl, rfl⟩ := List.cons.inj tail
        simpa using intercepts
    | cons head more =>
        obtain ⟨rfl, rfl⟩ := List.cons.inj tail
        simpa using (rest more event' later rfl).widen (first ++ [event]) []
  · cases more with
    | nil =>
        obtain ⟨rfl, rfl⟩ := List.cons.inj tail
        simpa using intercepts
    | cons head more =>
        obtain ⟨rfl, rfl⟩ := List.cons.inj tail
        simpa using (begun before event' more rfl).widen [] (event :: second)

theorem single {event : Event} (intercepts : event.Intercepts [] []) : Intercepted [event] :=
  nil.insert intercepts nil

end Intercepted

/-! ## Courses -/

section

variable {env : Environment} {under : List Task} {m after : Machine} {events : List Event}
  {failure? : Option (ScriptError × Nat)}

theorem inFlightAfter_append (value? : Option Value) (first second : List Event) :
    inFlightAfter value? (first ++ second) = inFlightAfter (inFlightAfter value? first) second :=
  List.foldl_append

/-- Throws and catch clauses are all that the value in flight depends on. -/
theorem Course.thrown_eq (course : Course env under m events failure? after) :
    after.thrown = inFlightAfter m.thrown events := by
  induction course with
  | nothing => rfl
  | performed op => exact op.run_thrown env _
  | threw value => rfl
  | refused task asked refused => rw [refused.machine]; rfl
  | task task asked granted inner ih =>
      rw [granted.machine] at ih
      rw [task.leave_eq, List.cons_append, inFlightAfter, List.foldl_cons, List.foldl_append]
      exact ih
  | andThen begun rest first second => rw [inFlightAfter_append, ← first, second]
  | @caught _ _ _ error _ middle _ _ _ body catchable binds handler first second =>
      rw [inFlightAfter_append, ← first, second]
      cases error <;> rfl
  | passed before catchable finalizer first second => rw [inFlightAfter_append, ← first, second]
  | replaced before catchable finalizer first second => rw [inFlightAfter_append, ← first, second]

/-- So many events ago there was a throw that makes an error with this text. -/
def RaisedByThrow (events : List Event) (text : String) (since : Nat) : Prop :=
  ∃ earlier value between, events = earlier ++ .threw value :: between ∧
    between.length = since ∧ ∃ h : Heap, text = value.display h

namespace RaisedByThrow

variable {first second : List Event} {text : String} {since : Nat}

theorem append_left (raised : RaisedByThrow second text since) (first : List Event) :
    RaisedByThrow (first ++ second) text since := by
  obtain ⟨earlier, value, between, rfl, since, text⟩ := raised
  exact ⟨first ++ earlier, value, between, by simp, since, text⟩

theorem append_right (raised : RaisedByThrow first text since) (second : List Event) :
    RaisedByThrow (first ++ second) text (since + second.length) := by
  obtain ⟨earlier, value, between, rfl, since, text⟩ := raised
  exact ⟨earlier, value, between ++ second, by simp, by simp [since], text⟩

end RaisedByThrow

/-- A thrown error was raised by a throw, that long ago. -/
theorem Course.raisedByThrow (course : Course env under m events failure? after) {text : String}
    {since : Nat} (thrown : failure? = some (.thrown text, since)) :
    RaisedByThrow events text since := by
  induction course generalizing since with
  | nothing => cases thrown
  | @performed _ m op =>
      cases ended : op.run env m with
      | ok value after => simp [ended] at thrown
      | error error after =>
          simp only [ended, Outcome.error?_error, Option.map_some, Option.some.injEq,
            Prod.mk.injEq] at thrown
          exact absurd (thrown.1 ▸ ended) (op.run_not_thrown env m text after)
  | @threw _ m value =>
      cases thrown
      exact ⟨[], value, [], rfl, rfl, m.heap, rfl⟩
  | refused task asked refused =>
      cases thrown
      cases refused.final
  | task task asked granted inner ih =>
      obtain ⟨⟨error, since⟩, failed, same⟩ := Option.map_eq_some_iff.mp thrown
      cases same
      rw [List.cons_append, ← List.singleton_append]
      exact ((ih failed).append_right _).append_left _
  | andThen begun rest first second => exact (second thrown).append_left _
  | caught body catchable binds handler first second =>
      rw [List.append_cons]
      exact (second thrown).append_left _
  | passed before catchable finalizer first second =>
      cases thrown
      exact (first rfl).append_right _
  | replaced before catchable finalizer first second => exact (second thrown).append_left _

theorem Course.intercepted (course : Course env under m events failure? after) :
    Intercepted events := by
  induction course with
  | nothing => exact .nil
  | performed op => exact .single trivial
  | threw value => exact .single trivial
  | refused task asked refused => exact .single trivial
  | @task under _ _ events _ _ task asked granted inner ih =>
      have entered : Intercepted (.entered task under :: events) := Intercepted.nil.insert trivial ih
      exact entered.append (.single trivial)
  | andThen begun rest first second => exact first.append second
  | @caught _ _ _ error _ middle _ _ _ body catchable binds handler first second =>
      refine first.insert ?_ second
      cases error with
      | thrown text =>
          obtain ⟨earlier, value, between, rfl, since, text⟩ := body.raisedByThrow rfl
          refine ⟨earlier, value, between, rfl, since, text, ?_, binds⟩
          have flight := body.thrown_eq
          rw [inFlightAfter_append, inFlightAfter, List.foldl_cons] at flight
          simp only [Machine.catching, flight]
          rfl
      | _ => trivial
  | passed before catchable finalizer first second => exact first.append second
  | replaced before catchable finalizer first second => exact first.append second

end

/-- A catch clause that intercepts a thrown error is given a value that depends
    on two things: the value with which that error was raised, and what has been
    thrown and caught since.  The clause is given that very value if and only if
    it is still in flight, or nothing is and the text of the error, which is
    given in its place, is the value itself. -/
theorem Eval.history_caught {α : Type} (eval : Eval α) (env : Environment) (m : Machine)
    (before later : List Event) (under : List Task) (text : String) (since : Nat) (given : Value)
    (split : (eval.history env m).events =
      before ++ .caught under (.thrown text) since given :: later) :
    BindsGiven under given later ∧
    ∃ earlier value between, before = earlier ++ .threw value :: between ∧
      between.length = since ∧ (∃ h : Heap, text = value.display h) ∧
      (given = value ↔ inFlightAfter (some value) between = some value ∨
        inFlightAfter (some value) between = none ∧ value = .string text) := by
  have course := eval.history_follows env m
  obtain ⟨earlier, value, between, origin, length, shown, same, binds⟩ :=
    Course.intercepted course before _ later split
  refine ⟨binds, earlier, value, between, origin, length, shown, ?_⟩
  rw [same]
  cases flight : inFlightAfter (some value) between with
  | none => simp [eq_comm]
  | some other => simp

/-! ## Finalizers that throw and catch -/

/-- A catch clause takes a thrown error and is given a text. -/
def Event.givesText : Event → Bool
  | caught _ (.thrown _) _ (.string _) => true
  | _ => false

/-- What is thrown, if something is, is an object. -/
def Event.throwsObject : Event → Bool
  | threw (.object _) => true
  | threw _ => false
  | _ => true

theorem Event.caught_of_givesText {event : Event} (gives : event.givesText = true) :
    ∃ under text since given, event = .caught under (.thrown text) since (.string given) := by
  unfold givesText at gives
  split at gives
  · exact ⟨_, _, _, _, rfl⟩
  · cases gives

/-- While an object is in flight a finalizer throws and catches another one. -/
def crossing : Program := ⟨[
  .declaration .var [.declare "seen" none],
  .tryBlock
    [.tryBlock [.throwValue (.object [.entry (.fixed "code") (.number 7.0)])] none none
      (some [.tryBlock [.throwValue (.object [])] (some "e") (some []) none])]
    (some "e")
    (some [.expression (.assign none (.identifier "seen") (.identifier "e"))])
    none]⟩

def crossingSettings : Environment :=
  ⟨{ stepBudget := 100 }, fun _ => 0⟩

theorem crossing_gives_text :
    ∃ before under text since given later,
      ((programRule crossing.body).history crossingSettings (.fresh crossingSettings.limits)).events =
        before ++ .caught under (.thrown text) since (.string given) :: later := by
  have gives : ((programRule crossing.body).history crossingSettings
      (.fresh crossingSettings.limits)).events.any Event.givesText = true := by
    decide +kernel
  obtain ⟨event, member, gives⟩ := List.any_eq_true.mp gives
  obtain ⟨under, text, since, given, rfl⟩ := event.caught_of_givesText gives
  obtain ⟨before, later, split⟩ := List.append_of_mem member
  exact ⟨before, under, text, since, given, later, split⟩

theorem crossing_throws_objects :
    ((programRule crossing.body).history crossingSettings
      (.fresh crossingSettings.limits)).events.all Event.throwsObject = true := by
  decide +kernel

/-- The outer clause is not given the object with which its error was raised. -/
theorem crossing_loses_value :
    ∃ before under text since given later,
      ((programRule crossing.body).history crossingSettings (.fresh crossingSettings.limits)).events =
        before ++ .caught under (.thrown text) since given :: later ∧
      ∃ earlier value between, before = earlier ++ .threw value :: between ∧
        between.length = since ∧ given ≠ value := by
  obtain ⟨before, under, text, since, given, later, split⟩ := crossing_gives_text
  refine ⟨before, under, text, since, .string given, later, split, ?_⟩
  have course := (programRule crossing.body).history_follows crossingSettings
    (.fresh crossingSettings.limits)
  obtain ⟨earlier, value, between, rfl, length, -⟩ := Course.intercepted course before _ later split
  refine ⟨earlier, value, between, rfl, length, ?_⟩
  rintro rfl
  have object := List.all_eq_true.mp crossing_throws_objects (.threw (.string given))
    (by simp [split])
  cases object

/-- Nothing is in flight any more when the outer clause is given a text. -/
theorem crossing_empties_flight :
    ∃ before under text since given later,
      ((programRule crossing.body).history crossingSettings (.fresh crossingSettings.limits)).events =
        before ++ .caught under (.thrown text) since given :: later ∧
      ∃ earlier value between, before = earlier ++ .threw value :: between ∧
        inFlightAfter (some value) between ≠ some value := by
  obtain ⟨before, under, text, since, given, later, split⟩ := crossing_gives_text
  refine ⟨before, under, text, since, .string given, later, split, ?_⟩
  obtain ⟨-, earlier, value, between, rfl, -, -, exact'⟩ :=
    Eval.history_caught _ _ _ _ _ _ _ _ _ split
  refine ⟨earlier, value, between, rfl, fun still => ?_⟩
  have object := List.all_eq_true.mp crossing_throws_objects (.threw value) (by simp [split])
  rw [← exact'.mpr (.inl still)] at object
  cases object

end StrategyQubo.Script
