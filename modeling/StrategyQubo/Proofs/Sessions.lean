import StrategyQubo.Proofs.SoundLedgers
import StrategyQubo.Strategy.EntryPoint

namespace StrategyQubo.Script

open Strategy (readLog)

/-! # Sessions

All that is done to one machine from outside, from when it is made: programs
are run on it and functions are called, one after the other, whether they fail
or not.  What is sound stays so for a whole session.
-/

/-- The value is bound, stored or in flight. -/
inductive Machine.Holds (m : Machine) : Value → Prop where
  | binding {scope entry} (made : scope ∈ m.scopes) (bound : entry ∈ scope.bindings) :
      Holds m entry.2.value
  | element {items value} (made : items ∈ m.heap.arrays) (member : value ∈ items) : Holds m value
  | property {record entry} (made : record ∈ m.heap.objects) (member : entry ∈ record) :
      Holds m entry.2
  | thrown {value} (inFlight : value ∈ m.thrown) : Holds m value

/-- What those outside bring along: the programs that they run, their own values
    and the arrays that they make.  What happens on the way is what they allow. -/
structure Host where
  runs : Program → Prop
  gives : Value → Prop
  makes : Array Value → Prop
  allows : Event → Prop

/-- Whether a value can be passed to a machine that has shown these others. -/
def Host.Knows (host : Host) (shown : List Value) (value : Value) : Prop :=
  value ∈ shown ∨ host.gives value

inductive Errand where
  | run (program : Program)
  | call (function : Value) (arguments : List Value)

namespace Errand

def Permitted (host : Host) (shown : List Value) : Errand → Prop
  | run program => host.runs program
  | call function arguments => ∀ value ∈ function :: arguments, host.Knows shown value

variable (env : Environment) (m : Machine)

def events : Errand → List Event
  | run program => ((programRule program.body).history env m).events
  | call function arguments => ((Eval.call function arguments).history env m).events

/-- The machine afterwards. -/
def machine : Errand → Machine
  | run program => (runProgram program env m).machine
  | call function arguments => (callFunction function arguments env m).machine

def answers : Errand → List Value
  | run _ => []
  | call function arguments =>
      match callFunction function arguments env m with
      | .ok value _ => [value]
      | .error _ _ => []

end Errand

/-- A machine and the values that it has shown so far: those that were looked at
    where it held them, and what it has answered. -/
inductive Session (env : Environment) (host : Host) : Machine → List Value → Prop where
  | fresh : Session env host (.fresh env.limits) []
  | look {m shown value} (before : Session env host m shown) (held : m.Holds value) :
      Session env host m (value :: shown)
  | errand {m shown} {errand : Errand} (before : Session env host m shown)
      (permitted : errand.Permitted host shown)
      (allowed : ∀ event ∈ errand.events env m, host.allows event) :
      Session env host (errand.machine env m) (errand.answers env m ++ shown)
  | array {m shown items} (before : Session env host m shown) (makes : host.makes items)
      (known : ∀ item ∈ items, host.Knows shown item) :
      Session env host { m with heap := (m.heap.newArray items).2 }
        (.array (m.heap.newArray items).1 :: shown)
  | logRead {m shown} (before : Session env host m shown) : Session env host (readLog m) shown

/-! ## Sound sessions -/

section

variable {env : Environment} {r : Ration env.limits} {host : Host} {m : Machine}
  {shown : List Value}

/-- Those outside keep to the ration. -/
structure Host.Respects (host : Host) (r : Ration env.limits) : Prop where
  runs : ∀ program, host.runs program →
    ∀ statement ∈ program.body, statement.Spelled r.spelling
  gives : ∀ value, host.gives value → ∀ scopes, value.Sound r scopes
  makes : ∀ items, host.makes items → r.allows items.size
  allows : ∀ event, host.allows event → event.Spares r

/-- Neither a text nor a function of a script. -/
def Value.isPlain : Value → Bool
  | .string _ => false
  | .closure _ => false
  | .bound _ _ => false
  | _ => true

theorem Value.sound_of_isPlain {value : Value} (plain : value.isPlain = true) (scopes : Nat) :
    value.Sound r scopes := by
  cases value <;> trivial

theorem Record.sound_of_plain {record : Record} (size : record.length ≤ 1024)
    (keys : ∀ entry ∈ record, entry.1.utf8ByteSize ≤ 1024)
    (plain : ∀ entry ∈ record, entry.2.isPlain = true) (scopes : Nat) : record.Sound r scopes :=
  ⟨r.shorter size r.short, fun entry member => r.text_of_short (keys entry member),
    fun entry member => Value.sound_of_isPlain (plain entry member) scopes⟩

theorem Machine.fresh_sound : (Machine.fresh env.limits).Sound r where
  arena := by
    refine ⟨⟨_, rfl, rfl⟩, fun scope s found positive => ?_⟩
    have made := (Array.getElem?_eq_some_iff.mp found).1
    exact absurd made (Nat.not_lt_of_le positive)
  bindings scope member entry bound := by
    have plain : ∀ entry ∈ globalBindings, entry.2.value.isPlain = true := by decide
    obtain rfl : scope = ⟨globalBindings, none, true⟩ := by simpa [Machine.fresh] using member
    exact Value.sound_of_isPlain (plain entry bound) _
  heap := by
    refine ⟨nofun, fun record member => ?_⟩
    have known : record = mathRecord ∨ record = objectRecord ∨ record = consoleRecord := by
      simpa [Machine.fresh, globalHeap] using member
    rcases known with rfl | rfl | rfl <;>
      exact Record.sound_of_plain (by decide) (by decide) (by decide) _
  thrown := nofun

theorem Machine.Holds.sound {value : Value} (held : m.Holds value) (sound : m.Sound r) :
    value.Sound r m.scopes.size := by
  cases held with
  | binding made bound => exact sound.bindings _ made _ bound
  | element made member => exact (sound.heap.arrays _ made).items value member
  | property made member => exact (sound.heap.objects _ made).values _ member
  | thrown inFlight => exact sound.thrown value inFlight

theorem Host.Knows.sound {value : Value} {scopes : Nat} (known : host.Knows shown value)
    (respects : host.Respects r) (given : ∀ value ∈ shown, value.Sound r scopes) :
    value.Sound r scopes := by
  rcases known with seen | brought
  · exact given value seen
  · exact respects.gives value brought scopes

/-- An errand passes through sound machines. -/
structure Errand.Sound (r : Ration env.limits) (m : Machine) (errand : Errand) : Prop where
  passage : Passage r m (errand.events env m)
  replayed : m.replay (errand.events env m) = errand.machine env m
  answers : ∀ value ∈ errand.answers env m, value.Sound r (errand.machine env m).scopes.size

theorem Errand.sound {errand : Errand} (respects : host.Respects r) (sound : m.Sound r)
    (given : ∀ value ∈ shown, value.Sound r m.scopes.size)
    (permitted : errand.Permitted host shown)
    (spared : ∀ event ∈ errand.events env m, event.Spares r) : errand.Sound r m := by
  cases errand with
  | run program =>
      have history := Eval.history_sound
        (programRule_runs sound (respects.runs program permitted)) sound spared
      refine ⟨history.passage, ?_, nofun⟩
      exact history.replayed.trans (congrArg Outcome.machine (Eval.history_outcome ..))
  | call function arguments =>
      obtain ⟨callable, others⟩ := List.forall_mem_cons.mp
        fun value member => (permitted value member).sound respects given
      have history := Eval.history_sound (Eval.call_gives arguments callable others) sound spared
      have outcome := Eval.history_outcome (.call function arguments) env m
      refine ⟨history.passage, history.replayed.trans (congrArg Outcome.machine outcome), ?_⟩
      intro value member
      simp only [answers] at member
      split at member
      · next answer after ended =>
        obtain rfl := List.mem_singleton.mp member
        simp only [machine, ended]
        exact history.gives value after (outcome.trans ended)
      · cases member

theorem Session.sound (session : Session env host m shown) (respects : host.Respects r) :
    m.Sound r ∧ ∀ value ∈ shown, value.Sound r m.scopes.size := by
  induction session with
  | fresh => exact ⟨Machine.fresh_sound, nofun⟩
  | look before held ih =>
      obtain ⟨sound, given⟩ := ih
      exact ⟨sound, List.forall_mem_cons.mpr ⟨held.sound sound, given⟩⟩
  | errand before permitted allowed ih =>
      obtain ⟨sound, given⟩ := ih
      have done := Errand.sound respects sound given permitted
        fun event member => respects.allows event (allowed event member)
      have leads := done.replayed ▸ done.passage.leads sound
      refine ⟨leads.sound, fun value member => ?_⟩
      rcases List.mem_append.mp member with new | old
      · exact done.answers value new
      · exact (given value old).mono leads.grown
  | array before makes known ih =>
      obtain ⟨sound, given⟩ := ih
      have items := ItemsSound.mk (respects.makes _ makes)
        fun item member => (known item member).sound respects given
      exact ⟨(sound.withHeap (sound.heap.newArray items)).sound,
        List.forall_mem_cons.mpr ⟨trivial, given⟩⟩
  | @logRead m _ before ih =>
      obtain ⟨sound, given⟩ := ih
      have leads : m.Leads r (readLog m) := sound.of_held rfl rfl rfl
      exact ⟨leads.sound, given⟩

end

end StrategyQubo.Script
