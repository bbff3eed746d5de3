import StrategyQubo.Proofs.DisplayRoom
import StrategyQubo.Proofs.FinalErrors

namespace StrategyQubo.Script

/-! # Raised limits

A limit ends an evaluation or leaves it alone.  An evaluation that no limit has
ended is repeated, step by step and with the same machines, under all larger
limits.
-/

/-- Errors of limits that depend on nothing but the script and its settings;
    the clock is none of them. -/
def ScriptError.isLimit : ScriptError → Bool
  | stepBudgetExhausted _ => true
  | callDepthExceeded _ => true
  | nestingTooDeep _ => true
  | collectionTooLarge _ _ => true
  | _ => false

structure Limits.AtMost (limits larger : Limits) : Prop where
  steps : limits.stepBudget ≤ larger.stepBudget
  calls : limits.maxCallDepth ≤ larger.maxCallDepth
  lengths : limits.maxCollectionLen ≤ larger.maxCollectionLen

theorem Limits.AtMost.callDepth {limits larger : Limits} (atMost : limits.AtMost larger) :
    limits.callDepth ≤ larger.callDepth := by
  have calls := atMost.calls
  unfold Limits.callDepth
  omega

def Outcome.hitsLimit {α : Type} (outcome : Outcome α) : Bool :=
  outcome.error?.any ScriptError.isLimit

theorem ScriptError.not_isCatchable_of_isLimit {error : ScriptError}
    (limit : error.isLimit = true) : error.isCatchable = false := by
  cases error <;> first | rfl | cases limit

def Event.hitsLimit (event : Event) : Prop :=
  ∃ error m, event.failure? = some (error, m) ∧ error.isLimit = true

section

variable {env raised : Environment} (atMost : env.limits.AtMost raised.limits)
  (calm : env.NeverStrikes) (calm' : raised.NeverStrikes)

/-! ## Operations -/

section

variable {α : Type}

/-- The outcome under larger limits is the same, unless a limit has been hit
    under the smaller ones. -/
def Outcome.Stands (outcome raised : Outcome α) : Prop :=
  outcome.hitsLimit = true ∨ raised = outcome

theorem Outcome.Stands.refl (outcome : Outcome α) : Stands outcome outcome :=
  .inr rfl

theorem Outcome.Stands.cut {error : ScriptError} {m : Machine} (limit : error.isLimit = true)
    (raised : Outcome α) : Stands (.error error m) raised :=
  .inl limit

theorem Outcome.Stands.andThen {β : Type} {outcome raised : Outcome α}
    {next next' : α → Machine → Outcome β} (stands : Stands outcome raised)
    (later : ∀ value m, Stands (next value m) (next' value m)) :
    Stands (outcome.andThen next) (raised.andThen next') := by
  rcases stands with hit | rfl
  · cases outcome with
    | ok value m => cases hit
    | error error m => exact .inl hit
  · cases raised with
    | ok value m => exact later value m
    | error error m => exact refl _

end

open Outcome

include atMost

theorem Action.checkLength_stands (requested : Nat) (m : Machine) :
    Stands (Action.checkLength requested env m) (Action.checkLength requested raised m) := by
  have lengths := atMost.lengths
  unfold Action.checkLength
  split
  · exact .cut rfl _
  · rw [if_neg (by omega)]
    exact .refl _

theorem Action.stringify_stands (value : Value) (m : Machine) :
    Stands (Action.stringify value env m) (Action.stringify value raised m) := by
  unfold Action.stringify
  cases shown : value.displayWithin m.heap env.limits.maxCollectionLen with
  | ok text =>
      rw [Value.displayWithin_mono atMost.lengths shown]
      exact .refl _
  | error overflow => cases overflow <;> exact .cut rfl _

theorem Heap.changeFor_stands (h : Heap) (target : Value) (key : String) (value : Value) :
    (∃ error : ScriptError, error.isLimit = true ∧
      h.changeFor env.limits target key value = .error error) ∨
    h.changeFor raised.limits target key value = h.changeFor env.limits target key value := by
  have lengths := atMost.lengths
  cases target with
  | array ref =>
      simp only [Heap.changeFor]
      split
      · cases arrayLength? (value.toNumber h) with
        | none => exact .inr rfl
        | some length =>
            dsimp only
            split
            · exact .inl ⟨_, rfl, rfl⟩
            · exact .inr (if_neg (by omega))
      · cases arrayIndex? key with
        | none => exact .inr rfl
        | some index =>
            dsimp only
            split
            · exact .inl ⟨_, rfl, rfl⟩
            · exact .inr (if_neg (by omega))
  | _ => exact .inr rfl

theorem Action.setProperty_stands (target : Value) (key : String) (value : Value) (m : Machine) :
    Stands (Action.setProperty target key value env m)
      (Action.setProperty target key value raised m) := by
  unfold Action.setProperty
  rcases Heap.changeFor_stands atMost m.heap target key value with ⟨error, limit, refused⟩ | same
  · rw [refused]
    exact .cut limit _
  · rw [same]
    exact .refl _

include calm calm'

theorem Action.tick_stands (m : Machine) :
    Stands (Action.tick env m) (Action.tick raised m) := by
  have steps := atMost.steps
  rw [calm.tick, calm'.tick]
  split
  · exact .cut rfl _
  · rw [if_neg (by omega)]
    exact .refl _

theorem Operation.run_stands (op : Operation) (m : Machine) :
    Stands (op.run env m) (op.run raised m) := by
  cases op with
  | tick => exact Action.tick_stands atMost calm calm' m
  | checkLength requested => exact Action.checkLength_stands atMost requested m
  | stringify value => exact Action.stringify_stands atMost value m
  | setProperty target key value => exact Action.setProperty_stands atMost target key value m
  | _ => exact .refl _

/-! ## Tasks -/

theorem Task.enter_stands (task : Task) (m : Machine) :
    Stands (task.enter env m) (task.enter raised m) := by
  have nested : Stands (Action.enterNested env m) (Action.enterNested raised m) := by
    unfold Action.enterNested
    split
    · exact .cut rfl _
    · exact (Action.tick_stands atMost calm calm' m).andThen fun _ _ => .refl _
  have closure : Stands (Action.enterClosure env m) (Action.enterClosure raised m) := by
    refine (Action.tick_stands atMost calm calm' m).andThen fun _ m => ?_
    have calls := atMost.callDepth
    split
    · exact .cut rfl _
    · rw [if_neg (by omega)]
      exact .refl _
  cases task with
  | statement form scope => exact nested
  | expression form scope => exact nested
  | call function arguments =>
      cases function with
      | closure closure' => exact closure
      | _ => exact Action.tick_stands atMost calm calm' m

/-! ## Evaluations -/

/-- What is different under larger limits is so because of a limit. -/
theorem Environment.loosened_of_atMost :
    Environment.Loosened (fun event => event = .cutOff ∨ event.hitsLimit) env raised where
  cutOff := .inl rfl
  perform op m := by
    refine (Operation.run_stands atMost calm calm' op m).imp_left fun hit => .inr ?_
    cases ended : op.run env m with
    | ok value after => simp [hitsLimit, ended] at hit
    | error error after => exact ⟨error, after, rfl, by simpa [hitsLimit, ended] using hit⟩
  enter task m := by
    refine (Task.enter_stands atMost calm calm' task m).imp_left fun hit => ?_
    cases ended : task.enter env m with
    | ok value after => simp [hitsLimit, ended] at hit
    | error error after =>
        exact ⟨error, after, rfl, fun _ => .inr ⟨error, after, rfl, by
          simpa [hitsLimit, ended] using hit⟩⟩

/-- From one machine on, nothing can tell larger limits from the ones that it
    has not hit: all that happens is the same. -/
theorem Eval.history_raised {α : Type} (eval : Eval α) (m : Machine)
    (settled : (eval.start env m).hitsLimit = false) :
    eval.history raised m = eval.history env m := by
  have steps := atMost.steps
  have more : env.rank m ≤ raised.rank m := by
    unfold Environment.rank
    omega
  refine Eval.ledger_settled (Environment.loosened_of_atMost atMost calm calm') more eval m ?_
  rintro event member (rfl | ⟨error, raised, reported, limit⟩)
  · exact eval.history_cutOff env m member
  · have final : event.IsFinal error raised := ⟨reported, error.not_isCatchable_of_isLimit limit⟩
    have outcome := ((eval.history_follows env m).halts.outcome event member error raised final).1
    simp only [Ledger.failure?, eval.history_outcome, Option.map_map, Function.comp_def,
      Option.map_id'] at outcome
    simp [hitsLimit, outcome, limit] at settled

end

/-- A program that ends on a fresh machine without hitting a limit ends in the
    same way under larger limits: with the same success or failure, and with
    all of the machine the same, which includes its scopes, its heap, its log and
    the count of its steps. -/
theorem runProgram_raised (env raised : Environment) (atMost : env.limits.AtMost raised.limits)
    (seeds : env.limits.randomSeed = raised.limits.randomSeed)
    (calm : env.NeverStrikes) (calm' : raised.NeverStrikes) (program : Program)
    (settled : (runProgram program env (.fresh env.limits)).hitsLimit = false) :
    runProgram program raised (.fresh raised.limits) =
      runProgram program env (.fresh env.limits) := by
  have same : Machine.fresh raised.limits = Machine.fresh env.limits := by
    simp only [Machine.fresh, seeds]
  have history := Eval.history_raised atMost calm calm' (programRule program.body) _ settled
  have outcome := congrArg Ledger.outcome history
  rw [Eval.history_outcome, Eval.history_outcome] at outcome
  rw [same]
  exact outcome

/-- A call that makes an array of one element, under limits that leave no room
    for more and under the usual ones. -/
theorem runProgram_raised_call :
    let program : Program := ⟨[
      .declaration .var [.declare "f" (some (.function
        (.define none [] (.expression (.array [.bool true])))))],
      .expression (.call (.identifier "f") [])]⟩
    let tight : Limits := { stepBudget := 8, maxCallDepth := 1, maxCollectionLen := 1 }
    runProgram program ⟨{}, fun _ => 0⟩ (.fresh {}) =
      runProgram program ⟨tight, fun _ => 0⟩ (.fresh tight) := by
  intro program tight
  have atMost : tight.AtMost {} := ⟨by decide, by decide, by decide⟩
  have calm (limits : Limits) : Environment.NeverStrikes ⟨limits, fun _ => 0⟩ :=
    fun _ => Nat.zero_le _
  have settled : (runProgram program ⟨tight, fun _ => 0⟩ (.fresh tight)).hitsLimit = false := by
    decide +kernel
  exact runProgram_raised ⟨tight, fun _ => 0⟩ ⟨{}, fun _ => 0⟩ atMost rfl (calm tight) (calm {})
    program settled

end StrategyQubo.Script
