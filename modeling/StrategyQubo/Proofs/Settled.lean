import StrategyQubo.Proofs.Ledger

namespace StrategyQubo.Script

/-! # Settled evaluations

An evaluation may be cut short by its rank or by its limits.  One that is not
has the same ledger however much more it is granted.
-/

/-- Where the second environment lets more happen than the first, an event tells
    that the first has cut the evaluation short. -/
structure Environment.Loosened (cuts : Event → Prop) (env loose : Environment) : Prop where
  cutOff : cuts .cutOff
  perform : ∀ op m, cuts (.performed op (op.run env m).error? (op.run env m).machine) ∨
    op.run loose m = op.run env m
  enter : ∀ (task : Task) m,
    (∃ error after, task.enter env m = .error error after ∧
      ∀ under, cuts (.refused task under error after)) ∨
    task.enter loose m = task.enter env m

variable {cuts : Event → Prop} {α β : Type}

namespace Ledger

/-- The larger ledger is the same, unless this one has been cut short. -/
def Settles (cuts : Event → Prop) (ledger larger : Ledger α) : Prop :=
  (∃ event ∈ ledger.events, cuts event) ∨ larger = ledger

theorem Settles.refl (ledger : Ledger α) : Settles cuts ledger ledger :=
  .inr rfl

theorem Settles.single {event : Event} (cut : cuts event) (outcome : Outcome α) (larger : Ledger α) :
    Settles cuts (.single event outcome) larger :=
  .inl ⟨event, List.mem_singleton.mpr rfl, cut⟩

/-- Once cut short, a ledger stays so whatever else happens. -/
theorem cut_of_subset {first second : List Event} (kept : first ⊆ second)
    (cut : ∃ event ∈ first, cuts event) : ∃ event ∈ second, cuts event := by
  obtain ⟨event, member, cut⟩ := cut
  exact ⟨event, kept member, cut⟩

theorem Settles.andThen {ledger larger : Ledger α} {next next' : α → Machine → Ledger β}
    (settles : Settles cuts ledger larger)
    (later : ∀ value m, Settles cuts (next value m) (next' value m)) :
    Settles cuts (ledger.andThen next) (larger.andThen next') := by
  rcases settles with cut | rfl
  · exact .inl (cut_of_subset (ledger.prefix_andThen next).subset cut)
  · unfold Ledger.andThen
    cases larger.outcome with
    | ok value m =>
        rcases later value m with cut | same
        · exact .inl (cut_of_subset (List.subset_append_right _ _) cut)
        · exact .inr (by simp only [same])
    | error error m => exact .refl _

end Ledger

section

variable {env loose : Environment} (loosened : Environment.Loosened cuts env loose)
  {answer answer' : (task : Task) → Environment → Machine → Ledger task.Answer}
  (answers : ∀ task m, (answer task env m).Settles cuts (answer' task loose m))

include loosened answers

theorem Eval.ledger_settles (eval : Eval α) (m : Machine) :
    (eval.ledger answer env m).Settles cuts (eval.ledger answer' loose m) := by
  induction eval generalizing m with
  | done value => exact .refl _
  | perform op next ih =>
      have performed : Ledger.Settles cuts
          (.single (.performed op (op.run env m).error? (op.run env m).machine) (op.run env m))
          (.single (.performed op (op.run loose m).error? (op.run loose m).machine)
            (op.run loose m)) := by
        rcases loosened.perform op m with cut | same
        · exact .single cut _ _
        · rw [same]
          exact .refl _
      exact performed.andThen fun value m => ih value m
  | ask task next ih => exact (answers task m).andThen fun value m => ih value m

namespace Ledger

omit answers in
theorem repeated_settles {σ : Type} {turn turn' : σ → Environment → Machine → Ledger (Turn σ α)}
    {bound larger : Nat} (more : bound ≤ larger)
    (turns : ∀ state m, (turn state env m).Settles cuts (turn' state loose m)) (state : σ)
    (m : Machine) :
    (repeated turn bound state env m).Settles cuts (repeated turn' larger state loose m) := by
  induction bound generalizing larger state m with
  | zero => exact .single loosened.cutOff _ _
  | succ bound ih =>
      obtain ⟨larger, rfl⟩ : ∃ smaller, larger = smaller + 1 := ⟨larger - 1, by omega⟩
      refine (turns state m).andThen fun reached m => ?_
      cases reached with
      | again state => exact ih (by omega) state m
      | finished value => exact .refl _

theorem handled_settles (under : List Task) {body body' : Ledger α}
    (settles : body.Settles cuts body') (handler : Option (Value → Eval α)) :
    (body.handled answer under handler env).Settles cuts
      (body'.handled answer' under handler loose) := by
  rcases settles with cut | rfl
  · exact .inl (cut_of_subset (body.prefix_handled under handler env).subset cut)
  · unfold handled
    split
    · split
      · rename_i error m clause _ _
        rcases Eval.ledger_settles loosened answers (clause (m.catching error).1)
          (m.catching error).2 with cut | same
        · refine .inl (cut_of_subset ?_ cut)
          exact List.subset_append_of_subset_right _ (List.subset_cons_self _ _)
        · exact .inr (by simp only [same])
      · exact .refl _
    · exact .refl _

theorem finalized_settles {before before' : Ledger α} (settles : before.Settles cuts before')
    (finalizer : Option (Eval (Option α))) :
    (before.finalized answer finalizer env).Settles cuts
      (before'.finalized answer' finalizer loose) := by
  rcases settles with cut | rfl
  · exact .inl (cut_of_subset (before.prefix_finalized finalizer env).subset cut)
  · unfold finalized
    split
    · exact .refl _
    · exact (Settles.refl _).andThen fun _ m =>
        (Eval.ledger_settles loosened answers _ m).andThen fun _ _ => .refl _
    · rename_i error m last _
      split
      · rcases Eval.ledger_settles loosened answers last m with cut | same
        · refine .inl (cut_of_subset ?_ cut)
          dsimp only
          split <;> exact List.subset_append_right _ _
        · exact .inr (by simp only [same])
      · exact .refl _

end Ledger

theorem Rule.ledger_settles (under : List Task) {turns larger : Nat} (more : turns ≤ larger)
    (rule : Rule α) (m : Machine) :
    (rule.ledger answer under turns env m).Settles cuts
      (rule.ledger answer' under larger loose m) := by
  have run {β : Type} (eval : Eval β) (m : Machine) := Eval.ledger_settles loosened answers eval m
  cases rule with
  | once eval => exact run eval m
  | repeated first turn =>
      exact (run first m).andThen fun state m =>
        Ledger.repeated_settles loosened more (fun state m => run (turn state) m) state m
  | guarded body handler finalizer =>
      exact Ledger.finalized_settles loosened answers
        (Ledger.handled_settles loosened answers under (run body m) handler) finalizer
  | throwing value => exact (run value m).andThen fun _ _ => .refl _

end

variable {env loose : Environment}

theorem Task.ledger_settles (loosened : Environment.Loosened cuts env loose) {rank larger : Nat}
    (more : rank ≤ larger) (under : List Task) (task : Task) (m : Machine) :
    (task.ledger rank under env m).Settles cuts (task.ledger larger under loose m) := by
  induction rank generalizing larger under task m with
  | zero => exact .single loosened.cutOff _ _
  | succ rank ih =>
      obtain ⟨larger, rfl⟩ : ∃ smaller, larger = smaller + 1 := ⟨larger - 1, by omega⟩
      have parts (part : Task) (m : Machine) := ih (show rank ≤ larger by omega) (task :: under) part m
      simp only [ledger]
      rcases loosened.enter task m with ⟨error, after, refused, cut⟩ | same
      · rw [refused]
        exact .single (cut under) _ _
      · rw [same]
        cases task.enter env m with
        | error error m => exact .refl _
        | ok value m =>
            rcases Rule.ledger_settles loosened parts (task :: under) more task.rule m with cut | same
            · refine .inl (Ledger.cut_of_subset ?_ cut)
              exact List.subset_append_of_subset_left _ (List.subset_cons_self _ _)
            · exact .inr (by simp only [same])

/-- What runs from outside has the same ledger with a larger rank and under a
    looser environment, unless it has been cut short. -/
theorem Eval.ledger_settled (loosened : Environment.Loosened cuts env loose) {rank larger : Nat}
    (more : rank ≤ larger) (eval : Eval α) (m : Machine)
    (settled : ∀ event ∈ (eval.ledger (Task.ledger rank []) env m).events, ¬ cuts event) :
    eval.ledger (Task.ledger larger []) loose m = eval.ledger (Task.ledger rank []) env m := by
  have parts (part : Task) (m : Machine) := Task.ledger_settles loosened more [] part m
  rcases Eval.ledger_settles loosened parts eval m with ⟨event, member, cut⟩ | same
  · exact absurd cut (settled event member)
  · exact same

end StrategyQubo.Script
