import StrategyQubo.Proofs.BracketedGrammar

namespace StrategyQubo.Script

/-! # Bounds of the parser's loops

Every turn of a loop takes a token, so any bound that is not below the number of
tokens ahead gives the same answer.
-/

theorem Cursor.Proper.ahead_pos {c : Cursor} (proper : c.Proper) : 0 < c.ahead.length := by
  obtain ⟨front, last, ahead, -⟩ := proper.ended
  rw [ahead, List.length_append]
  exact Nat.succ_pos _

namespace Parse

variable {α β σ : Type} {limit : Nat}

/-- Two parsers agree as long as no more tokens are ahead. -/
def Same (limit : Nat) (parse parse' : Parse α) : Prop :=
  ∀ c, c.Proper → c.ahead.length ≤ limit → parse c = parse' c

/-- Bounds from the number of tokens ahead on do not matter. -/
def Unbounded (loop : Nat → Parse α) : Prop :=
  ∀ limit n m, limit ≤ n → limit ≤ m → Same limit (loop n) (loop m)

theorem Same.refl (parse : Parse α) : Same limit parse parse :=
  fun _ _ _ => rfl

theorem Same.mono {parse parse' : Parse α} (same : Same (limit + 1) parse parse') :
    Same limit parse parse' :=
  fun c proper few => same c proper (Nat.le_succ_of_le few)

theorem bind_congr_ok {parse : Parse α} {f f' : α → Parse β} {c : Cursor}
    (same : ∀ a d, parse c = .ok (a, d) → f a d = f' a d) : (parse >>= f) c = (parse >>= f') c := by
  cases ran : parse c with
  | error fault =>
      change (parse c >>= _) = (parse c >>= _)
      rw [ran]
      rfl
  | ok after =>
      rw [StateT.bind_ok ran, StateT.bind_ok ran]
      exact same _ _ ran

theorem Spans.same {post : α → List Token → Prop} {parse : Parse α} (spans : Spans post parse)
    {f f' : α → Parse β} (later : ∀ a, Same limit (f a) (f' a)) :
    Same limit (parse >>= f) (parse >>= f') := by
  intro c proper few
  refine bind_congr_ok fun a d ran => ?_
  obtain ⟨row, passed, -⟩ := spans c a d proper trivial ran
  have length := passed.length
  exact later a d passed.proper (by omega)

/-- Behind a token that is taken there are fewer. -/
theorem Spans.same_behind {semicolons : Bool} {parse : Parse α}
    (spans : parse.Spans fun _ => Phrase semicolons) {f f' : α → Parse β}
    (later : ∀ a, Same limit (f a) (f' a)) : Same (limit + 1) (parse >>= f) (parse >>= f') := by
  intro c proper few
  refine bind_congr_ok fun a d ran => ?_
  obtain ⟨row, passed, phrase⟩ := spans c a d proper trivial ran
  have length := passed.length
  have positive := List.length_pos_iff.mpr phrase.nonempty
  exact later a d passed.proper (by omega)

theorem still_same {parse : Parse α} {answer : Cursor → α}
    (looks : ∀ c, parse c = .ok (answer c, c)) {f f' : α → Parse β}
    (later : ∀ a, Same limit (f a) (f' a)) : Same limit (parse >>= f) (parse >>= f') := by
  intro c proper few
  rw [StateT.bind_ok (looks c), StateT.bind_ok (looks c)]
  exact later _ c proper few

theorem eatMark_same {mark : Mark} {f f' : Bool → Parse β} (yes : Same limit (f true) (f' true))
    (no : Same (limit + 1) (f false) (f' false)) :
    Same (limit + 1) (eatMark mark >>= f) (eatMark mark >>= f') := by
  intro c proper few
  cases found : c.current.lexeme.isMark mark with
  | true =>
      have ran : eatMark mark c = .ok (true, c.advance) := by rw [eatMark, found, if_pos rfl]
      have passed := proper.advance (by rw [eq_of_isMark found]; rfl)
      have length := passed.length
      rw [List.length_singleton] at length
      rw [StateT.bind_ok ran, StateT.bind_ok ran]
      exact yes _ passed.proper (by omega)
  | false =>
      have ran : eatMark mark c = .ok (false, c) := by
        rw [eatMark, found, if_neg Bool.false_ne_true]
      rw [StateT.bind_ok ran, StateT.bind_ok ran]
      exact no c proper few

/-- A loop each turn of which takes a token. -/
theorem unbounded_of_turns (loop : Nat → σ → Parse α)
    (turn : ∀ limit n m, (∀ s, Same limit (loop n s) (loop m s)) →
      ∀ s, Same (limit + 1) (loop (n + 1) s) (loop (m + 1) s)) (s : σ) :
    Unbounded fun bound => loop bound s := by
  intro limit n m enough enough'
  induction limit generalizing s n m with
  | zero => exact fun c proper few => absurd proper.ahead_pos (Nat.not_lt.mpr few)
  | succ limit ih =>
      obtain ⟨n, rfl⟩ := Nat.exists_eq_add_of_le' (Nat.le_trans (Nat.le_add_left 1 limit) enough)
      obtain ⟨m, rfl⟩ := Nat.exists_eq_add_of_le' (Nat.le_trans (Nat.le_add_left 1 limit) enough')
      exact turn limit n m (fun s => ih s n m (Nat.le_of_succ_le_succ enough)
        (Nat.le_of_succ_le_succ enough')) s

theorem Unbounded.bind {loop : Nat → Parse α} (unbounded : Unbounded loop) (next : α → Parse β) :
    Unbounded fun bound => loop bound >>= next := by
  intro limit n m enough enough' c proper few
  change (loop n c >>= _) = (loop m c >>= _)
  rw [unbounded limit n m enough enough' c proper few]

theorem Unbounded.after {post : α → List Token → Prop} {parse : Parse α} (spans : Spans post parse)
    {loop : Nat → α → Parse β} (unbounded : ∀ a, Unbounded fun bound => loop bound a) :
    Unbounded fun bound => parse >>= loop bound :=
  fun limit n m enough enough' => spans.same fun a => unbounded a limit n m enough enough'

end Parse

open Parse

variable {g : Grammar}

/-! ## The loops -/

theorem expressionList_unbounded (spans : g.Spans) (close : Mark) (found : List Expr) :
    Unbounded fun bound => expressionList g close bound found := by
  refine unbounded_of_turns (expressionList g close) (fun limit n m rest found => ?_) found
  unfold expressionList
  refine still_same (fun _ => rfl) fun closed => ?_
  split
  · exact .refl _
  · refine spans.assignment.same fun element => eatMark_same ?_ (.refl _)
    exact rest _

theorem takeIdentifier_same {limit : Nat} {β : Type} (what : String) {f f' : String → Parse β}
    (later : ∀ name, Same limit (f name) (f' name)) :
    Same limit (takeIdentifier what >>= f) (takeIdentifier what >>= f') := by
  have name : Spans (fun _ _ => True) (takeIdentifier what) := by
    rw [← bind_pure (takeIdentifier what)]
    exact takeIdentifier_spans fun _ _ _ => pure_spans trivial
  exact name.same later

theorem parameterNames_unbounded (found : List String) :
    Unbounded fun bound => parameterNames bound found := by
  refine unbounded_of_turns parameterNames (fun limit n m rest found => ?_) found
  unfold parameterNames
  refine still_same (fun _ => rfl) fun closed => ?_
  split
  · exact .refl _
  · exact takeIdentifier_same _ fun name => eatMark_same (rest _) (.refl _)

theorem properties_unbounded (spans : g.Spans) (found : List Property) :
    Unbounded fun bound => properties g bound found := by
  refine unbounded_of_turns (properties g) (fun limit n m rest found => ?_) found
  unfold properties
  refine still_same (fun _ => rfl) fun closed => ?_
  split
  · exact .refl _
  · exact (objectKey_spans spans).same fun key => (propertyValue_spans spans key.1 key.2).same
      fun value => eatMark_same (rest _) (.refl _)

theorem memberChain_unbounded (object : Expr) :
    Unbounded fun bound => memberChain bound object := by
  refine unbounded_of_turns memberChain (fun limit n m rest object => ?_) object
  unfold memberChain
  exact eatMark_same (propertyName_spans.same fun property => rest _) (.refl _)

theorem accessChain_unbounded (spans : g.Spans) (value : Expr) :
    Unbounded fun bound => accessChain g bound value := by
  refine unbounded_of_turns (accessChain g) (fun limit n m rest value => ?_) value
  unfold accessChain
  refine eatMark_same (propertyName_spans.same fun property => rest _) (eatMark_same ?_ ?_)
  · refine (allowingIn_spans spans.expression).same fun key => ?_
    have closes : Spans (fun _ _ => True) (expectMark .closeBracket "']'") := by
      rw [← bind_pure (expectMark _ _)]
      exact expectMark_spans fun _ _ => pure_spans trivial
    exact closes.same fun _ => rest _
  · refine still_same (fun _ => rfl) fun opens => ?_
    split
    · have listed : g.arguments.Spans fun _ => Phrase false :=
        spans.arguments.mono fun _ row listed => listed.phrase false
      exact listed.same_behind fun arguments => rest _
    · exact .refl _

theorem operatorsAfter_unbounded (spans : g.Spans) (floor : Nat) (left : Expr) :
    Unbounded fun bound => operatorsAfter g floor bound left := by
  refine unbounded_of_turns (operatorsAfter g floor) (fun limit n m rest left => ?_) left
  intro c proper few
  have looked : lexeme c = .ok (c.current.lexeme, c) := rfl
  have barred : inBarred c = .ok (c.inBarred, c) := rfl
  have skipped : skip c = .ok ((), c.advance) := rfl
  unfold operatorsAfter
  rw [StateT.bind_ok looked, StateT.bind_ok looked]
  cases found : infixOp? c.current.lexeme with
  | none => rfl
  | some op =>
      have passed := proper.advance (operator_of_infixOp? found).more
      have length := passed.length
      rw [List.length_singleton] at length
      dsimp only
      split
      · rfl
      · rw [StateT.bind_ok barred, StateT.bind_ok barred]
        split
        · rfl
        · rw [StateT.bind_ok skipped, StateT.bind_ok skipped]
          exact (spans.operators _).same (fun right => rest _) c.advance passed.proper (by omega)

theorem declarators_unbounded (spans : g.Spans) (found : List Declarator) :
    Unbounded fun bound => declarators g bound found := by
  refine unbounded_of_turns (declarators g) (fun limit n m rest found => ?_) found
  unfold declarators
  refine takeIdentifier_same _ fun name => ?_
  have initial : Spans (fun _ _ => True) (do
      if ← eatMark .assign then return some (← g.assignment) else pure none) :=
    eatMark_spans (fun _ _ => spans.assignment.bind fun _ _ _ => pure_spans trivial)
      (pure_spans trivial)
  exact initial.same fun initial => eatMark_same (rest _) (.refl _)

theorem statementsToBrace_unbounded (spans : g.Spans) (found : List Stmt) :
    Unbounded fun bound => statementsToBrace g bound found := by
  refine unbounded_of_turns (statementsToBrace g) (fun limit n m rest found => ?_) found
  unfold statementsToBrace
  refine eatMark_same (.refl _) (still_same (fun _ => rfl) fun ended => ?_)
  split
  · exact .refl _
  · exact spans.statement.same_behind fun statement => rest _

theorem statementsToEnd_unbounded (spans : g.Spans) (found : List Stmt) :
    Unbounded fun bound => statementsToEnd g bound found := by
  refine unbounded_of_turns (statementsToEnd g) (fun limit n m rest found => ?_) found
  unfold statementsToEnd
  refine still_same (fun _ => rfl) fun ended => ?_
  split
  · exact .refl _
  · exact spans.statement.same_behind fun statement => rest _

end StrategyQubo.Script
