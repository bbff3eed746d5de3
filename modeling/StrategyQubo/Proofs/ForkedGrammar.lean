import StrategyQubo.Proofs.ForkedRuns

namespace StrategyQubo.Script

/-! # Two runs of every construct -/

open Parse

/-- Two grammars whose parsers do the same among shared tokens, except that the
    second may nest less. -/
structure Grammar.Forks (shallower : Prop) (g g' : Grammar) : Prop where
  spans : g.Spans
  spans' : g'.Spans
  statement : ∀ F : Fork, F.Relates shallower Eq g.statement g'.statement
  block : ∀ F : Fork, F.Relates shallower Eq g.block g'.block
  expression : ∀ F : Fork, F.Relates shallower Eq g.expression g'.expression
  assignment : ∀ F : Fork, F.Relates shallower Eq g.assignment g'.assignment
  operators : ∀ (F : Fork) (floor : Nat),
    F.Relates shallower Eq (g.operators floor) (g'.operators floor)
  operand : ∀ F : Fork, F.Relates shallower Eq g.operand g'.operand
  arguments : ∀ F : Fork, F.Relates shallower Eq g.arguments g'.arguments
  arrayLiteral : ∀ F : Fork, F.Relates shallower Eq g.arrayLiteral g'.arrayLiteral
  objectLiteral : ∀ F : Fork, F.Relates shallower Eq g.objectLiteral g'.objectLiteral
  expression_leaves : (g.expression = refuseDeeper ∧ g'.expression = refuseDeeper) ∨
    ∀ (F : Fork) (c : Cursor), F.Edge c → F.Leaves False (g.expression c)
  assignment_leaves : (g.assignment = refuseDeeper ∧ g'.assignment = refuseDeeper) ∨
    ∀ (F : Fork) (c : Cursor), F.Edge c → F.Leaves False (g.assignment c)

/-! ## Holes -/

/-- What stands in a hole. -/
def Grammar.hole (g : Grammar) : Parse Expr := do
  let value ← g.expression
  if ← atEnd then pure value else unexpected "'\x7d' closing template expression"

/-- The value of a hole whose source begins at the place. -/
def Grammar.readHole (g : Grammar) (source : String) (start : Position) :
    Except ScriptError Expr := do
  let tokens ← tokenizeAt source start
  g.hole.run' (.ofTokens tokens)

/-- The parts of a template literal, apart from the cursor. -/
def Grammar.partsOf (g : Grammar) :
    List Chunk → List TemplatePart → Except ScriptError (List TemplatePart)
  | [], found => .ok found.reverse
  | .text content :: rest, found => g.partsOf rest (.text content :: found)
  | .code source start :: rest, found => do
      let value ← g.readHole source start
      g.partsOf rest (.hole value :: found)

theorem apart_bind {α β : Type} (run : Except ScriptError α) (f : α → Parse β) (c : Cursor) :
    ((fun c => run.map fun a => (a, c) : Parse α) >>= f) c = run >>= fun a => f a c := by
  cases run <;> rfl

theorem templateParts_eq (g : Grammar) (chunks : List Chunk) (found : List TemplatePart)
    (c : Cursor) :
    templateParts g chunks found c = (g.partsOf chunks found).map fun parts => (parts, c) := by
  induction chunks generalizing found with
  | nil => rfl
  | cons chunk rest ih =>
      cases chunk with
      | text content => exact ih _
      | code source start =>
          unfold templateParts Grammar.partsOf Grammar.readHole
          rw [apart_bind]
          cases tokenizeAt source start with
          | error fault => rfl
          | ok tokens =>
              refine (apart_bind (g.hole.run' (.ofTokens tokens)) (fun value =>
                templateParts g rest (.hole value :: found)) c).trans ?_
              change _ = (g.hole.run' (.ofTokens tokens) >>= fun value =>
                g.partsOf rest (.hole value :: found)).map _
              cases g.hole.run' (.ofTokens tokens) with
              | error fault => rfl
              | ok value => exact ih _

namespace Fork

variable {F : Fork} {shallower : Prop} {g g' : Grammar}

/-! ## Lists and names -/

theorem expressionList_relates (forks : g.Forks shallower g') (close : Mark) (bound : Nat)
    (found : List Expr) : F.Relates shallower Eq (expressionList g close bound found)
      (expressionList g' close bound found) := by
  induction bound generalizing found with
  | zero => exact pure_relates rfl
  | succ bound ih =>
      unfold expressionList
      refine (atMark_relates close).behind fun closed => ?_
      split
      · exact pure_relates rfl
      · refine (forks.assignment F).behind fun element => (eatMark_relates .comma).behind
          fun comma => ?_
        split
        · exact ih _
        · exact pure_relates rfl

theorem parameterNames_relates (bound : Nat) (found : List String) :
    F.Relates shallower Eq (parameterNames bound found) (parameterNames bound found) := by
  induction bound generalizing found with
  | zero => exact pure_relates rfl
  | succ bound ih =>
      unfold parameterNames
      refine (atMark_relates .closeParen).behind fun closed => ?_
      split
      · exact pure_relates rfl
      · refine (takeIdentifier_relates _).behind fun name => (eatMark_relates .comma).behind
          fun comma => ?_
        split
        · exact ih _
        · exact pure_relates rfl

theorem parameterList_relates : F.Relates shallower Eq parameterList parameterList := by
  unfold parameterList
  refine (expectMark_relates _ _).behind fun _ => ?_
  refine size_bind ((parameterNames_unbounded []).bind _) ((parameterNames_unbounded []).bind _)
    fun bound => (parameterNames_relates bound []).behind fun names => ?_
  exact (expectMark_relates _ _).behind fun _ => pure_relates rfl

theorem propertyName_relates : F.Relates shallower Eq propertyName propertyName := by
  unfold propertyName
  refine advance_bind "property name" (by decide) fun token token' alike => ?_
  generalize token.lexeme = l, token'.lexeme = l' at alike
  cases alike with
  | refl =>
      split
      · exact .going (pure_relates rfl)
      · exact .going (pure_relates rfl)
      · exact .stuck rfl rfl
  | template => exact .stuck rfl rfl

/-! ## Functions -/

theorem functionRest_relates (forks : g.Forks shallower g') (nameRequired : Bool) :
    F.Relates shallower Eq (functionRest g nameRequired) (functionRest g' nameRequired) := by
  have rest (name : Option String) : F.Relates shallower Eq (do
      let parameters ← parameterList
      let body ← g.block
      pure (FunctionDef.define name parameters (.block body))) (do
      let parameters ← parameterList
      let body ← g'.block
      pure (FunctionDef.define name parameters (.block body))) :=
    parameterList_relates.behind fun parameters => (forks.block F).behind fun body =>
      pure_relates rfl
  unfold functionRest
  refine lexeme_bind fun l l' alike => ?_
  dsimp only
  cases alike with
  | refl =>
      split
      · exact skip_relates.behind fun _ => rest _
      · split
        · exact (unexpected_relates _ _).behind rest
        · exact rest none
  | template =>
      dsimp only
      split
      · exact (unexpected_relates _ _).behind rest
      · exact rest none

theorem arrowBody_relates (forks : g.Forks shallower g') (parameters : List String) :
    F.Relates shallower Eq (do
      expectMark .arrow "'=>'"
      if ← atMark .openBrace then
        let body ← g.block
        pure (Expr.function (.define none parameters (.block body)))
      else
        let value ← g.assignment
        pure (.function (.define none parameters (.expression value)))) (do
      expectMark .arrow "'=>'"
      if ← atMark .openBrace then
        let body ← g'.block
        pure (.function (.define none parameters (.block body)))
      else
        let value ← g'.assignment
        pure (.function (.define none parameters (.expression value)))) := by
  refine (expectMark_relates _ _).behind fun _ => (atMark_relates .openBrace).behind fun braced => ?_
  split
  · exact (forks.block F).behind fun body => pure_relates rfl
  · exact (forks.assignment F).behind fun value => pure_relates rfl

theorem arrowFunction_relates (forks : g.Forks shallower g') :
    F.Relates shallower Eq (arrowFunction g) (arrowFunction g') := by
  have parameters : F.Relates shallower Eq (do
      if ← atMark .openParen then
        parameterList
      else
        return [← takeIdentifier "parameter name"]) (do
      if ← atMark .openParen then
        parameterList
      else
        return [← takeIdentifier "parameter name"]) := by
    refine (atMark_relates .openParen).behind fun opens => ?_
    split
    · exact parameterList_relates
    · exact (takeIdentifier_relates _).behind fun name => pure_relates rfl
  exact parameters.behind fun names => arrowBody_relates forks names

/-! ## Literals -/

theorem hole_relates (forks : g.Forks shallower g') : F.Relates shallower Eq g.hole g'.hole := by
  unfold Grammar.hole
  refine (forks.expression F).behind fun value => atEnd_relates.behind fun ended => ?_
  split
  · exact pure_relates rfl
  · exact unexpected_relates _ _

theorem readHole_echoes (forks : g.Forks shallower g') (source : String) (start start' : Position) :
    Echoes shallower (g.readHole source start) (g'.readHole source start') := by
  unfold Grammar.readHole
  cases cut : tokenizeAt source start with
  | ok tokens =>
      obtain ⟨tokens', cut', moved⟩ := tokenizeAt_moved cut start'
      rw [cut']
      exact (hole_relates forks).echoes (tokenizeAt_ended cut) (tokenizeAt_ended cut')
        (moved.imp fun _ _ moved => moved.alike)
  | error fault =>
      cases cut' : tokenizeAt source start' with
      | ok tokens' =>
          obtain ⟨tokens, cut'', -⟩ := tokenizeAt_moved cut' start
          cases cut.symm.trans cut''
      | error fault' => exact ⟨nofun, fun _ _ => ⟨fault', rfl⟩⟩

theorem partsOf_echoes (forks : g.Forks shallower g') {chunks chunks' : List Chunk}
    (alike : List.Forall₂ Chunk.Alike chunks chunks') (found : List TemplatePart) :
    Echoes shallower (g.partsOf chunks found) (g'.partsOf chunks' found) := by
  induction alike generalizing found with
  | nil => exact .refl _
  | cons first _ ih =>
      cases first with
      | text content => exact ih _
      | code source start start' =>
          exact (readHole_echoes forks source start start').bind fun value => ih _

theorem readHole_far (forks : g.Forks shallower g') {far : Position → Prop} {source : String}
    {start : Position} (distant : Distant far source.toList start) {error : ScriptError}
    (failed : g.readHole source start = .error error) :
    ∃ place fault, error = .syntaxFault place fault ∧ far place := by
  unfold Grammar.readHole at failed
  cases cut : tokenizeAt source start with
  | error fault =>
      rw [cut] at failed
      cases failed
      obtain ⟨front, fault, within, rfl⟩ := tokenizeAt_late cut
      exact ⟨_, fault, rfl, distant front within⟩
  | ok tokens =>
      rw [cut] at failed
      exact far_of_drifts (fun F => (hole_relates forks).drifts) (tokenizeAt_ended cut)
        (fun token member => (tokenizeAt_stand cut token member).beyond distant) failed

theorem partsOf_far (forks : g.Forks shallower g') {far : Position → Prop} {chunks : List Chunk}
    (distant : ∀ source start, .code source start ∈ chunks → Distant far source.toList start)
    {found : List TemplatePart} {error : ScriptError}
    (failed : g.partsOf chunks found = .error error) :
    ∃ place fault, error = .syntaxFault place fault ∧ far place := by
  induction chunks generalizing found with
  | nil => cases failed
  | cons chunk rest ih =>
      have later : ∀ source start, .code source start ∈ rest → Distant far source.toList start :=
        fun source start member => distant source start (List.mem_cons_of_mem _ member)
      cases chunk with
      | text content => exact ih later failed
      | code source start =>
          unfold Grammar.partsOf at failed
          cases read : g.readHole source start with
          | error fault =>
              rw [read] at failed
              cases failed
              exact readHole_far forks (distant source start List.mem_cons_self) read
          | ok value =>
              rw [read] at failed
              exact ih later failed

theorem closing_relates {α β : Type} {parse parse' : Parse α}
    (inner : F.Relates shallower Eq parse parse') (closing : Mark) (what : String)
    (finish : α → β) :
    F.Relates shallower Eq (do
      let a ← allowingIn parse
      expectMark closing what
      pure (finish a)) (do
      let a ← allowingIn parse'
      expectMark closing what
      pure (finish a)) :=
  inner.allowingIn.behind fun _ => (expectMark_relates _ _).behind fun _ => pure_relates rfl

theorem listed_relates (forks : g.Forks shallower g') (close : Mark) :
    F.Relates shallower Eq (do expressionList g close (← size) [])
      (do expressionList g' close (← size) []) :=
  size_bind (expressionList_unbounded forks.spans close []) (expressionList_unbounded forks.spans' close [])
    fun bound => expressionList_relates forks close bound []

theorem arrayElements_relates (forks : g.Forks shallower g') :
    F.Relates shallower Eq (arrayElements g) (arrayElements g') :=
  closing_relates (listed_relates forks _) _ _ _

theorem objectKey_relates (forks : g.Forks shallower g') :
    F.Relates shallower Eq (objectKey g) (objectKey g') := by
  unfold objectKey
  refine advance_bind "property key" (by decide) fun token token' alike => ?_
  generalize token.lexeme = l, token'.lexeme = l' at alike
  cases alike with
  | refl =>
      split
      · exact .going (pure_relates rfl)
      · exact .going (pure_relates rfl)
      · exact .going (pure_relates rfl)
      · exact .going (pure_relates rfl)
      · exact .going ((forks.assignment F).behind fun key => (expectMark_relates _ _).behind
          fun _ => pure_relates rfl)
      · exact .stuck rfl rfl
  | template => exact .stuck rfl rfl

theorem propertyValue_relates (forks : g.Forks shallower g') (key : PropertyKey)
    (shorthand : Option String) :
    F.Relates shallower Eq (propertyValue g key shorthand) (propertyValue g' key shorthand) := by
  unfold propertyValue
  refine (eatMark_relates .colon).behind fun colon => ?_
  split
  · exact forks.assignment F
  · refine (atMark_relates .openParen).behind fun opens => ?_
    split
    · exact parameterList_relates.behind fun parameters => (forks.block F).behind fun body =>
        pure_relates rfl
    · cases shorthand with
      | some name => exact pure_relates rfl
      | none => exact unexpected_relates _ _

theorem properties_relates (forks : g.Forks shallower g') (bound : Nat) (found : List Property) :
    F.Relates shallower Eq (properties g bound found) (properties g' bound found) := by
  induction bound generalizing found with
  | zero => exact pure_relates rfl
  | succ bound ih =>
      unfold properties
      refine (atMark_relates .closeBrace).behind fun closed => ?_
      split
      · exact pure_relates rfl
      · refine (objectKey_relates forks).behind fun key =>
          (propertyValue_relates forks key.1 key.2).behind fun value =>
            (eatMark_relates .comma).behind fun comma => ?_
        split
        · exact ih _
        · exact pure_relates rfl

theorem objectEntries_relates (forks : g.Forks shallower g') :
    F.Relates shallower Eq (objectEntries g) (objectEntries g') :=
  closing_relates (size_bind (properties_unbounded forks.spans []) (properties_unbounded forks.spans' [])
    fun bound => properties_relates forks bound []) _ _ _

/-! ## Expressions -/

/-- A template literal is read apart from the cursor. -/
theorem template_handles (forks : g.Forks shallower g') {chunks chunks' : List Chunk}
    (alike : List.Forall₂ Chunk.Alike chunks chunks') (what : String) :
    Handles F shallower Eq what (.template chunks)
      (do return Expr.template (← templateParts g chunks []))
      (do return Expr.template (← templateParts g' chunks' [])) := by
  have reads (g : Grammar) (chunks : List Chunk) (c : Cursor) :
      (do return Expr.template (← templateParts g chunks []) : Parse Expr) c =
        (g.partsOf chunks [] >>= fun parts => .ok (Expr.template parts)).map (·, c) := by
    change (templateParts g chunks [] c >>= _) = _
    rw [templateParts_eq]
    cases g.partsOf chunks [] <;> rfl
  refine .apart (fun _ => rfl) (reads g chunks) (reads g' chunks')
    ((partsOf_echoes forks alike []).bind fun _ => .refl _) ?_
  intro token error spelled beyond failed
  cases read : g.partsOf chunks [] with
  | error reason =>
      rw [read] at failed
      cases failed
      obtain ⟨later, fault, rfl, far⟩ := partsOf_far forks (beyond.holes chunks spelled) read
      exact ⟨later, fault, rfl, .inl far⟩
  | ok parts =>
      rw [read] at failed
      cases failed

theorem primary_relates (forks : g.Forks shallower g') :
    F.Relates shallower Eq (primary g) (primary g') := by
  unfold primary
  refine advance_bind "expression" (by decide) fun token token' alike => ?_
  generalize token.lexeme = l, token'.lexeme = l' at alike
  cases alike with
  | refl =>
      split
      · exact .going (pure_relates rfl)
      · exact .going (pure_relates rfl)
      · exact template_handles forks (List.forall₂_same.mpr fun chunk _ => .refl chunk) _
      · exact .going (pure_relates rfl)
      · exact .going (pure_relates rfl)
      · exact .going (pure_relates rfl)
      · exact .going (pure_relates rfl)
      · exact .going (pure_relates rfl)
      · exact .going ((functionRest_relates forks false).behind fun definition => pure_relates rfl)
      · exact .going ((forks.expression F).allowingIn.behind fun inner =>
          (expectMark_relates _ _).behind fun _ => pure_relates rfl)
      · exact .going (forks.arrayLiteral F)
      · exact .going (forks.objectLiteral F)
      · exact .stuck rfl rfl
  | template same => exact template_handles forks same _

theorem memberChain_relates (bound : Nat) (object : Expr) :
    F.Relates shallower Eq (memberChain bound object) (memberChain bound object) := by
  induction bound generalizing object with
  | zero => exact pure_relates rfl
  | succ bound ih =>
      unfold memberChain
      refine (eatMark_relates .dot).behind fun dot => ?_
      split
      · exact propertyName_relates.behind fun property => ih _
      · exact pure_relates rfl

theorem accessChain_relates (forks : g.Forks shallower g') (bound : Nat) (value : Expr) :
    F.Relates shallower Eq (accessChain g bound value) (accessChain g' bound value) := by
  induction bound generalizing value with
  | zero => exact pure_relates rfl
  | succ bound ih =>
      unfold accessChain
      refine (eatMark_relates .dot).behind fun dot => ?_
      split
      · exact propertyName_relates.behind fun property => ih _
      · refine (eatMark_relates .openBracket).behind fun opens => ?_
        split
        · exact (forks.expression F).allowingIn.behind fun key => (expectMark_relates _ _).behind
            fun _ => ih _
        · refine (atMark_relates .openParen).behind fun called => ?_
          split
          · exact (forks.arguments F).behind fun arguments => ih _
          · exact pure_relates rfl

theorem accesses_relates (forks : g.Forks shallower g') (value : Expr) :
    F.Relates shallower Eq (do accessChain g (← size) value)
      (do accessChain g' (← size) value) :=
  size_bind (accessChain_unbounded forks.spans value) (accessChain_unbounded forks.spans' value)
    fun bound => accessChain_relates forks bound value

theorem callMember_relates (forks : g.Forks shallower g') :
    F.Relates shallower Eq (callMember g) (callMember g') := by
  have given : F.Relates shallower Eq (do if ← atMark .openParen then g.arguments else pure [])
      (do if ← atMark .openParen then g'.arguments else pure []) := by
    refine (atMark_relates .openParen).behind fun opens => ?_
    split
    · exact forks.arguments F
    · exact pure_relates rfl
  unfold callMember
  refine (eatKeyword_relates .newWord).behind fun made => ?_
  split
  · refine size_bind (Unbounded.after (primary_spans forks.spans) fun first =>
        (memberChain_unbounded first).bind _) (Unbounded.after (primary_spans forks.spans') fun first =>
        (memberChain_unbounded first).bind _) fun bound => ?_
    exact (primary_relates forks).behind fun first => (memberChain_relates bound first).behind
      fun callee => given.behind fun arguments => accesses_relates forks _
  · exact size_bind (Unbounded.after (primary_spans forks.spans) fun first =>
        accessChain_unbounded forks.spans first) (Unbounded.after (primary_spans forks.spans') fun first =>
        accessChain_unbounded forks.spans' first) fun bound =>
      (primary_relates forks).behind fun first => accessChain_relates forks bound first

/-- An update behind the value. -/
theorem updated_relates (value : Expr) :
    F.Relates shallower Eq (do
      let token ← peek
      match updateOp? token.lexeme with
      | some increment =>
          if token.newlineBefore then
            pure value
          else if value.isAssignable then
            skip
            pure (.update increment false value)
          else
            unexpected "assignable operand for postfix update"
      | none => pure value) (do
      let token ← peek
      match updateOp? token.lexeme with
      | some increment =>
          if token.newlineBefore then
            pure value
          else if value.isAssignable then
            skip
            pure (.update increment false value)
          else
            unexpected "assignable operand for postfix update"
      | none => pure value) := by
  refine peek_bind fun token token' alike => ?_
  rw [alike.lexeme.map_eq updateOp? fun _ _ => rfl, ← alike.newline]
  split
  · split
    · exact pure_relates rfl
    · split
      · exact skip_relates.behind fun _ => pure_relates rfl
      · exact unexpected_relates _ _
  · exact pure_relates rfl

theorem postfixUpdate_relates (forks : g.Forks shallower g') :
    F.Relates shallower Eq (postfixUpdate g) (postfixUpdate g') :=
  (callMember_relates forks).behind updated_relates

theorem unaryExpression_relates (forks : g.Forks shallower g') :
    F.Relates shallower Eq (unaryExpression g) (unaryExpression g') := by
  unfold unaryExpression
  refine lexeme_bind fun l l' alike => ?_
  rw [alike.map_eq unaryOp? fun _ _ => rfl, alike.map_eq updateOp? fun _ _ => rfl]
  split
  · exact skip_relates.behind fun _ => (forks.operand F).behind fun operand => pure_relates rfl
  · refine skip_relates.behind fun _ => (forks.operand F).behind fun target => ?_
    split
    · exact pure_relates rfl
    · exact unexpected_relates _ _
  · exact postfixUpdate_relates forks

/-- The operator that binds tighter than `floor` and may be taken here. -/
def operatorAt (floor : Nat) (c : Cursor) : Option (Nat × InfixOp) :=
  match infixOp? c.current.lexeme with
  | none => none
  | some (precedence, op) =>
      if precedence ≤ floor then none
      else if op.isInside && c.inBarred then none
      else some (precedence, op)

theorem isInside_of_infixOp? {l : Lexeme} {op : Nat × InfixOp} (found : infixOp? l = some op) :
    op.2.isInside = l.isKeyword .inWord := by
  unfold infixOp? at found
  split at found <;> first | (cases found; rfl) | cases found

theorem operatorAt_agreed {c c' : Cursor} (agree : F.Agree c c') (floor : Nat) :
    operatorAt floor c' = operatorAt floor c := by
  have noIn (mixed : F.mixed) : c.current.lexeme.isKeyword .inWord = false := by
    obtain ⟨zone, zone', zones, ahead, -⟩ := agree.zones
    unfold Cursor.current
    rw [ahead]
    cases zones with
    | last shares => exact shares.noIn mixed
    | cons shares => exact shares.noIn mixed
  unfold operatorAt
  rw [agree.current.lexeme.map_eq infixOp? fun _ _ => rfl]
  cases found : infixOp? c.current.lexeme with
  | none => rfl
  | some op =>
      have inside := isInside_of_infixOp? found
      rcases agree.barred with mixed | barred
      · dsimp only
        rw [inside, noIn mixed, Bool.false_and, Bool.false_and]
      · rw [barred]

theorem operatorsAfter_relates (forks : g.Forks shallower g') (floor bound : Nat) (left : Expr) :
    F.Relates shallower Eq (operatorsAfter g floor bound left)
      (operatorsAfter g' floor bound left) := by
  induction bound generalizing left with
  | zero => exact pure_relates rfl
  | succ bound ih =>
      let turn (g : Grammar) : Option (Nat × InfixOp) → Parse Expr
        | none => pure left
        | some (precedence, op) => do
            skip
            let right ← g.operators
              (if precedence = powerPrecedence then precedence - 1 else precedence)
            operatorsAfter g floor bound (op.apply left right)
      have chosen (g : Grammar) (c : Cursor) :
          operatorsAfter g floor (bound + 1) left c = turn g (operatorAt floor c) c := by
        rw [operatorsAfter, StateT.bind_ok (show lexeme c = .ok (c.current.lexeme, c) from rfl)]
        unfold operatorAt
        cases infixOp? c.current.lexeme with
        | none => rfl
        | some op =>
            dsimp only
            split
            · rfl
            · rw [StateT.bind_ok (show inBarred c = .ok (c.inBarred, c) from rfl)]
              split <;> rfl
      refine choice_relates (chosen g) (chosen g')
        (fun c c' agree => .inl (operatorAt_agreed agree floor)) fun op => ?_
      cases op with
      | none => exact pure_relates rfl
      | some op =>
          exact skip_relates.behind fun _ => (forks.operators F _).behind fun right => ih _

theorem operations_relates (forks : g.Forks shallower g') (floor : Nat) (left : Expr) :
    F.Relates shallower Eq (do operatorsAfter g floor (← size) left)
      (do operatorsAfter g' floor (← size) left) :=
  size_bind (operatorsAfter_unbounded forks.spans floor left)
    (operatorsAfter_unbounded forks.spans' floor left) fun bound =>
      operatorsAfter_relates forks floor bound left

theorem operatorExpression_relates (forks : g.Forks shallower g') (floor : Nat) :
    F.Relates shallower Eq (operatorExpression g floor) (operatorExpression g' floor) :=
  (unaryExpression_relates forks).behind fun left => operations_relates forks floor left

theorem branches_relates (forks : g.Forks shallower g') (condition : Expr) :
    F.Relates shallower Eq (do
      if ← eatMark .question then
        allowingIn do
          let consequent ← g.assignment
          expectMark .colon "':' in conditional expression"
          let alternative ← g.assignment
          pure (.conditional condition consequent alternative)
      else
        pure condition) (do
      if ← eatMark .question then
        allowingIn do
          let consequent ← g'.assignment
          expectMark .colon "':' in conditional expression"
          let alternative ← g'.assignment
          pure (.conditional condition consequent alternative)
      else
        pure condition) := by
  refine (eatMark_relates .question).behind fun asks => ?_
  split
  · exact Relates.allowingIn ((forks.assignment F).behind fun consequent =>
      (expectMark_relates _ _).behind fun _ => (forks.assignment F).behind fun alternative =>
        pure_relates rfl)
  · exact pure_relates rfl

theorem conditionalExpression_relates (forks : g.Forks shallower g') :
    F.Relates shallower Eq (conditionalExpression g) (conditionalExpression g') :=
  (operatorExpression_relates forks 0).behind fun condition => branches_relates forks condition

theorem assigned_relates (forks : g.Forks shallower g') (target : Expr) :
    F.Relates shallower Eq (do
      match assignmentOp? (← lexeme) with
      | some op =>
          if target.isAssignable then
            skip
            let value ← g.assignment
            pure (.assign op target value)
          else
            unexpected "assignable expression before assignment"
      | none => pure target) (do
      match assignmentOp? (← lexeme) with
      | some op =>
          if target.isAssignable then
            skip
            let value ← g'.assignment
            pure (.assign op target value)
          else
            unexpected "assignable expression before assignment"
      | none => pure target) := by
  refine lexeme_bind fun l l' alike => ?_
  rw [alike.map_eq assignmentOp? fun _ _ => rfl]
  split
  · split
    · exact skip_relates.behind fun _ => (forks.assignment F).behind fun value => pure_relates rfl
    · exact unexpected_relates _ _
  · exact pure_relates rfl

/-! ### From the last shared token -/

theorem takeIdentifier_of_eq {c : Cursor} {name : String}
    (spelled : c.current.lexeme = .identifier name) (what : String) :
    takeIdentifier what c = .ok (name, c.advance) := by
  rw [takeIdentifier, StateT.bind_ok (show lexeme c = .ok (c.current.lexeme, c) from rfl), spelled]
  rfl

theorem primary_leaves (forks : g.Forks shallower g') {c : Cursor} (edge : F.Edge c) :
    F.Leaves False (primary g c) := by
  rw [primary, StateT.bind_ok (show advance c = .ok (c.current, c.advance) from rfl)]
  rcases edge.word with ⟨name, spelled⟩ | spelled <;> rw [spelled]
  · exact (pure_drifts _).leaves edge.advance
  · exact ((functionRest_relates forks false).drifts.bind fun definition =>
      pure_drifts _).leaves edge.advance

theorem callMember_leaves (forks : g.Forks shallower g') {c : Cursor} (edge : F.Edge c) :
    F.Leaves False (callMember g c) := by
  have old : eatKeyword .newWord c = .ok (false, c) := by
    unfold eatKeyword
    rcases edge.word with ⟨name, spelled⟩ | spelled <;> rw [spelled] <;> rfl
  unfold callMember
  rw [StateT.bind_ok old]
  exact (primary_leaves forks edge).bind fun first =>
    (accessChain_relates forks c.size first).drifts

theorem unaryExpression_leaves (forks : g.Forks shallower g') {c : Cursor} (edge : F.Edge c) :
    F.Leaves False (unaryExpression g c) := by
  have bare : unaryExpression g c = postfixUpdate g c := by
    rw [unaryExpression, StateT.bind_ok (show lexeme c = .ok (c.current.lexeme, c) from rfl)]
    rcases edge.word with ⟨name, spelled⟩ | spelled <;> rw [spelled] <;> rfl
  rw [bare]
  exact (callMember_leaves forks edge).bind fun value =>
    (updated_relates value : F.Relates shallower Eq _ _).drifts

theorem conditionalExpression_leaves (forks : g.Forks shallower g') {c : Cursor}
    (edge : F.Edge c) : F.Leaves False (conditionalExpression g c) :=
  Leaves.bind (Leaves.bind (unaryExpression_leaves forks edge) fun left =>
    (operations_relates forks 0 left).drifts) fun condition => (branches_relates forks condition).drifts

/-- Whether an arrow function begins here. -/
def arrowBegins (c : Cursor) : Bool :=
  match c.current.lexeme with
  | .identifier _ => (c.lookahead 1).isMark .arrow
  | .mark .openParen => closesBeforeArrow 0 c.ahead
  | _ => false

theorem arrowAhead_eq (c : Cursor) : arrowAhead c = .ok (arrowBegins c, c) := by
  unfold arrowAhead arrowBegins
  cases c.current.lexeme with
  | mark sign => cases sign <;> rfl
  | _ => rfl

/-- An assignment expression once it is known whether it is an arrow function. -/
def assignmentTurn (g : Grammar) : Bool → Parse Expr
  | true => arrowFunction g
  | false => do
      let target ← conditionalExpression g
      match assignmentOp? (← lexeme) with
      | some op =>
          if target.isAssignable then
            skip
            let value ← g.assignment
            pure (.assign op target value)
          else
            unexpected "assignable expression before assignment"
      | none => pure target

theorem assignmentExpression_eq (g : Grammar) (c : Cursor) :
    assignmentExpression g c = assignmentTurn g (arrowBegins c) c := by
  unfold assignmentExpression
  rw [StateT.bind_ok (arrowAhead_eq c)]
  cases arrowBegins c <;> rfl

theorem arrowFunction_leaves (forks : g.Forks shallower g') {c : Cursor} (edge : F.Edge c)
    (begins : arrowBegins c = true) : F.Leaves False (arrowFunction g c) := by
  unfold arrowBegins at begins
  rcases edge.word with ⟨name, spelled⟩ | spelled <;> rw [spelled] at begins
  · have bare : atMark .openParen c = .ok (false, c) := by rw [atMark, spelled]; rfl
    have named : (do
        if ← atMark .openParen then
          parameterList
        else
          return [← takeIdentifier "parameter name"]) c = .ok ([name], c.advance) := by
      rw [StateT.bind_ok bare]
      exact StateT.bind_ok (takeIdentifier_of_eq spelled _)
    unfold arrowFunction
    rw [StateT.bind_ok named]
    exact (arrowBody_relates forks [name]).drifts.leaves edge.advance
  · cases begins

theorem assignmentExpression_leaves (forks : g.Forks shallower g') {c : Cursor}
    (edge : F.Edge c) : F.Leaves False (assignmentExpression g c) := by
  rw [assignmentExpression_eq]
  cases begins : arrowBegins c with
  | true => exact arrowFunction_leaves forks edge begins
  | false => exact (conditionalExpression_leaves forks edge).bind fun target =>
      (assigned_relates forks target).drifts

theorem arrowBegins_agreed {c c' : Cursor} (agree : F.Agree c c') :
    arrowBegins c' = arrowBegins c ∨ F.Edge c ∧ ∃ name, c.current.lexeme = .identifier name := by
  obtain ⟨zone, zone', zones, ahead, ahead'⟩ := agree.zones
  have alike := agree.current.lexeme
  have parens (opens : c.current.lexeme.isMark .openParen = true) :
      closesBeforeArrow 0 c'.ahead = closesBeforeArrow 0 c.ahead := by
    unfold Cursor.current at opens
    rw [ahead] at opens
    rw [ahead, ahead']
    cases zones with
    | last shares => exact shares.arrow opens
    | cons shares => exact shares.arrow opens
  have next (name : String) (named : c.current.lexeme = .identifier name) :
      (c'.lookahead 1).isMark .arrow = (c.lookahead 1).isMark .arrow ∨ F.Edge c :=
    agree.lookahead_one.symm.imp (fun second => second.isMark_eq _) fun last =>
      ⟨agree.proper, last, .inl ⟨name, named⟩⟩
  unfold arrowBegins
  generalize c.current.lexeme = l, c'.current.lexeme = l' at alike parens next
  cases alike with
  | refl =>
      split
      · exact (next _ rfl).imp_right fun edge => ⟨edge, _, rfl⟩
      · exact .inl (parens rfl)
      · exact .inl rfl
  | template => exact .inl rfl

theorem assignmentExpression_relates (forks : g.Forks shallower g') :
    F.Relates shallower Eq (assignmentExpression g) (assignmentExpression g') := by
  refine choice_relates (assignmentExpression_eq g) (assignmentExpression_eq g')
    (fun c c' agree => (arrowBegins_agreed agree).imp_right fun edge =>
      (assignmentExpression_leaves forks edge.1).mono False.elim) fun begins => ?_
  cases begins with
  | true => exact arrowFunction_relates forks
  | false => exact (conditionalExpression_relates forks).behind fun target =>
      assigned_relates forks target

theorem argumentList_relates (forks : g.Forks shallower g') :
    F.Relates shallower Eq (argumentList g) (argumentList g') :=
  (expectMark_relates _ _).behind fun _ => closing_relates (listed_relates forks _) _ _ id

/-! ## Statements -/

/-- A declarator behind its name, and the ones that follow. -/
theorem declared_relates (forks : g.Forks shallower g') {bound : Nat}
    (rest : ∀ found, F.Relates shallower Eq (declarators g bound found) (declarators g' bound found))
    (found : List Declarator) (name : String) :
    F.Relates shallower Eq (do
      let initial ← (do if ← eatMark .assign then return some (← g.assignment) else pure none)
      let found := .declare name initial :: found
      if ← eatMark .comma then declarators g bound found else pure found.reverse) (do
      let initial ← (do if ← eatMark .assign then return some (← g'.assignment) else pure none)
      let found := .declare name initial :: found
      if ← eatMark .comma then declarators g' bound found else pure found.reverse) := by
  have initial : F.Relates shallower Eq
      (do if ← eatMark .assign then return some (← g.assignment) else pure none)
      (do if ← eatMark .assign then return some (← g'.assignment) else pure none) := by
    refine (eatMark_relates .assign).behind fun assigns => ?_
    split
    · exact (forks.assignment F).behind fun value => pure_relates rfl
    · exact pure_relates rfl
  refine initial.behind fun initial => (eatMark_relates .comma).behind fun comma => ?_
  split
  · exact rest _
  · exact pure_relates rfl

theorem declarators_relates (forks : g.Forks shallower g') (bound : Nat)
    (found : List Declarator) :
    F.Relates shallower Eq (declarators g bound found) (declarators g' bound found) := by
  induction bound generalizing found with
  | zero => exact pure_relates rfl
  | succ bound ih =>
      exact (takeIdentifier_relates _).behind fun name => declared_relates forks ih found name

theorem declarations_relates (forks : g.Forks shallower g') (kind : Declaration) :
    F.Relates shallower Eq (do return Stmt.declaration kind (← declarators g (← size) []))
      (do return Stmt.declaration kind (← declarators g' (← size) [])) :=
  size_bind ((declarators_unbounded forks.spans []).bind _) ((declarators_unbounded forks.spans' []).bind _)
    fun bound => (declarators_relates forks bound []).behind fun _ => pure_relates rfl

theorem declarationStatement_relates (forks : g.Forks shallower g') (kind : Declaration) :
    F.Relates shallower Eq (declarationStatement g kind) (declarationStatement g' kind) :=
  skip_relates.behind fun _ => declarations_relates forks kind

theorem parenExpression_relates (forks : g.Forks shallower g') :
    F.Relates shallower Eq (parenExpression g) (parenExpression g') :=
  (expectMark_relates _ _).behind fun _ => (forks.expression F).behind fun _ =>
    (expectMark_relates _ _).behind fun _ => pure_relates rfl

theorem ifStatement_relates (forks : g.Forks shallower g') :
    F.Relates shallower Eq (ifStatement g) (ifStatement g') := by
  have other : F.Relates shallower Eq
      (do if ← eatKeyword .elseWord then return some (← g.statement) else pure none)
      (do if ← eatKeyword .elseWord then return some (← g'.statement) else pure none) := by
    refine (eatKeyword_relates .elseWord).behind fun found => ?_
    split
    · exact (forks.statement F).behind fun alternative => pure_relates rfl
    · exact pure_relates rfl
  exact (parenExpression_relates forks).behind fun condition => (forks.statement F).behind
    fun consequent => other.behind fun alternative => pure_relates rfl

/-- A loop over a collection behind its name and the word that follows. -/
theorem walked_relates (forks : g.Forks shallower g') (walk : WalkKind) (kind : Option Declaration)
    (name : String) :
    F.Relates shallower Eq (do
      let target ← g.expression
      expectMark .closeParen "')'"
      let body ← g.statement
      match walk with
      | .elements => pure (Stmt.forOf kind name target body)
      | .keys => pure (.forIn kind name target body)) (do
      let target ← g'.expression
      expectMark .closeParen "')'"
      let body ← g'.statement
      match walk with
      | .elements => pure (.forOf kind name target body)
      | .keys => pure (.forIn kind name target body)) := by
  refine (forks.expression F).behind fun target => (expectMark_relates _ _).behind fun _ =>
    (forks.statement F).behind fun body => ?_
  cases walk <;> exact pure_relates rfl

theorem walkLoop_relates (forks : g.Forks shallower g') (walk : WalkKind)
    (kind : Option Declaration) (name : String) :
    F.Relates shallower Eq (walkLoop g walk kind name) (walkLoop g' walk kind name) :=
  skip_relates.behind fun _ => skip_relates.behind fun _ => walked_relates forks walk kind name

theorem optionalExpression_relates (forks : g.Forks shallower g') (close : Mark) :
    F.Relates shallower Eq (optionalExpression g close) (optionalExpression g' close) := by
  unfold optionalExpression
  refine (atMark_relates close).behind fun closed => ?_
  split
  · exact pure_relates rfl
  · exact (forks.expression F).behind fun _ => pure_relates rfl

theorem unbarred_relates (initial : Stmt) :
    F.Relates shallower Eq (do setInBarred false; pure (some initial))
      (do setInBarred false; pure (some initial)) :=
  (setInBarred_relates (.inr rfl)).behind fun _ => pure_relates rfl

theorem forInitial_relates (forks : g.Forks shallower g') :
    F.Relates shallower Eq (forInitial g) (forInitial g') := by
  unfold forInitial
  refine (atMark_relates .semicolon).behind fun none => ?_
  split
  · exact pure_relates rfl
  · refine (setInBarred_relates (.inr rfl)).behind fun _ => lexeme_bind fun l l' alike => ?_
    rw [alike.map_eq declarationWord? fun _ _ => rfl]
    dsimp only
    split
    · exact (declarationStatement_relates forks _).behind unbarred_relates
    · exact (forks.expression F).behind fun value => unbarred_relates _

/-- A counting header behind its first part, and the body. -/
theorem counted_relates (forks : g.Forks shallower g') (initial : Option Stmt) :
    F.Relates shallower Eq (do
      expectMark .semicolon "';' in for header"
      let condition ← optionalExpression g .semicolon
      expectMark .semicolon "';' in for header"
      let update ← optionalExpression g .closeParen
      expectMark .closeParen "')'"
      let body ← g.statement
      pure (Stmt.forLoop initial condition update body)) (do
      expectMark .semicolon "';' in for header"
      let condition ← optionalExpression g' .semicolon
      expectMark .semicolon "';' in for header"
      let update ← optionalExpression g' .closeParen
      expectMark .closeParen "')'"
      let body ← g'.statement
      pure (Stmt.forLoop initial condition update body)) :=
  (expectMark_relates _ _).behind fun _ => (optionalExpression_relates forks _).behind
    fun _ => (expectMark_relates _ _).behind fun _ =>
      (optionalExpression_relates forks _).behind fun _ => (expectMark_relates _ _).behind
        fun _ => (forks.statement F).behind fun _ => pure_relates rfl

theorem countingLoop_relates (forks : g.Forks shallower g') :
    F.Relates shallower Eq (countingLoop g) (countingLoop g') :=
  (forInitial_relates forks).behind fun initial => counted_relates forks initial

/-! ### Headers of loops -/

def walkBy (word next : Lexeme) : Option (String × WalkKind) :=
  match word, walkKind? next with
  | .identifier name, some walk => some (name, walk)
  | _, _ => none

/-- The name and the kind of a loop over a collection whose header begins here. -/
def walkAt (c : Cursor) : Option (String × WalkKind) :=
  let offset := if (declarationWord? c.current.lexeme).isSome then 1 else 0
  walkBy (c.lookahead offset) (c.lookahead (offset + 1))

def headerTurn (g : Grammar) : Option Declaration × Option (String × WalkKind) → Parse Stmt
  | (kind, some (name, walk)) => do
      if kind.isSome then skip
      walkLoop g walk kind name
  | (_, none) => countingLoop g

/-- A loop behind its opening parenthesis. -/
def headed (g : Grammar) : Parse Stmt := fun c =>
  headerTurn g (declarationWord? c.current.lexeme, walkAt c) c

theorem headed_eq (g : Grammar) (c : Cursor) :
    headed g c = headerTurn g (declarationWord? c.current.lexeme, walkAt c) c :=
  rfl

theorem forStatement_eq (g : Grammar) :
    forStatement g = expectMark .openParen "'(' after 'for'" >>= fun _ => headed g := by
  unfold forStatement
  congr 1
  funext _ c
  rw [StateT.bind_ok (show lexeme c = .ok (c.current.lexeme, c) from rfl)]
  dsimp only
  rw [StateT.bind_ok (show lookahead _ c = .ok (c.lookahead _, c) from rfl),
    StateT.bind_ok (show lookahead _ c = .ok (c.lookahead _, c) from rfl)]
  unfold headed walkAt walkBy
  dsimp only
  generalize c.lookahead _ = word, walkKind? (c.lookahead _) = walk
  cases word with
  | identifier name => cases walk <;> rfl
  | _ => rfl

theorem headerTurn_relates (forks : g.Forks shallower g')
    (turn : Option Declaration × Option (String × WalkKind)) :
    F.Relates shallower Eq (headerTurn g turn) (headerTurn g' turn) := by
  obtain ⟨kind, _ | ⟨name, walk⟩⟩ := turn
  · exact countingLoop_relates forks
  · cases kind with
    | none => exact walkLoop_relates forks walk none name
    | some kind => exact skip_relates.behind fun _ => walkLoop_relates forks walk (some kind) name

theorem walkBy_alike {l l' m m' : Lexeme} (word : l.Alike l') (next : m.Alike m') :
    walkBy l' m' = walkBy l m := by
  have walks : walkKind? m' = walkKind? m := next.map_eq walkKind? fun _ _ => rfl
  unfold walkBy
  rw [walks]
  cases word <;> rfl

theorem walkBy_none {l : Lexeme} (other : ∀ name, l ≠ .identifier name) (m : Lexeme) :
    walkBy l m = none := by
  cases l with
  | identifier name => exact absurd rfl (other name)
  | _ => rfl

/-- Where the first run is so near the end of the shared tokens that the header
    of a loop may look different in the second. -/
inductive Nearby (F : Fork) (c : Cursor) : Option Declaration → Prop where
  | bare {name : String} : F.Edge c → c.current.lexeme = .identifier name → Nearby F c none
  | word {kind : Declaration} : F.Past c.advance → Nearby F c (some kind)
  | name {kind : Declaration} {name : String} : F.Edge c.advance →
      c.advance.current.lexeme = .identifier name → Nearby F c (some kind)

theorem walkBy_agreed {c c' : Cursor} (agree : F.Agree c c') :
    walkBy (c'.lookahead 0) (c'.lookahead 1) = walkBy (c.lookahead 0) (c.lookahead 1) ∨
      F.Edge c ∧ ∃ name, c.current.lexeme = .identifier name := by
  have first := agree.current.lexeme
  rw [c.lookahead_zero, c'.lookahead_zero]
  by_cases named : ∃ name, c.current.lexeme = .identifier name
  · exact agree.lookahead_one.symm.imp (walkBy_alike first) fun last =>
      ⟨⟨agree.proper, last, .inl named⟩, named⟩
  · have other : ∀ name, c.current.lexeme ≠ .identifier name := fun name same => named ⟨name, same⟩
    rw [walkBy_alike first (.refl _), walkBy_none other, walkBy_none other]
    exact .inl rfl

theorem walkAt_agreed {c c' : Cursor} (agree : F.Agree c c') :
    walkAt c' = walkAt c ∨ Nearby F c (declarationWord? c.current.lexeme) := by
  have kinds : declarationWord? c'.current.lexeme = declarationWord? c.current.lexeme :=
    agree.current.lexeme.map_eq declarationWord? fun _ _ => rfl
  unfold walkAt
  rw [kinds]
  cases kind : declarationWord? c.current.lexeme with
  | none =>
      refine (walkBy_agreed agree).imp_right ?_
      rintro ⟨edge, name, named⟩
      exact .bare edge named
  | some kind' =>
      have more := (operator_of_declarationWord? kind).more
      have more' := (operator_of_declarationWord? (kinds.trans kind)).more
      rcases agree.advance with past | further
      · exact .inr (.word past)
      · simp only [Option.isSome_some, if_true]
        rw [agree.proper.lookahead_succ more 0, agree.proper.lookahead_succ more 1,
          agree.proper'.lookahead_succ more' 0, agree.proper'.lookahead_succ more' 1]
        refine (walkBy_agreed further).imp_right ?_
        rintro ⟨edge, name, named⟩
        exact .name edge named

/-! ### From the last tokens of a header -/

theorem Cursor.advance_barring (c : Cursor) (barred : Bool) :
    ({ c with inBarred := barred } : Cursor).advance = { c.advance with inBarred := barred } := by
  unfold Cursor.advance
  dsimp only
  split <;> rfl

theorem Past.barring {c : Cursor} (past : F.Past c) (barred : Bool) :
    F.Past { c with inBarred := barred } :=
  ⟨⟨past.proper.ended, past.proper.last, past.proper.within⟩, past.ahead, past.before⟩

theorem Edge.barring {c : Cursor} (edge : F.Edge c) (barred : Bool) :
    F.Edge { c with inBarred := barred } :=
  ⟨⟨edge.proper.ended, edge.proper.last, edge.proper.within⟩, edge.ahead, edge.word⟩

theorem declarators_leaves (forks : g.Forks shallower g') {c : Cursor} (edge : F.Edge c)
    {name : String} (named : c.current.lexeme = .identifier name) (bound : Nat)
    (found : List Declarator) : F.Leaves False (declarators g (bound + 1) found c) := by
  unfold declarators
  rw [StateT.bind_ok (takeIdentifier_of_eq named _)]
  exact (declared_relates forks (declarators_relates forks bound) found name).drifts.leaves
    edge.advance

/-- A declaration behind its word. -/
theorem declarations_leaves (forks : g.Forks shallower g') {c : Cursor} (kind : Declaration)
    (near : F.Past c ∨ F.Edge c ∧ ∃ name, c.current.lexeme = .identifier name) :
    F.Leaves False ((do return Stmt.declaration kind (← declarators g (← size) []) : Parse Stmt) c) := by
  rcases near with past | ⟨edge, name, named⟩
  · exact (declarations_relates forks kind).drifts.leaves past
  · rw [StateT.bind_ok (show size c = .ok (c.size, c) from rfl)]
    obtain ⟨bound, sized⟩ : ∃ bound, c.size = bound + 1 :=
      Nat.exists_eq_add_one.mpr (Nat.lt_of_lt_of_le edge.proper.ahead_pos edge.proper.within)
    rw [sized]
    exact (declarators_leaves forks edge named bound []).bind fun declared => pure_drifts _

theorem forInitial_of_word {c : Cursor} {kind : Declaration}
    (declares : declarationWord? c.current.lexeme = some kind) (g : Grammar) :
    forInitial g c = (do
      let statement ← (do return Stmt.declaration kind (← declarators g (← size) []))
      setInBarred false
      pure (some statement) : Parse (Option Stmt)) { c.advance with inBarred := true } := by
  have started : atMark .semicolon c = .ok (false, c) := by
    unfold atMark
    cases word : c.current.lexeme with
    | mark sign => rw [word] at declares; cases declares
    | _ => rfl
  have barred : setInBarred true c = .ok ((), { c with inBarred := true }) := rfl
  have word : declarationWord? ({ c with inBarred := true } : Cursor).current.lexeme = some kind :=
    declares
  unfold forInitial
  rw [StateT.bind_ok started, if_neg Bool.false_ne_true, StateT.bind_ok barred,
    StateT.bind_ok (show lexeme _ = .ok (_, _) from rfl)]
  dsimp only
  rw [word, ← Cursor.advance_barring]
  rfl

theorem countingLoop_leaves_word (forks : g.Forks shallower g') {c : Cursor} {kind : Declaration}
    (declares : declarationWord? c.current.lexeme = some kind)
    (near : F.Past c.advance ∨
      F.Edge c.advance ∧ ∃ name, c.advance.current.lexeme = .identifier name) :
    F.Leaves False (countingLoop g c) := by
  have initial : F.Leaves False (forInitial g c) := by
    rw [forInitial_of_word declares]
    refine (declarations_leaves forks kind ?_).bind fun statement =>
      (unbarred_relates statement : F.Relates shallower Eq _ _).drifts
    exact near.imp (·.barring true) fun ⟨edge, named⟩ => ⟨edge.barring true, named⟩
  exact initial.bind fun initial => (counted_relates forks initial).drifts

theorem forInitial_of_name {c : Cursor} {name : String}
    (named : c.current.lexeme = .identifier name) (g : Grammar) :
    forInitial g c = (do
      let value ← g.expression
      setInBarred false
      pure (some (.expression value)) : Parse (Option Stmt)) { c with inBarred := true } := by
  have started : atMark .semicolon c = .ok (false, c) := by rw [atMark, named]; rfl
  have barred : setInBarred true c = .ok ((), { c with inBarred := true }) := rfl
  have word : declarationWord? ({ c with inBarred := true } : Cursor).current.lexeme = none := by
    rw [show ({ c with inBarred := true } : Cursor).current = c.current from rfl, named]
    rfl
  unfold forInitial
  rw [StateT.bind_ok started, if_neg Bool.false_ne_true, StateT.bind_ok barred,
    StateT.bind_ok (show lexeme _ = .ok (_, _) from rfl)]
  dsimp only
  rw [word]
  rfl

theorem headerTurn_refused (refuses : g.expression = refuseDeeper) {c : Cursor} {name : String}
    (named : c.current.lexeme = .identifier name) (walk : Option (String × WalkKind)) :
    ∃ fault, headerTurn g (none, walk) c = .error fault := by
  rcases walk with _ | ⟨name, walk⟩
  · refine ⟨.syntaxFault c.current.position (.nestingTooDeep maxNesting), ?_⟩
    change (forInitial g c >>= _) = _
    rw [forInitial_of_name named, refuses]
    rfl
  · refine ⟨.syntaxFault c.advance.advance.current.position (.nestingTooDeep maxNesting), ?_⟩
    change (g.expression _ >>= _) = _
    rw [refuses]
    rfl

/-- A header that begins with a name is refused where expressions are. -/
theorem headerTurn_leaves (forks : g.Forks shallower g') {c : Cursor}
    (near : Nearby F c (declarationWord? c.current.lexeme)) (walk : Option (String × WalkKind)) :
    F.Leaves ((∃ name, c.current.lexeme = .identifier name) ∧ g'.expression = refuseDeeper)
      (headerTurn g (declarationWord? c.current.lexeme, walk) c) := by
  generalize kind : declarationWord? c.current.lexeme = kind? at near
  cases near with
  | @bare name edge named =>
      rcases forks.expression_leaves with ⟨refuses, refuses'⟩ | leaves
      · obtain ⟨fault, failed⟩ := headerTurn_refused refuses named walk
        refine ⟨fun loop d ran => ?_, fun _ _ => .inr ⟨⟨name, named⟩, refuses'⟩⟩
        cases failed.symm.trans ran
      · rcases walk with _ | ⟨name, walk⟩
        · have initial : F.Leaves False (forInitial g c) := by
            rw [forInitial_of_name named]
            exact (leaves F _ (edge.barring true)).bind fun value =>
              (unbarred_relates (.expression value) : F.Relates shallower Eq _ _).drifts
          exact (initial.bind fun initial => (counted_relates forks initial).drifts).mono False.elim
        · exact (skip_relates.behind fun _ => walked_relates forks walk none name).drifts.leaves
            edge.advance
  | word past =>
      rcases walk with _ | ⟨name, walk⟩
      · exact (countingLoop_leaves_word forks kind (.inl past)).mono False.elim
      · exact (walkLoop_relates forks walk _ name).drifts.leaves past
  | name edge named =>
      rcases walk with _ | ⟨name, walk⟩
      · exact (countingLoop_leaves_word forks kind (.inr ⟨edge, _, named⟩)).mono False.elim
      · exact (skip_relates.behind fun _ => walked_relates forks walk _ name).drifts.leaves
          edge.advance

theorem headed_relates (forks : g.Forks shallower g') :
    F.Relates shallower Eq (headed g) (headed g') := by
  refine choice_relates (headed_eq g) (headed_eq g') (fun c c' agree => ?_)
    (headerTurn_relates forks)
  have alike := agree.current.lexeme
  have kinds : declarationWord? c'.current.lexeme = declarationWord? c.current.lexeme :=
    alike.map_eq declarationWord? fun _ _ => rfl
  refine (walkAt_agreed agree).imp (fun walks => by rw [kinds, walks]) fun near => ?_
  refine (headerTurn_leaves forks near _).mono fun ⟨⟨name, named⟩, refuses⟩ => ?_
  have named' : c'.current.lexeme = .identifier name := by
    rw [named] at alike
    generalize c'.current.lexeme = l' at alike ⊢
    cases alike
    rfl
  rw [headed_eq, named']
  exact headerTurn_refused refuses named' _

theorem forStatement_relates (forks : g.Forks shallower g') :
    F.Relates shallower Eq (forStatement g) (forStatement g') := by
  rw [forStatement_eq, forStatement_eq]
  exact (expectMark_relates _ _).behind fun _ => headed_relates forks

theorem catchBinding_relates : F.Relates shallower Eq (do
    if ← eatMark .openParen then
      let name ← takeIdentifier "catch binding"
      expectMark .closeParen "')'"
      pure (some name)
    else
      pure none) (do
    if ← eatMark .openParen then
      let name ← takeIdentifier "catch binding"
      expectMark .closeParen "')'"
      pure (some name)
    else
      pure none) := by
  refine (eatMark_relates .openParen).behind fun opens => ?_
  split
  · exact (takeIdentifier_relates _).behind fun name => (expectMark_relates _ _).behind fun _ =>
      pure_relates rfl
  · exact pure_relates rfl

theorem tryStatement_relates (forks : g.Forks shallower g') :
    F.Relates shallower Eq (tryStatement g) (tryStatement g') := by
  have clause : F.Relates shallower Eq (do
      if ← eatKeyword .catchWord then
        let binding ← (do
          if ← eatMark .openParen then
            let name ← takeIdentifier "catch binding"
            expectMark .closeParen "')'"
            pure (some name)
          else
            pure none)
        let handler ← g.block
        pure (binding, some handler)
      else
        pure (none, none)) (do
      if ← eatKeyword .catchWord then
        let binding ← (do
          if ← eatMark .openParen then
            let name ← takeIdentifier "catch binding"
            expectMark .closeParen "')'"
            pure (some name)
          else
            pure none)
        let handler ← g'.block
        pure (binding, some handler)
      else
        pure (none, none)) := by
    refine (eatKeyword_relates .catchWord).behind fun caught => ?_
    split
    · exact catchBinding_relates.behind fun binding => (forks.block F).behind fun handler =>
        pure_relates rfl
    · exact pure_relates rfl
  have final : F.Relates shallower Eq
      (do if ← eatKeyword .finallyWord then return some (← g.block) else pure none)
      (do if ← eatKeyword .finallyWord then return some (← g'.block) else pure none) := by
    refine (eatKeyword_relates .finallyWord).behind fun found => ?_
    split
    · exact (forks.block F).behind fun body => pure_relates rfl
    · exact pure_relates rfl
  unfold tryStatement
  refine (forks.block F).behind fun block => clause.behind fun caught => final.behind
    fun finalizer => ?_
  split
  · exact unexpected_relates _ _
  · exact pure_relates rfl

theorem returnStatement_relates (forks : g.Forks shallower g') :
    F.Relates shallower Eq (returnStatement g) (returnStatement g') := by
  unfold returnStatement
  refine peek_bind fun token token' alike => ?_
  rw [alike.lexeme.isMark_eq, alike.lexeme.isMark_eq, alike.lexeme.isEnd_eq, ← alike.newline]
  have value (bare : Bool) : F.Relates shallower Eq
      (do if bare then pure none else return some (← g.expression))
      (do if bare then pure none else return some (← g'.expression)) := by
    split
    · exact pure_relates rfl
    · exact (forks.expression F).behind fun value => pure_relates rfl
  exact (value _).behind fun value => endStatement_relates.behind fun _ => pure_relates rfl

theorem throwStatement_relates (forks : g.Forks shallower g') :
    F.Relates shallower Eq (throwStatement g) (throwStatement g') := by
  unfold throwStatement
  refine peek_bind fun token token' alike => ?_
  rw [← alike.newline]
  split
  · exact unexpected_relates _ _
  · exact (forks.expression F).behind fun value => endStatement_relates.behind fun _ =>
      pure_relates rfl

theorem doStatement_relates (forks : g.Forks shallower g') :
    F.Relates shallower Eq (doStatement g) (doStatement g') := by
  unfold doStatement
  refine (forks.statement F).behind fun body => (eatKeyword_relates .whileWord).behind
    fun found => ?_
  split
  · exact (parenExpression_relates forks).behind fun condition =>
      (eatMark_relates .semicolon).behind fun _ => pure_relates rfl
  · exact unexpected_relates _ _

theorem expressionStatement_relates (forks : g.Forks shallower g') :
    F.Relates shallower Eq (expressionStatement g) (expressionStatement g') :=
  (forks.expression F).behind fun _ => endStatement_relates.behind fun _ => pure_relates rfl

/-- What the word `function` begins. -/
def functionTurn (g : Grammar) : Bool → Parse Stmt
  | true => do
      skip
      return .function (← functionRest g true)
  | false => expressionStatement g

theorem functionTurn_relates (forks : g.Forks shallower g') (named : Bool) :
    F.Relates shallower Eq (functionTurn g named) (functionTurn g' named) := by
  cases named with
  | true => exact skip_relates.behind fun _ => (functionRest_relates forks true).behind fun _ =>
      pure_relates rfl
  | false => exact expressionStatement_relates forks

/-- At the last shared token, a name may be behind the word in one run only. -/
theorem functionTurn_leaves (forks : g.Forks shallower g') (naming : F.naming) {c : Cursor}
    (edge : F.Edge c) (named : Bool) : F.Leaves False (functionTurn g named c) := by
  cases named with
  | true =>
      have rest : F.Drifts (do return Stmt.function (← functionRest g true)) :=
        (functionRest_relates forks true).drifts.bind fun definition => pure_drifts _
      exact rest.leaves edge.advance
  | false =>
      have rest (value : Expr) : F.Relates shallower Eq (do endStatement; pure (Stmt.expression value))
          (do endStatement; pure (Stmt.expression value)) :=
        endStatement_relates.behind fun _ => pure_relates rfl
      refine Leaves.bind ?_ fun value => (rest value).drifts
      rcases forks.expression_leaves with ⟨refuses, -⟩ | leaves
      · have refused : g.expression c =
            .error (.syntaxFault c.current.position (.nestingTooDeep maxNesting)) := by
          rw [refuses]
          rfl
        refine ⟨fun value d ran => ?_, fun fault ran => ?_⟩
        · cases refused.symm.trans ran
        · cases refused.symm.trans ran
          exact .inl ⟨_, _, rfl, .inr (.inr ⟨naming, rfl⟩)⟩
      · exact leaves F c edge

theorem named_eq {c : Cursor} {token : Token} {rest : List Token} (proper : c.Proper)
    (ahead : c.ahead = token :: rest) : (c.lookahead 1).isIdentifier = named rest := by
  unfold Cursor.lookahead named
  rw [ahead]
  cases rest with
  | nil =>
      rw [List.getD_cons_succ, List.getD_nil, proper.last]
      rfl
  | cons next rest => rfl

theorem functionTurn_agreed (forks : g.Forks shallower g') {c c' : Cursor} (agree : F.Agree c c')
    (word : c.current.lexeme = .keyword .functionWord) :
    (c'.lookahead 1).isIdentifier = (c.lookahead 1).isIdentifier ∨
      F.Leaves False (functionTurn g (c.lookahead 1).isIdentifier c) := by
  obtain ⟨zone, zone', zones, ahead, ahead'⟩ := agree.zones
  cases zones with
  | @last token token' shares names =>
      have here : c.current = token := by rw [Cursor.current, ahead]; rfl
      rcases names (by rw [← here, word]; rfl) with naming | same
      · exact .inr (functionTurn_leaves forks naming
          ⟨agree.proper, by rw [here, ahead]; rfl, .inr word⟩ _)
      · left
        rw [named_eq agree.proper ahead, named_eq agree.proper' ahead']
        exact same
  | cons _ zones =>
      have second : (c.lookahead 1).Alike (c'.lookahead 1) := by
        unfold Cursor.lookahead
        rw [ahead, ahead']
        cases zones with
        | last second _ => exact second.alike.lexeme
        | cons second _ => exact second.alike.lexeme
      exact .inl second.isIdentifier_eq

theorem statementBody_relates (forks : g.Forks shallower g') :
    F.Relates shallower Eq (statementBody g) (statementBody g') := by
  have states := expressionStatement_relates (F := F) forks
  have chosen (g : Grammar) (c : Cursor) :
      (do if (← lookahead 1).isIdentifier then
            skip
            return .function (← functionRest g true)
          else
            expressionStatement g : Parse Stmt) c = functionTurn g (c.lookahead 1).isIdentifier c := by
    rw [StateT.bind_ok (show lookahead 1 c = .ok (c.lookahead 1, c) from rfl)]
    cases (c.lookahead 1).isIdentifier <;> rfl
  unfold statementBody
  refine lexeme_bind_except (.keyword .functionWord) (fun l l' alike other => ?_) ?_
    fun c c' agree word => ?_
  · cases alike with
    | template => exact states
    | refl =>
        split
        · exact (declarationStatement_relates forks _).behind fun _ =>
            endStatement_relates.behind fun _ => pure_relates rfl
        · exact (forks.block F).behind fun _ => pure_relates rfl
        · exact skip_relates.behind fun _ => pure_relates rfl
        · exact absurd rfl other
        · exact skip_relates.behind fun _ => returnStatement_relates forks
        · exact skip_relates.behind fun _ => ifStatement_relates forks
        · exact skip_relates.behind fun _ => (parenExpression_relates forks).behind fun _ =>
            (forks.statement F).behind fun _ => pure_relates rfl
        · exact skip_relates.behind fun _ => doStatement_relates forks
        · exact skip_relates.behind fun _ => forStatement_relates forks
        · exact skip_relates.behind fun _ => endStatement_relates.behind fun _ => pure_relates rfl
        · exact skip_relates.behind fun _ => endStatement_relates.behind fun _ => pure_relates rfl
        · exact skip_relates.behind fun _ => throwStatement_relates forks
        · exact skip_relates.behind fun _ => tryStatement_relates forks
        · exact states
  · have looks : F.Drifts (lookahead 1) := by
      have looked (c : Cursor) : lookahead 1 c = .ok (c.lookahead 1, c) := rfl
      refine ⟨fun c next d past ran => ?_, fun c fault _ ran => ?_⟩
      · cases (looked c).symm.trans ran
        exact past
      · cases (looked c).symm.trans ran
    refine looks.bind fun next => ?_
    split
    · exact (functionTurn_relates forks true).drifts
    · exact states.drifts
  · have word' : c'.current.lexeme = .keyword .functionWord := by
      have alike := agree.current.lexeme
      rw [word] at alike
      generalize c'.current.lexeme = l' at alike ⊢
      cases alike
      rfl
    rw [word']
    rcases functionTurn_agreed forks agree word with same | leaves
    · refine .inl ⟨_, _, functionTurn_relates forks _, chosen g c, ?_⟩
      rw [← same]
      exact chosen g' c'
    · rw [← chosen g c] at leaves
      exact .inr (leaves.mono False.elim)

theorem statementsToBrace_relates (forks : g.Forks shallower g') (bound : Nat)
    (found : List Stmt) :
    F.Relates shallower Eq (statementsToBrace g bound found) (statementsToBrace g' bound found) := by
  induction bound generalizing found with
  | zero => exact unexpected_relates _ _
  | succ bound ih =>
      unfold statementsToBrace
      refine (eatMark_relates .closeBrace).behind fun closed => ?_
      split
      · exact pure_relates rfl
      · refine atEnd_relates.behind fun ended => ?_
        split
        · exact unexpected_relates _ _
        · exact (forks.statement F).behind fun statement => ih _

theorem blockBody_relates (forks : g.Forks shallower g') :
    F.Relates shallower Eq (blockBody g) (blockBody g') :=
  (expectMark_relates _ _).behind fun _ => size_bind (statementsToBrace_unbounded forks.spans [])
    (statementsToBrace_unbounded forks.spans' []) fun bound => statementsToBrace_relates forks bound []

theorem statementsToEnd_relates (forks : g.Forks shallower g') (bound : Nat)
    (found : List Stmt) :
    F.Relates shallower Eq (statementsToEnd g bound found) (statementsToEnd g' bound found) := by
  induction bound generalizing found with
  | zero => exact pure_relates rfl
  | succ bound ih =>
      unfold statementsToEnd
      refine atEnd_relates.behind fun ended => ?_
      split
      · exact pure_relates rfl
      · exact (forks.statement F).behind fun statement => ih _

/-! ## Levels -/

end Fork

open Fork

variable {shallower : Prop} {g g' : Grammar}

theorem Grammar.Forks.around (forks : g.Forks shallower g') : g.around.Forks shallower g'.around where
  spans := forks.spans.around
  spans' := forks.spans'.around
  statement := fun _ => statementBody_relates forks
  block := fun _ => blockBody_relates forks
  expression := forks.assignment
  assignment := fun _ => assignmentExpression_relates forks
  operators := fun _ floor => operatorExpression_relates forks floor
  operand := fun _ => unaryExpression_relates forks
  arguments := fun _ => argumentList_relates forks
  arrayLiteral := fun _ => arrayElements_relates forks
  objectLiteral := fun _ => objectEntries_relates forks
  expression_leaves := forks.assignment_leaves
  assignment_leaves := .inr fun _ _ edge => assignmentExpression_leaves forks edge

/-- A grammar that refuses everything, beside one that need not. -/
theorem Grammar.Forks.exhausted (forks : g.Forks shallower g) (less : shallower) :
    g.Forks shallower .exhausted where
  spans := forks.spans
  spans' := Grammar.level_spans 0
  statement := fun F => (forks.statement F).drifts.relates_refused less
  block := fun F => (forks.block F).drifts.relates_refused less
  expression := fun F => (forks.expression F).drifts.relates_refused less
  assignment := fun F => (forks.assignment F).drifts.relates_refused less
  operators := fun F floor => (forks.operators F floor).drifts.relates_refused less
  operand := fun F => (forks.operand F).drifts.relates_refused less
  arguments := fun F => (forks.arguments F).drifts.relates_refused less
  arrayLiteral := fun F => (forks.arrayLiteral F).drifts.relates_refused less
  objectLiteral := fun F => (forks.objectLiteral F).drifts.relates_refused less
  expression_leaves := forks.expression_leaves.imp_left fun refuses => ⟨refuses.1, rfl⟩
  assignment_leaves := forks.assignment_leaves.imp_left fun refuses => ⟨refuses.1, rfl⟩

theorem Grammar.level_forks {n n' : Nat} (below : n' ≤ n) (less : n' < n → shallower) :
    (level n).Forks shallower (level n') := by
  induction n generalizing n' with
  | zero =>
      obtain rfl := Nat.le_zero.mp below
      exact ⟨level_spans 0, level_spans 0, fun _ => refuseDeeper_relates,
        fun _ => refuseDeeper_relates, fun _ => refuseDeeper_relates, fun _ => refuseDeeper_relates,
        fun _ _ => refuseDeeper_relates, fun _ => refuseDeeper_relates,
        fun _ => refuseDeeper_relates, fun _ => refuseDeeper_relates,
        fun _ => refuseDeeper_relates, .inl ⟨rfl, rfl⟩, .inl ⟨rfl, rfl⟩⟩
  | succ n ih =>
      cases n' with
      | zero =>
          have same := ih (Nat.le_refl n) fun less => absurd less (Nat.lt_irrefl n)
          exact same.around.exhausted (less (Nat.succ_pos n))
      | succ n' =>
          exact (ih (Nat.le_of_succ_le_succ below) fun small => less (Nat.succ_lt_succ small)).around

end StrategyQubo.Script
