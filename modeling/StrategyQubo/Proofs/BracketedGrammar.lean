import StrategyQubo.Proofs.BracketedSpans

namespace StrategyQubo.Script

/-! # Brackets in every construct -/

open Parse

/-- The parsers for nested constructs pass over balanced rows. -/
structure Grammar.Spans (g : Grammar) : Prop where
  statement : g.statement.Spans fun _ => Phrase true
  block : g.block.Spans fun _ => Bracketed .openBrace
  expression : g.expression.Spans fun _ => Phrase false
  assignment : g.assignment.Spans fun _ => Phrase false
  operators : ∀ floor, (g.operators floor).Spans fun _ => Phrase false
  operand : g.operand.Spans fun _ => Phrase false
  arguments : g.arguments.Spans fun _ => Bracketed .openParen
  arrayLiteral : g.arrayLiteral.Spans fun _ => Closed .closeBracket
  objectLiteral : g.objectLiteral.Spans fun _ => Closed .closeBrace

variable {g : Grammar} {on : Token → Prop}

theorem isPlain_of_eq {l : Lexeme} {token : Token} {semicolons : Bool} (spelled : token.lexeme = l)
    (plain : l.isPlain semicolons = true) : token.lexeme.isPlain semicolons = true :=
  spelled ▸ plain

/-! ## Lists and names -/

theorem expressionList_spans (spans : g.Spans) (close : Mark) (bound : Nat) (found : List Expr) :
    (expressionList g close bound found).Spans fun _ => Balanced false := by
  induction bound generalizing found with
  | zero => exact pure_spans .nil
  | succ bound ih =>
      unfold expressionList
      refine atMark_spans (pure_spans .nil) ?_
      refine spans.assignment.bind fun element row phrase => eatMark_spans (fun comma spelled => ?_) ?_
      · exact (ih _).mono fun _ more balanced =>
          phrase.balanced.append (.plain (isPlain_of_eq spelled rfl) balanced)
      · exact pure_spans (phrase.balanced.append .nil)

theorem parameterNames_spans (bound : Nat) (found : List String) :
    (parameterNames bound found).Spans fun _ => Balanced true := by
  induction bound generalizing found with
  | zero => exact pure_spans .nil
  | succ bound ih =>
      unfold parameterNames
      refine atMark_spans (pure_spans .nil) ?_
      refine takeIdentifier_spans fun name text named => ?_
      have plain : name.lexeme.isPlain true = true := isPlain_of_eq named rfl
      refine eatMark_spans (fun comma spelled => ?_) (pure_spans (.plain plain .nil))
      exact (ih _).mono fun _ more balanced => .plain plain (.plain (isPlain_of_eq spelled rfl) balanced)

theorem parameterList_spans : parameterList.Spans fun _ => Bracketed .openParen := by
  unfold parameterList
  refine expectMark_spans fun opener opens => size_spans fun bound => ?_
  refine (parameterNames_spans bound []).bind fun names inner balanced =>
    expectMark_spans fun closer closes => pure_spans ?_
  exact ⟨opener, inner, closer, _, rfl, opens, rfl, closes, balanced⟩

theorem propertyName_spans : propertyName.Spans fun _ => Phrase false := by
  unfold propertyName
  refine advance_spans (fun token => ?_) fun token ended => by rw [ended]
  split
  · next spelled => exact pure_spans (.cons (isPlain_of_eq spelled rfl) .nil)
  · next spelled => exact pure_spans (.cons (isPlain_of_eq spelled rfl) .nil)
  · exact unexpectedBefore_spans _

/-! ## Functions -/

theorem functionRest_spans (spans : g.Spans) (nameRequired : Bool) :
    (functionRest g nameRequired).Spans fun _ => Phrase false := by
  have rest (name : Option String) : Parse.Spans (fun _ => Phrase false) (do
      let parameters ← parameterList
      let body ← g.block
      pure (FunctionDef.define name parameters (.block body))) :=
    parameterList_spans.bind fun parameters row listed => spans.block.bind fun body block braced =>
      pure_spans ((listed.phrase false).append_right ((braced.phrase false).balanced.append .nil))
  unfold functionRest
  refine lexeme_spans fun l => ?_
  dsimp only
  split
  · next name =>
    refine skip_spans (fun token here => by rw [here.2]; rfl) fun token here => ?_
    exact (rest (some name)).mono fun _ row phrase =>
      .cons (isPlain_of_eq here.2 rfl) phrase.balanced
  · split
    · exact unexpected_bind_spans _
    · exact (rest none).from

theorem arrowFunction_spans (spans : g.Spans) :
    (arrowFunction g).Spans fun _ => Phrase false := by
  have parameters : Parse.Spans (fun _ => Phrase false) (do
      if ← atMark .openParen then
        parameterList
      else
        return [← takeIdentifier "parameter name"]) :=
    atMark_spans (parameterList_spans.from.mono fun _ row listed => listed.phrase false)
      (takeIdentifier_spans fun token name named =>
        pure_spans (.cons (isPlain_of_eq named rfl) .nil))
  unfold arrowFunction
  refine parameters.bind fun names row listed => expectMark_spans fun arrow spelled => ?_
  have head (more : List Token) (balanced : Balanced false more) :
      Phrase false (row ++ arrow :: more) :=
    listed.append_right (.plain (isPlain_of_eq spelled rfl) balanced)
  refine atMark_spans ?_ ?_
  · exact spans.block.from.bind fun body block braced =>
      pure_spans (head _ ((braced.phrase false).balanced.append .nil))
  · exact spans.assignment.bind fun value row phrase =>
      pure_spans (head _ (phrase.balanced.append .nil))

/-! ## Literals -/

/-- Holes are parsed from tokens of their own. -/
theorem apart_spans {α β : Type} {post : β → List Token → Prop} {run : Except ScriptError α}
    {f : α → Parse β} (later : ∀ a, SpansFrom on post (f a)) :
    SpansFrom on post ((fun c => run.map fun a => (a, c)) >>= f) := by
  intro c b d proper here ran
  cases run with
  | error error => cases ran
  | ok a => exact later a c b d proper here ran

theorem templateParts_spans (chunks : List Chunk) (found : List TemplatePart) :
    (templateParts g chunks found).Spans fun _ row => row = [] := by
  induction chunks generalizing found with
  | nil => exact pure_spans rfl
  | cons chunk rest ih =>
      cases chunk with
      | text content => exact ih _
      | code source start =>
          unfold templateParts
          exact apart_spans fun tokens => apart_spans fun value => ih _

theorem closing_spans {α β : Type} {parse : Parse α} {semicolons : Bool}
    (inner : parse.Spans fun _ => Balanced semicolons) (closing : Mark) (what : String)
    (finish : α → β) :
    Spans (fun _ => Closed closing) (do
      let a ← allowingIn parse
      expectMark closing what
      pure (finish a)) :=
  (allowingIn_spans inner).bind fun _ row balanced => expectMark_spans fun closer closes =>
    pure_spans ⟨row, closer, rfl, closes, balanced.loosen⟩

theorem arrayElements_spans (spans : g.Spans) :
    (arrayElements g).Spans fun _ => Closed .closeBracket :=
  closing_spans (size_spans fun bound => expressionList_spans spans .closeBracket bound []) _ _ _

theorem objectKey_spans (spans : g.Spans) : (objectKey g).Spans fun _ => Phrase false := by
  unfold objectKey
  refine advance_spans (fun token => ?_) fun token ended => by rw [ended]
  split
  · next spelled => exact pure_spans (.cons (isPlain_of_eq spelled rfl) .nil)
  · next spelled => exact pure_spans (.cons (isPlain_of_eq spelled rfl) .nil)
  · next spelled => exact pure_spans (.cons (isPlain_of_eq spelled rfl) .nil)
  · next spelled => exact pure_spans (.cons (isPlain_of_eq spelled rfl) .nil)
  · next opens =>
    refine spans.assignment.bind fun key row phrase => expectMark_spans fun closer closes =>
      pure_spans ⟨.group opens rfl closes phrase.balanced.loosen .nil, nofun⟩
  · exact unexpectedBefore_spans _

theorem propertyValue_spans (spans : g.Spans) (key : PropertyKey) (shorthand : Option String) :
    (propertyValue g key shorthand).Spans fun _ => Balanced false := by
  unfold propertyValue
  refine eatMark_spans (fun colon spelled => ?_) (atMark_spans ?_ ?_)
  · exact spans.assignment.mono fun _ row phrase =>
      .plain (isPlain_of_eq spelled rfl) phrase.balanced
  · exact parameterList_spans.from.bind fun parameters row listed =>
      spans.block.bind fun body block braced => pure_spans
        ((listed.phrase false).balanced.append ((braced.phrase false).balanced.append .nil))
  · cases shorthand with
    | some name => exact pure_spans .nil
    | none => exact unexpected_spans _

theorem properties_spans (spans : g.Spans) (bound : Nat) (found : List Property) :
    (properties g bound found).Spans fun _ => Balanced false := by
  induction bound generalizing found with
  | zero => exact pure_spans .nil
  | succ bound ih =>
      unfold properties
      refine atMark_spans (pure_spans .nil) ?_
      refine (objectKey_spans spans).bind fun key row phrase =>
        (propertyValue_spans spans key.1 key.2).bind fun value more balanced =>
          eatMark_spans (fun comma spelled => ?_) ?_
      · exact (ih _).mono fun _ later rest => phrase.balanced.append
          (balanced.append (.plain (isPlain_of_eq spelled rfl) rest))
      · exact pure_spans (phrase.balanced.append (balanced.append .nil))

theorem objectEntries_spans (spans : g.Spans) :
    (objectEntries g).Spans fun _ => Closed .closeBrace :=
  closing_spans (size_spans fun bound => properties_spans spans bound []) _ _ _

/-! ## Expressions -/

theorem primary_spans (spans : g.Spans) : (primary g).Spans fun _ => Phrase false := by
  unfold primary
  refine advance_spans (fun token => ?_) fun token ended => by rw [ended]
  have leaf {l : Lexeme} (spelled : token.lexeme = l) (plain : l.isPlain false = true) :
      Phrase false [token] :=
    .cons (isPlain_of_eq spelled plain) .nil
  split
  · next spelled => exact pure_spans (leaf spelled rfl)
  · next spelled => exact pure_spans (leaf spelled rfl)
  · next chunks spelled =>
    refine (templateParts_spans chunks []).bind fun parts row none => pure_spans ?_
    subst none
    exact leaf spelled rfl
  · next spelled => exact pure_spans (leaf spelled rfl)
  · next spelled => exact pure_spans (leaf spelled rfl)
  · next spelled => exact pure_spans (leaf spelled rfl)
  · next spelled => exact pure_spans (leaf spelled rfl)
  · next spelled => exact pure_spans (leaf spelled rfl)
  · next spelled =>
    exact (functionRest_spans spans false).bind fun definition row phrase =>
      pure_spans (.cons (isPlain_of_eq spelled rfl) (phrase.balanced.append .nil))
  · next opens =>
    exact (allowingIn_spans spans.expression).bind fun inner row phrase =>
      expectMark_spans fun closer closes => pure_spans
        ⟨.group opens rfl closes phrase.balanced.loosen .nil, nofun⟩
  · next opens =>
    exact spans.arrayLiteral.mono fun _ row closed => (closed.bracketed opens rfl).phrase false
  · next opens =>
    exact spans.objectLiteral.mono fun _ row closed => (closed.bracketed opens rfl).phrase false
  · exact unexpectedBefore_spans _

theorem memberChain_spans (bound : Nat) (object : Expr) :
    (memberChain bound object).Spans fun _ => Balanced false := by
  induction bound generalizing object with
  | zero => exact pure_spans .nil
  | succ bound ih =>
      unfold memberChain
      refine eatMark_spans (fun dot spelled => ?_) (pure_spans .nil)
      exact propertyName_spans.bind fun property row phrase => (ih _).mono fun _ more balanced =>
        .plain (isPlain_of_eq spelled rfl) (phrase.balanced.append balanced)

theorem accessChain_spans (spans : g.Spans) (bound : Nat) (value : Expr) :
    (accessChain g bound value).Spans fun _ => Balanced false := by
  induction bound generalizing value with
  | zero => exact pure_spans .nil
  | succ bound ih =>
      unfold accessChain
      refine eatMark_spans (fun dot spelled => ?_) (eatMark_spans (fun opener opens => ?_)
        (atMark_spans ?_ (pure_spans .nil)))
      · exact propertyName_spans.bind fun property row phrase => (ih _).mono fun _ more balanced =>
          .plain (isPlain_of_eq spelled rfl) (phrase.balanced.append balanced)
      · exact (allowingIn_spans spans.expression).bind fun key row phrase =>
          expectMark_spans fun closer closes => (ih _).mono fun _ more balanced =>
            .group opens rfl closes phrase.balanced.loosen balanced
      · exact spans.arguments.from.bind fun arguments row listed => (ih _).mono
          fun _ more balanced => (listed.phrase false).balanced.append balanced

theorem callMember_spans (spans : g.Spans) : (callMember g).Spans fun _ => Phrase false := by
  unfold callMember
  have given : Parse.Spans (fun _ => Balanced false) (do
      if ← atMark .openParen then g.arguments else pure []) :=
    atMark_spans (spans.arguments.from.mono fun _ row listed => (listed.phrase false).balanced)
      (pure_spans .nil)
  refine eatKeyword_spans (fun word spelled => ?_) ?_
  · refine size_spans fun bound => (primary_spans spans).bind fun first row phrase =>
      (memberChain_spans bound first).bind fun callee names chained =>
        given.bind fun arguments listed balanced => size_spans fun bound => ?_
    exact (accessChain_spans spans bound _).mono fun _ more rest =>
      .cons (isPlain_of_eq spelled rfl) (phrase.balanced.append (chained.append
        (balanced.append rest)))
  · exact size_spans fun bound => (primary_spans spans).from.bind fun first row phrase =>
      (accessChain_spans spans bound first).mono fun _ more balanced =>
        phrase.append_right balanced

/-- A token that can stand in an expression outside brackets. -/
structure Lexeme.Operator (lexeme : Lexeme) : Prop where
  plain : lexeme.isPlain false = true
  more : lexeme.isEnd = false

theorem operator_of_updateOp? {l : Lexeme} {increment : Bool} (found : updateOp? l = some increment) :
    l.Operator := by
  unfold updateOp? at found
  split at found
  · exact ⟨rfl, rfl⟩
  · exact ⟨rfl, rfl⟩
  · cases found

theorem operator_of_unaryOp? {l : Lexeme} {op : UnaryOp} (found : unaryOp? l = some op) :
    l.Operator := by
  unfold unaryOp? at found
  split at found <;> first | exact ⟨rfl, rfl⟩ | cases found

theorem operator_of_infixOp? {l : Lexeme} {op : Nat × InfixOp} (found : infixOp? l = some op) :
    l.Operator := by
  unfold infixOp? at found
  split at found <;> first | exact ⟨rfl, rfl⟩ | cases found

theorem operator_of_assignmentOp? {l : Lexeme} {op : Option BinaryOp}
    (found : assignmentOp? l = some op) : l.Operator := by
  unfold assignmentOp? at found
  split at found <;> first | exact ⟨rfl, rfl⟩ | cases found

theorem postfixUpdate_spans (spans : g.Spans) :
    (postfixUpdate g).Spans fun _ => Phrase false := by
  unfold postfixUpdate
  refine (callMember_spans spans).bind fun value row phrase => peek_spans fun token => ?_
  split
  · next increment update =>
    have operator := operator_of_updateOp? update
    split
    · exact pure_spans (phrase.append_right .nil)
    · split
      · refine skip_spans (fun _ here => here.2 ▸ operator.more) fun _ here =>
          pure_spans (phrase.append_right (.plain (here.2 ▸ operator.plain) .nil))
      · exact unexpected_spans _
  · exact pure_spans (phrase.append_right .nil)

theorem unaryExpression_spans (spans : g.Spans) :
    (unaryExpression g).Spans fun _ => Phrase false := by
  unfold unaryExpression
  refine lexeme_spans fun l => ?_
  split
  · next found =>
    have operator := operator_of_unaryOp? found
    refine skip_spans (fun _ here => here.2 ▸ operator.more) fun token here => ?_
    exact spans.operand.bind fun operand row phrase => pure_spans
      (.cons (here.2 ▸ operator.plain) (phrase.balanced.append .nil))
  · next found =>
    have operator := operator_of_updateOp? found
    refine skip_spans (fun _ here => here.2 ▸ operator.more) fun token here => ?_
    refine spans.operand.bind fun target row phrase => ?_
    split
    · exact pure_spans (.cons (here.2 ▸ operator.plain) (phrase.balanced.append .nil))
    · exact unexpected_spans _
  · exact (postfixUpdate_spans spans).from

theorem operatorsAfter_spans (spans : g.Spans) (floor bound : Nat) (left : Expr) :
    (operatorsAfter g floor bound left).Spans fun _ => Balanced false := by
  induction bound generalizing left with
  | zero => exact pure_spans .nil
  | succ bound ih =>
      unfold operatorsAfter
      refine lexeme_spans fun l => ?_
      split
      · exact pure_spans .nil
      · next precedence op found =>
        have operator := operator_of_infixOp? found
        split
        · exact pure_spans .nil
        · refine inBarred_spans fun barred => ?_
          split
          · exact pure_spans .nil
          · refine skip_spans (fun _ here => here.2 ▸ operator.more) fun token here => ?_
            exact (spans.operators _).bind fun right row phrase => (ih _).mono
              fun _ more balanced => .plain (here.2 ▸ operator.plain) (phrase.balanced.append balanced)

theorem operatorExpression_spans (spans : g.Spans) (floor : Nat) :
    (operatorExpression g floor).Spans fun _ => Phrase false := by
  unfold operatorExpression
  exact (unaryExpression_spans spans).bind fun left row phrase => size_spans fun bound =>
    (operatorsAfter_spans spans floor bound left).mono fun _ more balanced =>
      phrase.append_right balanced

theorem conditionalExpression_spans (spans : g.Spans) :
    (conditionalExpression g).Spans fun _ => Phrase false := by
  unfold conditionalExpression
  have branches (condition : Expr) : Parse.Spans (fun _ => Balanced false) (do
      let consequent ← g.assignment
      expectMark .colon "':' in conditional expression"
      let alternative ← g.assignment
      pure (Expr.conditional condition consequent alternative)) :=
    spans.assignment.bind fun consequent first phrase => expectMark_spans fun colon spelled =>
      spans.assignment.bind fun alternative second phrase' => pure_spans
        (phrase.balanced.append (.plain (isPlain_of_eq spelled rfl) (phrase'.balanced.append .nil)))
  refine (operatorExpression_spans spans 0).bind fun condition row decides =>
    eatMark_spans (fun question asks => ?_) (pure_spans (decides.append_right .nil))
  exact (allowingIn_spans (branches condition)).mono fun _ more balanced =>
    decides.append_right (.plain (isPlain_of_eq asks rfl) balanced)

theorem assignmentExpression_spans (spans : g.Spans) :
    (assignmentExpression g).Spans fun _ => Phrase false := by
  unfold assignmentExpression
  have ahead : ∀ c, ∃ arrow, arrowAhead c = .ok (arrow, c) := by
    intro c
    unfold arrowAhead
    split <;> exact ⟨_, rfl⟩
  intro c value d proper _ ran
  obtain ⟨arrow, looked⟩ := ahead c
  rw [StateT.bind_ok looked] at ran
  revert ran
  refine fun ran => (?_ : SpansFrom (fun _ => True) (fun _ => Phrase false) _) c value d proper
    trivial ran
  split
  · exact arrowFunction_spans spans
  · refine (conditionalExpression_spans spans).bind fun target row place => lexeme_spans fun l => ?_
    split
    · next op found =>
      have operator := operator_of_assignmentOp? found
      split
      · refine skip_spans (fun _ here => here.2 ▸ operator.more) fun token here => ?_
        exact spans.assignment.bind fun value more phrase => pure_spans
          (place.append_right (.plain (here.2 ▸ operator.plain) (phrase.balanced.append .nil)))
      · exact unexpected_spans _
    · exact pure_spans (place.append_right .nil)

theorem argumentList_spans (spans : g.Spans) :
    (argumentList g).Spans fun _ => Bracketed .openParen := by
  unfold argumentList
  refine expectMark_spans fun opener opens => ?_
  exact (closing_spans (size_spans fun bound => expressionList_spans spans .closeParen bound [])
    .closeParen "')' after arguments" id).mono fun _ row closed => closed.bracketed opens rfl

/-! ## Statements -/

theorem declarators_spans (spans : g.Spans) (bound : Nat) (found : List Declarator) :
    (declarators g bound found).Spans fun _ => Balanced false := by
  induction bound generalizing found with
  | zero => exact pure_spans .nil
  | succ bound ih =>
      unfold declarators
      refine takeIdentifier_spans fun token name named => ?_
      have initial : Parse.Spans (fun _ => Balanced false) (do
          if ← eatMark .assign then return some (← g.assignment) else pure none) :=
        eatMark_spans (fun assign spelled => spans.assignment.bind fun value row phrase =>
          pure_spans (.plain (isPlain_of_eq spelled rfl) (phrase.balanced.append .nil)))
          (pure_spans .nil)
      refine initial.bind fun initial row balanced => eatMark_spans (fun comma spelled => ?_) ?_
      · exact (ih _).mono fun _ more rest => .plain (isPlain_of_eq named rfl)
          (balanced.append (.plain (isPlain_of_eq spelled rfl) rest))
      · exact pure_spans (.plain (isPlain_of_eq named rfl) (balanced.append .nil))

theorem operator_of_declarationWord? {l : Lexeme} {kind : Declaration}
    (found : declarationWord? l = some kind) : l.Operator := by
  unfold declarationWord? at found
  split at found <;> first | exact ⟨rfl, rfl⟩ | cases found

theorem declarationStatement_spans (spans : g.Spans) (kind : Declaration)
    (operator : ∀ token, on token → token.lexeme.Operator) :
    (declarationStatement g kind).SpansFrom on fun _ => Phrase false := by
  unfold declarationStatement
  refine skip_spans (fun token here => (operator token here).more) fun token here =>
    size_spans fun bound => (declarators_spans spans bound []).bind fun declared row balanced =>
      pure_spans (.cons (operator token here).plain (balanced.append .nil))

theorem parenExpression_spans (spans : g.Spans) :
    (parenExpression g).Spans fun _ => Bracketed .openParen := by
  unfold parenExpression
  exact expectMark_spans fun opener opens => spans.expression.bind fun value row phrase =>
    expectMark_spans fun closer closes => pure_spans
      ⟨opener, row, closer, _, rfl, opens, rfl, closes, phrase.balanced.loosen⟩

theorem endStatement_spans : endStatement.Spans fun _ => Balanced true := by
  unfold endStatement
  refine eatMark_spans (fun token spelled => pure_spans (.plain (isPlain_of_eq spelled rfl) .nil))
    (peek_spans fun token => ?_)
  split
  · exact pure_spans .nil
  · exact unexpected_spans _

theorem ifStatement_spans (spans : g.Spans) : (ifStatement g).Spans fun _ => Phrase true := by
  unfold ifStatement
  have other : Parse.Spans (fun _ => Balanced true) (do
      if ← eatKeyword .elseWord then return some (← g.statement) else pure none) :=
    eatKeyword_spans (fun word spelled => spans.statement.bind fun other row phrase =>
      pure_spans (.plain (isPlain_of_eq spelled rfl) (phrase.balanced.append .nil))) (pure_spans .nil)
  exact (parenExpression_spans spans).bind fun condition row decides =>
    spans.statement.bind fun consequent first phrase => other.bind fun alternative second balanced =>
      pure_spans ((decides.phrase true).append_right (phrase.balanced.append (balanced.append .nil)))

/-- The rest of a header behind its opening parenthesis, and the body. -/
def Headed (row : List Token) : Prop :=
  ∃ header closer body, row = header ++ closer :: body ∧ closer.lexeme = .mark .closeParen ∧
    Balanced true header ∧ Balanced true body

theorem Headed.bracketed {opener : Token} {row : List Token} (headed : Headed row)
    (opens : opener.lexeme = .mark .openParen) : Phrase true (opener :: row) := by
  obtain ⟨header, closer, body, rfl, closes, inner, balanced⟩ := headed
  exact ⟨.group opens rfl closes inner balanced, nofun⟩

theorem Headed.cons {token : Token} {row : List Token} (headed : Headed row)
    (plain : token.lexeme.isPlain true = true) : Headed (token :: row) := by
  obtain ⟨header, closer, body, rfl, closes, inner, balanced⟩ := headed
  exact ⟨token :: header, closer, body, rfl, closes, .plain plain inner, balanced⟩

theorem walkRest_spans (spans : g.Spans) (walk : WalkKind) (kind : Option Declaration)
    (name : String) : Parse.Spans (fun (_ : Stmt) => Headed) (do
      let target ← g.expression
      expectMark .closeParen "')'"
      let body ← g.statement
      match walk with
      | .elements => pure (.forOf kind name target body)
      | .keys => pure (.forIn kind name target body)) := by
  refine spans.expression.bind fun target row phrase => expectMark_spans fun closer closes =>
    spans.statement.bind fun body more phrase' => ?_
  have headed : Headed (row ++ closer :: (more ++ [])) :=
    ⟨row, closer, more, by simp, closes, phrase.balanced.loosen, phrase'.balanced⟩
  cases walk <;> exact pure_spans headed

/-- A name and the word behind it have been seen before the loop takes them. -/
theorem walkLoop_passes (spans : g.Spans) (walk : WalkKind) (kind : Option Declaration)
    (name : String) {c d : Cursor} {loop : Stmt} (proper : c.Proper)
    (first : (c.lookahead 0).Operator) (second : (c.lookahead 1).Operator)
    (ran : walkLoop g walk kind name c = .ok (loop, d)) : ∃ row, c.Passed row d ∧ Headed row := by
  rw [c.lookahead_zero] at first
  rw [proper.lookahead_succ first.more, Cursor.lookahead_zero] at second
  have one := proper.advance first.more
  have two := one.proper.advance second.more
  obtain ⟨row, passed, headed⟩ :=
    walkRest_spans spans walk kind name _ loop d two.proper trivial ran
  exact ⟨_, one.trans (two.trans passed), (headed.cons (Lexeme.isPlain_true second.plain)).cons
    (Lexeme.isPlain_true first.plain)⟩

theorem optionalExpression_spans (spans : g.Spans) (close : Mark) :
    (optionalExpression g close).Spans fun _ => Balanced true := by
  unfold optionalExpression
  exact atMark_spans (pure_spans .nil) (spans.expression.bind fun value row phrase =>
    pure_spans (phrase.balanced.loosen.append .nil))

theorem forInitial_spans (spans : g.Spans) :
    (forInitial g).Spans fun _ => Balanced true := by
  have rest (initial : Stmt) (row : List Token) (balanced : Balanced true row) :
      Parse.Spans (fun (_ : Option Stmt) more => Balanced true (row ++ more)) (do
        setInBarred false
        pure (some initial)) :=
    setInBarred_spans (pure_spans (balanced.append .nil))
  unfold forInitial
  refine atMark_spans (pure_spans .nil) (setInBarred_spans (lexeme_spans fun l => ?_))
  dsimp only
  split
  · next kind found =>
    refine (declarationStatement_spans spans kind fun token here => ?_).bind
      fun statement row phrase => rest _ row phrase.balanced.loosen
    exact here.2 ▸ operator_of_declarationWord? found
  · exact spans.expression.from.bind fun value row phrase => rest _ row phrase.balanced.loosen

theorem countingLoop_spans (spans : g.Spans) : (countingLoop g).Spans fun _ => Headed := by
  unfold countingLoop
  refine (forInitial_spans spans).bind fun initial first starts => expectMark_spans fun mark spelled =>
    (optionalExpression_spans spans _).bind fun condition second decides =>
      expectMark_spans fun mark' spelled' => (optionalExpression_spans spans _).bind
        fun update third updates => expectMark_spans fun closer closes =>
          spans.statement.bind fun body row phrase => pure_spans ?_
  refine ⟨first ++ mark :: (second ++ mark' :: third), closer, row, by simp, closes, ?_,
    phrase.balanced⟩
  exact starts.append (.plain (isPlain_of_eq spelled rfl)
    (decides.append (.plain (isPlain_of_eq spelled' rfl) updates)))

theorem operator_of_walkKind? {l : Lexeme} {walk : WalkKind} (found : walkKind? l = some walk) :
    l.Operator := by
  unfold walkKind? at found
  split at found <;> first | exact ⟨rfl, rfl⟩ | cases found

theorem forStatement_spans (spans : g.Spans) : (forStatement g).Spans fun _ => Phrase true := by
  unfold forStatement
  refine expectMark_spans fun opener opens => ?_
  suffices headed : Parse.Spans (fun (_ : Stmt) => Headed) _ from
    headed.mono fun _ row headed => headed.bracketed opens
  intro c loop d proper _ ran
  rw [StateT.bind_ok (show lexeme c = .ok (c.current.lexeme, c) from rfl)] at ran
  dsimp only at ran
  rw [StateT.bind_ok (show lookahead _ c = .ok (c.lookahead _, c) from rfl),
    StateT.bind_ok (show lookahead _ c = .ok (c.lookahead _, c) from rfl)] at ran
  cases kind : declarationWord? c.current.lexeme with
  | none =>
      simp only [kind, Option.isSome_none, Bool.false_eq_true, if_false, Nat.zero_add] at ran
      generalize named : c.lookahead 0 = word, walks : walkKind? (c.lookahead 1) = walk at ran
      split at ran
      · next name walk =>
        exact walkLoop_passes spans walk none name proper (named ▸ ⟨rfl, rfl⟩)
          (operator_of_walkKind? walks) ran
      · exact countingLoop_spans spans c loop d proper trivial ran
  | some kind' =>
      simp only [kind, Option.isSome_some, if_true] at ran
      generalize named : c.lookahead 1 = word, walks : walkKind? (c.lookahead (1 + 1)) = walk at ran
      split at ran
      · next name walk =>
        have operator := operator_of_declarationWord? kind
        have one := proper.advance operator.more
        rw [proper.lookahead_succ operator.more] at named walks
        rw [StateT.bind_ok (show skip c = .ok ((), c.advance) from rfl)] at ran
        obtain ⟨row, passed, headed⟩ := walkLoop_passes spans walk (some kind') name one.proper
          (named ▸ ⟨rfl, rfl⟩) (operator_of_walkKind? walks) ran
        exact ⟨_, one.trans passed, headed.cons (Lexeme.isPlain_true operator.plain)⟩
      · exact countingLoop_spans spans c loop d proper trivial ran

theorem catchBinding_spans : Parse.Spans (fun (_ : Option String) => Balanced true) (do
    if ← eatMark .openParen then
      let name ← takeIdentifier "catch binding"
      expectMark .closeParen "')'"
      pure (some name)
    else
      pure none) := by
  refine eatMark_spans (fun opener opens => ?_) (pure_spans .nil)
  refine takeIdentifier_spans fun token name named => expectMark_spans fun closer closes => ?_
  have inside : Balanced true [token] := .plain (isPlain_of_eq named rfl) .nil
  have group : Balanced true (opener :: ([token] ++ [closer])) := .group opens rfl closes inside .nil
  exact pure_spans group

theorem tryStatement_spans (spans : g.Spans) : (tryStatement g).Spans fun _ => Phrase true := by
  unfold tryStatement
  have clause : Parse.Spans (fun (_ : Option String × Option (List Stmt)) => Balanced true) (do
      if ← eatKeyword .catchWord then
        let binding ← (do
          if ← eatMark .openParen then
            let name ← takeIdentifier "catch binding"
            expectMark .closeParen "')'"
            pure (some name)
          else
            pure none)
        let handler ← g.block
        pure (binding, some handler)
      else
        pure (none, none)) :=
    eatKeyword_spans (fun word spelled => catchBinding_spans.bind fun binding row balanced =>
      spans.block.bind fun handler block braced => pure_spans (.plain (isPlain_of_eq spelled rfl)
        (balanced.append ((braced.phrase true).balanced.append .nil)))) (pure_spans .nil)
  have final : Parse.Spans (fun (_ : Option (List Stmt)) => Balanced true) (do
      if ← eatKeyword .finallyWord then return some (← g.block) else pure none) :=
    eatKeyword_spans (fun word spelled => spans.block.bind fun body block braced =>
      pure_spans (.plain (isPlain_of_eq spelled rfl) ((braced.phrase true).balanced.append .nil)))
      (pure_spans .nil)
  refine spans.block.bind fun block row braced => clause.bind fun caught first balanced =>
    final.bind fun finalizer second balanced' => ?_
  split
  · exact unexpected_spans _
  · exact pure_spans ((braced.phrase true).append_right (balanced.append (balanced'.append .nil)))

theorem returnStatement_spans (spans : g.Spans) :
    (returnStatement g).Spans fun _ => Balanced true := by
  unfold returnStatement
  refine peek_spans fun token => ?_
  have result (bare : Bool) : Parse.Spans (fun _ => Balanced true) (do
      if bare then pure none else return some (← g.expression)) := by
    split
    · exact pure_spans .nil
    · exact spans.expression.bind fun value row phrase =>
        pure_spans (phrase.balanced.loosen.append .nil)
  exact (result _).from.bind fun value row balanced => endStatement_spans.bind fun _ more ends =>
    pure_spans (balanced.append (ends.append .nil))

theorem throwStatement_spans (spans : g.Spans) :
    (throwStatement g).Spans fun _ => Balanced true := by
  unfold throwStatement
  refine peek_spans fun token => ?_
  split
  · exact unexpected_spans _
  · exact spans.expression.from.bind fun value row phrase => endStatement_spans.bind
      fun _ more ends => pure_spans (phrase.balanced.loosen.append (ends.append .nil))

theorem doStatement_spans (spans : g.Spans) : (doStatement g).Spans fun _ => Balanced true := by
  unfold doStatement
  refine spans.statement.bind fun body row phrase => eatKeyword_spans (fun word spelled => ?_)
    (unexpected_spans _)
  refine (parenExpression_spans spans).bind fun condition parens decides => ?_
  have whole (more : List Token) (ends : Balanced true more) :
      Balanced true (row ++ word :: (parens ++ more)) :=
    phrase.balanced.append (.plain (isPlain_of_eq spelled rfl)
      ((decides.phrase true).balanced.append ends))
  exact eatMark_spans (fun mark ends => pure_spans (whole _ (.plain (isPlain_of_eq ends rfl) .nil)))
    (pure_spans (whole _ .nil))

theorem expressionStatement_spans (spans : g.Spans) :
    (expressionStatement g).Spans fun _ => Phrase true := by
  unfold expressionStatement
  exact spans.expression.bind fun value row phrase => endStatement_spans.bind fun _ more ends =>
    pure_spans (phrase.loosen.append_right (ends.append .nil))

theorem statementBody_spans (spans : g.Spans) : (statementBody g).Spans fun _ => Phrase true := by
  unfold statementBody
  refine lexeme_spans fun first => ?_
  -- What follows the word that a statement begins with.
  have behind {l : Lexeme} {parse : Parse Stmt} (plain : l.isPlain true = true)
      (more : l.isEnd = false) (spans : parse.Spans fun _ => Balanced true) :
      SpansFrom (fun token => True ∧ token.lexeme = l) (fun _ => Phrase true)
        (skip >>= fun _ => parse) :=
    skip_spans (fun _ here => here.2 ▸ more) fun token here => spans.mono fun _ row balanced =>
      .cons (here.2 ▸ plain) balanced
  have balanced {parse : Parse Stmt} (spans : parse.Spans fun _ => Phrase true) :
      parse.Spans fun _ => Balanced true :=
    spans.mono fun _ row phrase => phrase.balanced
  split
  · next kind found =>
    refine (declarationStatement_spans spans kind fun token here => ?_).bind
      fun statement row phrase => endStatement_spans.bind fun _ more ends =>
        pure_spans (phrase.loosen.append_right (ends.append .nil))
    exact here.2 ▸ operator_of_declarationWord? found
  · exact spans.block.from.bind fun body row braced =>
      pure_spans ((braced.phrase true).append_right .nil)
  · exact behind rfl rfl (pure_spans .nil)
  · refine lookahead_spans fun next => ?_
    split
    · exact behind rfl rfl ((functionRest_spans spans true).bind fun definition row phrase =>
        pure_spans (phrase.balanced.loosen.append .nil))
    · exact (expressionStatement_spans spans).from
  · exact behind rfl rfl (returnStatement_spans spans)
  · exact behind rfl rfl (balanced (ifStatement_spans spans))
  · exact behind rfl rfl ((parenExpression_spans spans).bind fun condition row decides =>
      spans.statement.bind fun body more phrase => pure_spans
        ((decides.phrase true).balanced.append (phrase.balanced.append .nil)))
  · exact behind rfl rfl (doStatement_spans spans)
  · exact behind rfl rfl (balanced (forStatement_spans spans))
  · exact behind rfl rfl (endStatement_spans.bind fun _ row ends => pure_spans (ends.append .nil))
  · exact behind rfl rfl (endStatement_spans.bind fun _ row ends => pure_spans (ends.append .nil))
  · exact behind rfl rfl (throwStatement_spans spans)
  · exact behind rfl rfl (balanced (tryStatement_spans spans))
  · exact (expressionStatement_spans spans).from

theorem statementsToBrace_spans (spans : g.Spans) (bound : Nat) (found : List Stmt) :
    (statementsToBrace g bound found).Spans fun _ => Closed .closeBrace := by
  induction bound generalizing found with
  | zero => exact unexpected_spans _
  | succ bound ih =>
      unfold statementsToBrace
      refine eatMark_spans (fun closer closes => pure_spans ⟨[], closer, rfl, closes, .nil⟩)
        (atEnd_spans fun ended => ?_)
      split
      · exact unexpected_spans _
      · refine spans.statement.bind fun statement row phrase => (ih _).mono fun _ more closed => ?_
        obtain ⟨inner, closer, rfl, closes, balanced⟩ := closed
        exact ⟨row ++ inner, closer, (List.append_assoc ..).symm, closes,
          phrase.balanced.append balanced⟩

theorem blockBody_spans (spans : g.Spans) :
    (blockBody g).Spans fun _ => Bracketed .openBrace := by
  unfold blockBody
  exact expectMark_spans fun opener opens => size_spans fun bound =>
    (statementsToBrace_spans spans bound []).mono fun _ row closed => closed.bracketed opens rfl

/-! ## Levels -/

theorem refuseDeeper_spans {α : Type} {post : α → List Token → Prop} :
    (refuseDeeper : Parse α).Spans post :=
  spans_of_fails fun _ => rfl

theorem Grammar.Spans.around (spans : g.Spans) : g.around.Spans where
  statement := statementBody_spans spans
  block := blockBody_spans spans
  expression := spans.assignment
  assignment := assignmentExpression_spans spans
  operators := operatorExpression_spans spans
  operand := unaryExpression_spans spans
  arguments := argumentList_spans spans
  arrayLiteral := arrayElements_spans spans
  objectLiteral := objectEntries_spans spans

theorem Grammar.level_spans (n : Nat) : (level n).Spans := by
  induction n with
  | zero =>
      exact ⟨refuseDeeper_spans, refuseDeeper_spans, refuseDeeper_spans, refuseDeeper_spans,
        fun _ => refuseDeeper_spans, refuseDeeper_spans, refuseDeeper_spans, refuseDeeper_spans,
        refuseDeeper_spans⟩
  | succ n ih => exact ih.around

end StrategyQubo.Script
