import StrategyQubo.Proofs.SpelledExpressions

namespace StrategyQubo

open StrategyQubo.Script

/-! # Spelled programs

Statements are spelled with the words and texts of their tokens as well, so
every level of the grammar makes spelled trees, and what a text is read as is
spelled with what stands in the text.
-/

namespace Script

open Parse

variable {α : Type} {s : Spelling} {g : Grammar}

/-! ### Statements -/

theorem declarators_keeps (keeps : g.Keeps s) (bound : Nat) {found : List Declarator}
    (spelled : ∀ declarator ∈ found, declarator.Spelled s) :
    (declarators g bound found).Keeps s
      fun declared => ∀ declarator ∈ declared, declarator.Spelled s := by
  induction bound generalizing found with
  | zero => exact .pure (forall_mem_reversed spelled)
  | succ bound ih =>
      unfold declarators
      refine (takeIdentifier_stays _).bind fun name => ?_
      have initial : Parse.Keeps s (fun initial => ∀ value ∈ initial, value.Spelled s) (do
          if ← eatMark .assign then return some (← g.assignment) else pure none) := by
        refine (eatMark_stays .assign).bind fun given => ?_
        split
        · exact keeps.assignment.bind fun value spelled =>
            .pure fun _ same => Option.some.inj same ▸ spelled
        · exact .pure_none
      refine initial.bind fun initial first => (eatMark_stays .comma).bind fun more => ?_
      have all := List.forall_mem_cons.mpr ⟨Declarator.Spelled.declare name first, spelled⟩
      split
      · exact ih all
      · exact .pure (forall_mem_reversed all)

theorem declarationStatement_keeps (keeps : g.Keeps s) (kind : Declaration) :
    (declarationStatement g kind).Keeps s (Stmt.Spelled s) := by
  unfold declarationStatement
  exact skip_stays.bind fun _ => size_stays.bind fun bound =>
    (declarators_keeps keeps bound (List.forall_mem_nil _)).bind fun _ spelled =>
      .pure (.declaration kind spelled)

theorem parenExpression_keeps (keeps : g.Keeps s) :
    (parenExpression g).Keeps s (Expr.Spelled s) := by
  unfold parenExpression
  exact (expectMark_stays _ _).bind fun _ => keeps.expression.bind fun value spelled =>
    (expectMark_stays _ _).bind fun _ => .pure spelled

theorem ifStatement_keeps (keeps : g.Keeps s) : (ifStatement g).Keeps s (Stmt.Spelled s) := by
  unfold ifStatement
  refine (parenExpression_keeps keeps).bind fun condition decides =>
    keeps.statement.bind fun consequent first => ?_
  have other : Parse.Keeps s (fun other => ∀ statement ∈ other, statement.Spelled s) (do
      if ← eatKeyword .elseWord then return some (← g.statement) else pure none) := by
    refine (eatKeyword_stays .elseWord).bind fun other => ?_
    split
    · exact keeps.statement.bind fun other spelled =>
        .pure fun _ same => Option.some.inj same ▸ spelled
    · exact .pure_none
  exact other.bind fun alternative second => .pure (.ifElse decides first second)

theorem walkLoop_keeps (keeps : g.Keeps s) (walk : WalkKind) {kind : Option Declaration}
    {name : String} (assigns : kind = none → s.name name) :
    (walkLoop g walk kind name).Keeps s (Stmt.Spelled s) := by
  unfold walkLoop
  refine skip_stays.bind fun _ => skip_stays.bind fun _ => keeps.expression.bind fun target walks =>
    (expectMark_stays _ _).bind fun _ => keeps.statement.bind fun body spelled => ?_
  cases walk with
  | elements => exact .pure (.forOf assigns walks spelled)
  | keys => exact .pure (.forIn assigns walks spelled)

theorem optionalExpression_keeps (keeps : g.Keeps s) (close : Mark) :
    (optionalExpression g close).Keeps s fun found => ∀ value ∈ found, value.Spelled s := by
  unfold optionalExpression
  refine (atMark_stays close).bind fun closed => ?_
  split
  · exact .pure_none
  · exact keeps.expression.bind fun value spelled =>
      .pure fun _ same => Option.some.inj same ▸ spelled

theorem forInitial_keeps (keeps : g.Keeps s) :
    (forInitial g).Keeps s fun found => ∀ statement ∈ found, statement.Spelled s := by
  have rest (initial : Stmt) (spelled : initial.Spelled s) :
      Parse.Keeps s (fun found => ∀ statement ∈ found, statement.Spelled s) (do
        setInBarred false
        pure (some initial)) :=
    (setInBarred_stays false).bind fun _ => .pure fun _ same => Option.some.inj same ▸ spelled
  unfold forInitial
  refine (atMark_stays .semicolon).bind fun missing => ?_
  split
  · exact .pure_none
  · refine (setInBarred_stays true).bind fun _ => lexeme_keeps.bind fun l _ => ?_
    dsimp only
    split
    · exact (declarationStatement_keeps keeps _).bind rest
    · exact keeps.expression.bind fun value spelled => rest _ (.expression spelled)

theorem countingLoop_keeps (keeps : g.Keeps s) : (countingLoop g).Keeps s (Stmt.Spelled s) := by
  unfold countingLoop
  refine (forInitial_keeps keeps).bind fun initial starts => (expectMark_stays _ _).bind fun _ => ?_
  refine (optionalExpression_keeps keeps .semicolon).bind fun condition decides =>
    (expectMark_stays _ _).bind fun _ => ?_
  exact (optionalExpression_keeps keeps .closeParen).bind fun update updates =>
    (expectMark_stays _ _).bind fun _ => keeps.statement.bind fun body spelled =>
      .pure (.forLoop starts decides updates spelled)

theorem forStatement_keeps (keeps : g.Keeps s) : (forStatement g).Keeps s (Stmt.Spelled s) := by
  unfold forStatement
  refine (expectMark_stays _ _).bind fun _ => lexeme_keeps.bind fun l _ => ?_
  refine (lookahead_keeps _).bind fun first within => (lookahead_keeps _).bind fun second _ => ?_
  split
  · split
    · exact skip_stays.bind fun _ => walkLoop_keeps keeps _ fun _ => within.1
    · exact walkLoop_keeps keeps _ fun _ => within.1
  · exact countingLoop_keeps keeps

theorem catchClause_keeps (keeps : g.Keeps s) : Parse.Keeps s
    (fun clause : Option String × Option (List Stmt) =>
      ∀ statements ∈ clause.2, ∀ statement ∈ statements, statement.Spelled s)
    (do
      if ← eatKeyword .catchWord then
        let binding ← (do
          if ← eatMark .openParen then
            let name ← takeIdentifier "catch binding"
            expectMark .closeParen "')'"
            pure (some name)
          else
            pure none)
        let handler ← g.block
        pure (binding, some handler)
      else
        pure (none, none)) := by
  refine (eatKeyword_stays .catchWord).bind fun caught => ?_
  split
  · refine Stays.bind ?_ fun binding =>
      keeps.block.bind fun handler spelled => .pure fun _ same => Option.some.inj same ▸ spelled
    refine (eatMark_stays .openParen).bind fun bound => ?_
    split
    · exact (takeIdentifier_stays _).bind fun name => (expectMark_stays _ _).bind fun _ =>
        .pure trivial
    · exact .pure trivial
  · exact .pure nofun

theorem tryStatement_keeps (keeps : g.Keeps s) : (tryStatement g).Keeps s (Stmt.Spelled s) := by
  unfold tryStatement
  have final : Parse.Keeps s
      (fun last => ∀ statements ∈ last, ∀ statement ∈ statements, statement.Spelled s) (do
        if ← eatKeyword .finallyWord then return some (← g.block) else pure none) := by
    refine (eatKeyword_stays .finallyWord).bind fun found => ?_
    split
    · exact keeps.block.bind fun body spelled => .pure fun _ same => Option.some.inj same ▸ spelled
    · exact .pure_none
  refine keeps.block.bind fun block tries => (catchClause_keeps keeps).bind fun clause handles =>
    final.bind fun finalizer ends => ?_
  split
  · exact unexpected_keeps _
  · exact .pure (.tryBlock clause.1 tries handles ends)

theorem returnStatement_keeps (keeps : g.Keeps s) :
    (returnStatement g).Keeps s (Stmt.Spelled s) := by
  unfold returnStatement
  refine peek_stays.bind fun token => ?_
  have result (bare : Bool) : Parse.Keeps s (fun found => ∀ value ∈ found, value.Spelled s) (do
      if bare then pure none else return some (← g.expression)) := by
    split
    · exact .pure_none
    · exact keeps.expression.bind fun value spelled =>
        .pure fun _ same => Option.some.inj same ▸ spelled
  exact (result _).bind fun value spelled => endStatement_stays.bind fun _ =>
    .pure (.returnWith spelled)

theorem throwStatement_keeps (keeps : g.Keeps s) :
    (throwStatement g).Keeps s (Stmt.Spelled s) := by
  unfold throwStatement
  refine peek_stays.bind fun token => ?_
  split
  · exact unexpected_keeps _
  · exact keeps.expression.bind fun value spelled => endStatement_stays.bind fun _ =>
      .pure (.throwValue spelled)

theorem doStatement_keeps (keeps : g.Keeps s) : (doStatement g).Keeps s (Stmt.Spelled s) := by
  unfold doStatement
  refine keeps.statement.bind fun body spelled => (eatKeyword_stays .whileWord).bind fun found => ?_
  split
  · exact (parenExpression_keeps keeps).bind fun condition decides =>
      (eatMark_stays .semicolon).bind fun _ => .pure (.doWhile spelled decides)
  · exact unexpected_keeps _

theorem expressionStatement_keeps (keeps : g.Keeps s) :
    (expressionStatement g).Keeps s (Stmt.Spelled s) := by
  unfold expressionStatement
  exact keeps.expression.bind fun value spelled => endStatement_stays.bind fun _ =>
    .pure (.expression spelled)

theorem statementBody_keeps (keeps : g.Keeps s) : (statementBody g).Keeps s (Stmt.Spelled s) := by
  unfold statementBody
  refine lexeme_keeps.bind fun first _ => ?_
  split
  · exact (declarationStatement_keeps keeps _).bind fun statement spelled =>
      endStatement_stays.bind fun _ => .pure spelled
  · exact keeps.block.bind fun body spelled => .pure (.block spelled)
  · exact skip_stays.bind fun _ => .pure .empty
  · refine (lookahead_keeps 1).bind fun next _ => ?_
    split
    · exact skip_stays.bind fun _ => (functionRest_keeps keeps true).bind fun definition spelled =>
        .pure (.function spelled)
    · exact expressionStatement_keeps keeps
  · exact skip_stays.bind fun _ => returnStatement_keeps keeps
  · exact skip_stays.bind fun _ => ifStatement_keeps keeps
  · exact skip_stays.bind fun _ => (parenExpression_keeps keeps).bind fun condition decides =>
      keeps.statement.bind fun body spelled => .pure (.whileLoop decides spelled)
  · exact skip_stays.bind fun _ => doStatement_keeps keeps
  · exact skip_stays.bind fun _ => forStatement_keeps keeps
  · exact skip_stays.bind fun _ => endStatement_stays.bind fun _ => .pure .breakLoop
  · exact skip_stays.bind fun _ => endStatement_stays.bind fun _ => .pure .continueLoop
  · exact skip_stays.bind fun _ => throwStatement_keeps keeps
  · exact skip_stays.bind fun _ => tryStatement_keeps keeps
  · exact expressionStatement_keeps keeps

theorem statementsToBrace_keeps (keeps : g.Keeps s) (bound : Nat) {found : List Stmt}
    (spelled : ∀ statement ∈ found, statement.Spelled s) :
    (statementsToBrace g bound found).Keeps s
      fun body => ∀ statement ∈ body, statement.Spelled s := by
  induction bound generalizing found with
  | zero => exact unexpected_keeps _
  | succ bound ih =>
      unfold statementsToBrace
      refine (eatMark_stays .closeBrace).bind fun closed => ?_
      split
      · exact .pure (forall_mem_reversed spelled)
      · refine atEnd_stays.bind fun ended => ?_
        split
        · exact unexpected_keeps _
        · exact keeps.statement.bind fun statement first =>
            ih (List.forall_mem_cons.mpr ⟨first, spelled⟩)

theorem blockBody_keeps (keeps : g.Keeps s) :
    (blockBody g).Keeps s fun body => ∀ statement ∈ body, statement.Spelled s := by
  unfold blockBody
  exact (expectMark_stays _ _).bind fun _ => size_stays.bind fun bound =>
    statementsToBrace_keeps keeps bound (List.forall_mem_nil _)

/-! ### Levels -/

theorem refuseDeeper_keeps {expected : α → Prop} : (refuseDeeper : Parse α).Keeps s expected :=
  keeps_of_fails fun _ => rfl

theorem Grammar.Keeps.around (keeps : g.Keeps s) (inHoles : g.Keeps s.inHoles) :
    g.around.Keeps s where
  closed := keeps.closed
  statement := statementBody_keeps keeps
  block := blockBody_keeps keeps
  expression := keeps.assignment
  hole := inHoles.assignment
  assignment := assignmentExpression_keeps keeps
  operators := operatorExpression_keeps keeps
  operand := unaryExpression_keeps keeps
  arguments := argumentList_keeps keeps
  arrayLiteral := arrayElements_keeps keeps
  objectLiteral := objectEntries_keeps keeps

/-- Whatever the spelling is: that of holes is another one. -/
theorem Grammar.level_keeps (closed : s.Closed) (n : Nat) : (level n).Keeps s := by
  induction n generalizing s with
  | zero =>
      exact ⟨closed, refuseDeeper_keeps, refuseDeeper_keeps, refuseDeeper_keeps,
        refuseDeeper_keeps, refuseDeeper_keeps, fun _ => refuseDeeper_keeps, refuseDeeper_keeps,
        refuseDeeper_keeps, refuseDeeper_keeps, refuseDeeper_keeps⟩
  | succ n ih => exact (ih closed).around (ih closed.inHoles)

/-! ## Whole texts -/

theorem statementsToEnd_keeps (keeps : g.Keeps s) (bound : Nat) {found : List Stmt}
    (spelled : ∀ statement ∈ found, statement.Spelled s) :
    (statementsToEnd g bound found).Keeps s
      fun body => ∀ statement ∈ body, statement.Spelled s := by
  induction bound generalizing found with
  | zero => exact .pure (forall_mem_reversed spelled)
  | succ bound ih =>
      unfold statementsToEnd
      refine atEnd_stays.bind fun ended => ?_
      split
      · exact .pure (forall_mem_reversed spelled)
      · exact keeps.statement.bind fun statement first =>
          ih (List.forall_mem_cons.mpr ⟨first, spelled⟩)

/-- A program is spelled with what its text is cut into. -/
theorem Program.parse_spelled {text : String} {tokens : List Token} {program : Program}
    (closed : s.Closed) (cut : tokenize text = .ok tokens)
    (within : ∀ token ∈ tokens, token.Within s) (parsed : Program.parse text = .ok program) :
    ∀ statement ∈ program.body, statement.Spelled s := by
  have whole := statementsToEnd_keeps (Grammar.level_keeps closed maxNesting)
    ((Cursor.ofTokens tokens).size + 1) (List.forall_mem_nil (Stmt.Spelled s))
  rw [Program.parse, cut] at parsed
  change Except.map Program.mk ((statementsToEnd (.level maxNesting)
    ((Cursor.ofTokens tokens).size + 1) []).run' (.ofTokens tokens)) = .ok program at parsed
  generalize ran : (statementsToEnd (.level maxNesting) ((Cursor.ofTokens tokens).size + 1) []).run'
    (.ofTokens tokens) = outcome at parsed
  cases outcome with
  | error error => cases parsed
  | ok body =>
      cases parsed
      exact whole.run' (.ofTokens within) body ran

/-- So is an expression. -/
theorem Expr.parse_spelled {text : String} {tokens : List Token} {e : Expr} (closed : s.Closed)
    (cut : tokenize text = .ok tokens) (within : ∀ token ∈ tokens, token.Within s)
    (parsed : Expr.parse text = .ok e) : e.Spelled s := by
  rw [Expr.parse, cut] at parsed
  refine Keeps.run' ?_ (.ofTokens within) e parsed
  refine (Grammar.level_keeps closed maxNesting).expression.bind fun value spelled =>
    atEnd_stays.bind fun ended => ?_
  split
  · exact .pure spelled
  · exact unexpected_keeps _

end Script

end StrategyQubo
