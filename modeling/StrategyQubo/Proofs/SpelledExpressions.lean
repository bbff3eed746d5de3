import StrategyQubo.Proofs.TokensWithin

namespace StrategyQubo

open StrategyQubo.Script

/-! # Spelled expressions

Each construct of the grammar makes a tree that is spelled with the words and
texts of its tokens, if the constructs inside it do.
-/

namespace Script

open Parse

/-- Texts that come of no token are in the spelling as well, and a hole is cut
    into tokens of it. -/
structure Spelling.Closed (s : Spelling) : Prop where
  keywords : ∀ word : Keyword, s.text word.spelling
  numbers : ∀ value, s.text (Number.scriptText value)
  holes : ∀ source start tokens, s.source source start → tokenizeAt source start = .ok tokens →
    ∀ token ∈ tokens, token.Within s.inHoles

theorem Spelling.Closed.inHoles {s : Spelling} (closed : s.Closed) : s.inHoles.Closed :=
  ⟨closed.keywords, closed.numbers, closed.holes⟩

/-! ## Grammars -/

/-- The parsers for nested constructs make spelled trees. -/
structure Grammar.Keeps (s : Spelling) (g : Grammar) : Prop where
  closed : s.Closed
  statement : g.statement.Keeps s (Stmt.Spelled s)
  block : g.block.Keeps s fun body => ∀ statement ∈ body, statement.Spelled s
  expression : g.expression.Keeps s (Expr.Spelled s)
  hole : g.expression.Keeps s.inHoles (Expr.Spelled s.inHoles)
  assignment : g.assignment.Keeps s (Expr.Spelled s)
  operators : ∀ floor, (g.operators floor).Keeps s (Expr.Spelled s)
  operand : g.operand.Keeps s (Expr.Spelled s)
  arguments : g.arguments.Keeps s fun values => ∀ value ∈ values, value.Spelled s
  arrayLiteral : g.arrayLiteral.Keeps s (Expr.Spelled s)
  objectLiteral : g.objectLiteral.Keeps s (Expr.Spelled s)

theorem Expr.Spelled.operator {s : Spelling} {left right : Expr} (first : left.Spelled s)
    (second : right.Spelled s) (op : InfixOp) : (op.apply left right).Spelled s := by
  cases op with
  | binary op => exact .binary op first second
  | logical op => exact .logical op first second

variable {s : Spelling} {g : Grammar}

/-! ### Lists and names -/

theorem expressionList_keeps (keeps : g.Keeps s) (close : Mark) (bound : Nat) {found : List Expr}
    (spelled : ∀ value ∈ found, value.Spelled s) :
    (expressionList g close bound found).Keeps s
      fun values => ∀ value ∈ values, value.Spelled s := by
  induction bound generalizing found with
  | zero => exact .pure (forall_mem_reversed spelled)
  | succ bound ih =>
      unfold expressionList
      refine (atMark_stays close).bind fun closed => ?_
      split
      · exact .pure (forall_mem_reversed spelled)
      · refine keeps.assignment.bind fun element first => (eatMark_stays .comma).bind fun more => ?_
        have all := List.forall_mem_cons.mpr ⟨first, spelled⟩
        split
        · exact ih all
        · exact .pure (forall_mem_reversed all)

theorem parameterNames_stays (bound : Nat) (found : List String) :
    (parameterNames bound found).Stays s := by
  induction bound generalizing found with
  | zero => exact .pure trivial
  | succ bound ih =>
      unfold parameterNames
      refine (atMark_stays .closeParen).bind fun closed => ?_
      split
      · exact .pure trivial
      · refine (takeIdentifier_stays _).bind fun name =>
          (eatMark_stays .comma).bind fun more => ?_
        split
        · exact ih _
        · exact .pure trivial

theorem parameterList_stays : parameterList.Stays s := by
  unfold parameterList
  refine (expectMark_stays _ _).bind fun _ => size_stays.bind fun bound => ?_
  refine (parameterNames_stays bound []).bind fun parameters => ?_
  exact (expectMark_stays _ _).bind fun _ => .pure trivial

theorem propertyName_stays : propertyName.Stays s := by
  unfold propertyName
  refine advance_keeps.bind fun token _ => ?_
  split
  · exact .pure trivial
  · exact .pure trivial
  · exact unexpectedBefore_keeps _

/-! ### Functions -/

theorem functionRest_keeps (keeps : g.Keeps s) (nameRequired : Bool) :
    (functionRest g nameRequired).Keeps s (FunctionDef.Spelled s) := by
  have rest (name : Option String) (named : ∀ text ∈ name, s.text text) :
      Parse.Keeps s (FunctionDef.Spelled s) (do
        let parameters ← parameterList
        let body ← g.block
        pure (FunctionDef.define name parameters (.block body))) :=
    parameterList_stays.bind fun parameters => keeps.block.bind fun body spelled =>
      .pure (.define parameters named (.block spelled))
  unfold functionRest
  refine lexeme_keeps.bind fun l within => ?_
  dsimp only
  split
  · next name =>
    exact skip_stays.bind fun _ => rest (some name) fun text same => Option.some.inj same ▸ within.2
  · split
    · exact Keeps.bind (unexpected_keeps _) rest
    · exact rest none nofun

theorem arrowAhead_stays : arrowAhead.Stays s := by
  intro c within found c' ran
  unfold arrowAhead at ran
  split at ran <;>
  · cases ran
    exact ⟨trivial, within⟩

theorem arrowFunction_keeps (keeps : g.Keeps s) : (arrowFunction g).Keeps s (Expr.Spelled s) := by
  unfold arrowFunction
  refine Stays.bind ?_ fun parameters =>
    (expectMark_stays _ _).bind fun _ => (atMark_stays .openBrace).bind fun block => ?_
  · refine (atMark_stays .openParen).bind fun parens => ?_
    split
    · exact parameterList_stays
    · exact (takeIdentifier_stays _).bind fun name => .pure trivial
  · split
    · exact keeps.block.bind fun body spelled =>
        .pure (.function (.define parameters nofun (.block spelled)))
    · exact keeps.assignment.bind fun value spelled =>
        .pure (.function (.define parameters nofun (.expression spelled)))

/-! ### Literals -/

/-- A hole has tokens of its own and leaves the cursor where it is. -/
theorem apart_keeps {α : Type} {expected : α → Prop} {run : Except ScriptError α}
    (good : ∀ value, run = .ok value → expected value) :
    Parse.Keeps s expected (fun c => run.map fun value => (value, c)) := by
  intro c within value c' ran
  cases run with
  | error error => cases ran
  | ok value =>
      cases ran
      exact ⟨good value rfl, within⟩

/-- What a whole text of tokens is read as. -/
theorem Parse.Keeps.run' {α : Type} {expected : α → Prop} {parse : Parse α}
    (keeps : parse.Keeps s expected) {c : Cursor} (within : c.Within s) (value : α)
    (ran : parse.run' c = .ok value) : expected value := by
  change (parse c).map Prod.fst = .ok value at ran
  cases outcome : parse c with
  | error error =>
      rw [outcome] at ran
      cases ran
  | ok after =>
      rw [outcome] at ran
      cases ran
      exact (keeps c within after.1 after.2 outcome).1

theorem templateParts_keeps (keeps : g.Keeps s) {chunks : List Chunk}
    (within : ∀ chunk ∈ chunks, chunk.Within s) {found : List TemplatePart}
    (spelled : ∀ part ∈ found, part.Spelled s.inHoles) :
    (templateParts g chunks found).Keeps s fun parts => ∀ part ∈ parts, part.Spelled s.inHoles := by
  induction chunks generalizing found with
  | nil => exact .pure (forall_mem_reversed spelled)
  | cons chunk rest ih =>
      obtain ⟨first, others⟩ := List.forall_mem_cons.mp within
      cases chunk with
      | text content => exact ih others (List.forall_mem_cons.mpr ⟨.text content, spelled⟩)
      | code source start =>
          unfold templateParts
          have opened (tokens : List Token) (cut : tokenizeAt source start = .ok tokens) :=
            Cursor.Within.ofTokens (keeps.closed.holes source start tokens first cut)
          refine (apart_keeps opened).bind fun tokens opened => ?_
          have hole : Parse.Keeps s.inHoles (Expr.Spelled s.inHoles) (do
              let value ← g.expression
              if ← atEnd then pure value else unexpected "'\x7d' closing template expression") := by
            refine keeps.hole.bind fun value spelled => atEnd_stays.bind fun ended => ?_
            split
            · exact .pure spelled
            · exact unexpected_keeps _
          exact Keeps.bind (apart_keeps (hole.run' opened)) fun value first =>
            ih others (List.forall_mem_cons.mpr ⟨.hole first, spelled⟩)

theorem arrayElements_keeps (keeps : g.Keeps s) : (arrayElements g).Keeps s (Expr.Spelled s) := by
  unfold arrayElements
  have listed := allowingIn_keeps (size_stays.bind fun bound =>
    expressionList_keeps keeps .closeBracket bound (List.forall_mem_nil _))
  refine listed.bind fun elements spelled => ?_
  exact (expectMark_stays _ _).bind fun _ => .pure (.array spelled)

/-- A key, with the name of a method under it, and the name for which it may
    stand. -/
structure KeySpelled (s : Spelling) (key : PropertyKey × Option String) : Prop where
  spelled : key.1.Spelled s
  method : ∀ text ∈ key.1.fixedName?, s.text text
  shorthand : ∀ name ∈ key.2, s.name name

theorem KeySpelled.fixed {name : String} (text : s.text name) :
    KeySpelled s (.fixed name, none) :=
  ⟨.fixed name, fun _ same => Option.some.inj same ▸ text, nofun⟩

theorem objectKey_keeps (keeps : g.Keeps s) : (objectKey g).Keeps s (KeySpelled s) := by
  unfold objectKey
  refine advance_keeps.bind fun token within => ?_
  unfold Token.Within at within
  split
  · next name identifier =>
    rw [identifier] at within
    exact .pure ⟨.fixed name, fun _ same => Option.some.inj same ▸ within.2,
      fun _ same => Option.some.inj same ▸ within.1⟩
  · exact .pure (.fixed (keeps.closed.keywords _))
  · next text string =>
    rw [string] at within
    exact .pure (.fixed within)
  · exact .pure (.fixed (keeps.closed.numbers _))
  · exact keeps.assignment.bind fun key spelled => (expectMark_stays _ _).bind fun _ =>
      .pure ⟨.computed spelled, nofun, nofun⟩
  · exact unexpectedBefore_keeps _

theorem propertyValue_keeps (keeps : g.Keeps s) {key : PropertyKey} {shorthand : Option String}
    (named : KeySpelled s (key, shorthand)) :
    (propertyValue g key shorthand).Keeps s (Expr.Spelled s) := by
  unfold propertyValue
  refine (eatMark_stays .colon).bind fun colon => ?_
  split
  · exact keeps.assignment
  · refine (atMark_stays .openParen).bind fun parens => ?_
    split
    · exact parameterList_stays.bind fun parameters => keeps.block.bind fun body statements =>
        .pure (.function (.define parameters named.method (.block statements)))
    · split
      · next name => exact .pure (.identifier (named.shorthand name rfl))
      · exact unexpected_keeps _

theorem properties_keeps (keeps : g.Keeps s) (bound : Nat) {found : List Property}
    (spelled : ∀ property ∈ found, property.Spelled s) :
    (properties g bound found).Keeps s fun entries => ∀ property ∈ entries, property.Spelled s := by
  induction bound generalizing found with
  | zero => exact .pure (forall_mem_reversed spelled)
  | succ bound ih =>
      unfold properties
      refine (atMark_stays .closeBrace).bind fun closed => ?_
      split
      · exact .pure (forall_mem_reversed spelled)
      · refine (objectKey_keeps keeps).bind fun key named =>
          (propertyValue_keeps keeps named).bind fun value first =>
            (eatMark_stays .comma).bind fun more => ?_
        have all := List.forall_mem_cons.mpr ⟨Property.Spelled.entry named.spelled first, spelled⟩
        split
        · exact ih all
        · exact .pure (forall_mem_reversed all)

theorem objectEntries_keeps (keeps : g.Keeps s) : (objectEntries g).Keeps s (Expr.Spelled s) := by
  unfold objectEntries
  refine (allowingIn_keeps (size_stays.bind fun bound =>
    properties_keeps keeps bound (List.forall_mem_nil _))).bind fun entries spelled => ?_
  exact (expectMark_stays _ _).bind fun _ => .pure (.object spelled)

/-! ### Expressions -/

theorem primary_keeps (keeps : g.Keeps s) : (primary g).Keeps s (Expr.Spelled s) := by
  unfold primary
  refine advance_keeps.bind fun token within => ?_
  unfold Token.Within at within
  split
  · exact .pure (.number _)
  · next text string =>
    rw [string] at within
    exact .pure (.string within)
  · next chunks template =>
    rw [template] at within
    have parts := templateParts_keeps keeps within (List.forall_mem_nil _)
    exact parts.bind fun parts spelled => .pure (.template spelled)
  · next name identifier =>
    rw [identifier] at within
    exact .pure (.identifier within.1)
  · exact .pure (.bool true)
  · exact .pure (.bool false)
  · exact .pure .null
  · exact .pure .undefined
  · exact (functionRest_keeps keeps false).bind fun definition spelled => .pure (.function spelled)
  · exact (allowingIn_keeps keeps.expression).bind fun inner spelled =>
      (expectMark_stays _ _).bind fun _ => .pure spelled
  · exact keeps.arrayLiteral
  · exact keeps.objectLiteral
  · exact unexpectedBefore_keeps _

theorem memberChain_keeps (bound : Nat) {object : Expr} (spelled : object.Spelled s) :
    (memberChain bound object).Keeps s (Expr.Spelled s) := by
  induction bound generalizing object with
  | zero => exact .pure spelled
  | succ bound ih =>
      unfold memberChain
      refine (eatMark_stays .dot).bind fun dot => ?_
      split
      · exact propertyName_stays.bind fun property => ih (.member property spelled)
      · exact .pure spelled

theorem accessChain_keeps (keeps : g.Keeps s) (bound : Nat) {value : Expr}
    (spelled : value.Spelled s) : (accessChain g bound value).Keeps s (Expr.Spelled s) := by
  induction bound generalizing value with
  | zero => exact .pure spelled
  | succ bound ih =>
      unfold accessChain
      refine (eatMark_stays .dot).bind fun dot => ?_
      split
      · exact propertyName_stays.bind fun property => ih (.member property spelled)
      · refine (eatMark_stays .openBracket).bind fun bracket => ?_
        split
        · exact (allowingIn_keeps keeps.expression).bind fun key second =>
            (expectMark_stays _ _).bind fun _ => ih (.index spelled second)
        · refine (atMark_stays .openParen).bind fun paren => ?_
          split
          · exact keeps.arguments.bind fun arguments given => ih (.call spelled given)
          · exact .pure spelled

theorem callMember_keeps (keeps : g.Keeps s) : (callMember g).Keeps s (Expr.Spelled s) := by
  unfold callMember
  refine (eatKeyword_stays .newWord).bind fun constructs => ?_
  split
  · refine size_stays.bind fun bound => (primary_keeps keeps).bind fun first spelled => ?_
    refine (memberChain_keeps bound spelled).bind fun callee function => ?_
    have given : Parse.Keeps s (fun arguments => ∀ argument ∈ arguments, argument.Spelled s) (do
        if ← atMark .openParen then g.arguments else pure []) := by
      refine (atMark_stays .openParen).bind fun paren => ?_
      split
      · exact keeps.arguments
      · exact .pure (List.forall_mem_nil _)
    exact given.bind fun arguments given =>
      size_stays.bind fun bound => accessChain_keeps keeps bound (.construct function given)
  · exact size_stays.bind fun bound => (primary_keeps keeps).bind fun first spelled =>
      accessChain_keeps keeps bound spelled

theorem postfixUpdate_keeps (keeps : g.Keeps s) : (postfixUpdate g).Keeps s (Expr.Spelled s) := by
  unfold postfixUpdate
  refine (callMember_keeps keeps).bind fun value spelled => peek_stays.bind fun token => ?_
  split
  · next increment _ =>
    split
    · exact .pure spelled
    · split
      · exact skip_stays.bind fun _ => .pure (.update increment false spelled)
      · exact unexpected_keeps _
  · exact .pure spelled

theorem unaryExpression_keeps (keeps : g.Keeps s) :
    (unaryExpression g).Keeps s (Expr.Spelled s) := by
  unfold unaryExpression
  refine lexeme_keeps.bind fun l _ => ?_
  split
  · exact skip_stays.bind fun _ => keeps.operand.bind fun operand spelled =>
      .pure (.unary _ spelled)
  · refine skip_stays.bind fun _ => keeps.operand.bind fun target spelled => ?_
    split
    · exact .pure (.update _ true spelled)
    · exact unexpected_keeps _
  · exact postfixUpdate_keeps keeps

theorem operatorsAfter_keeps (keeps : g.Keeps s) (floor bound : Nat) {left : Expr}
    (spelled : left.Spelled s) : (operatorsAfter g floor bound left).Keeps s (Expr.Spelled s) := by
  induction bound generalizing left with
  | zero => exact .pure spelled
  | succ bound ih =>
      unfold operatorsAfter
      refine lexeme_keeps.bind fun l _ => ?_
      split
      · exact .pure spelled
      · next precedence op _ =>
        split
        · exact .pure spelled
        · refine inBarred_stays.bind fun barred => ?_
          split
          · exact .pure spelled
          · exact skip_stays.bind fun _ => (keeps.operators _).bind fun right second =>
              ih (spelled.operator second op)

theorem operatorExpression_keeps (keeps : g.Keeps s) (floor : Nat) :
    (operatorExpression g floor).Keeps s (Expr.Spelled s) := by
  unfold operatorExpression
  exact (unaryExpression_keeps keeps).bind fun left spelled => size_stays.bind fun bound =>
    operatorsAfter_keeps keeps floor bound spelled

theorem conditionalExpression_keeps (keeps : g.Keeps s) :
    (conditionalExpression g).Keeps s (Expr.Spelled s) := by
  unfold conditionalExpression
  refine (operatorExpression_keeps keeps 0).bind fun condition decides =>
    (eatMark_stays .question).bind fun question => ?_
  split
  · exact allowingIn_keeps (keeps.assignment.bind fun consequent first =>
      (expectMark_stays _ _).bind fun _ => keeps.assignment.bind fun alternative second =>
        .pure (.conditional decides first second))
  · exact .pure decides

theorem assignmentExpression_keeps (keeps : g.Keeps s) :
    (assignmentExpression g).Keeps s (Expr.Spelled s) := by
  unfold assignmentExpression
  refine arrowAhead_stays.bind fun arrow => ?_
  split
  · exact arrowFunction_keeps keeps
  · refine (conditionalExpression_keeps keeps).bind fun target place =>
      lexeme_keeps.bind fun l _ => ?_
    split
    · next op _ =>
      split
      · exact skip_stays.bind fun _ => keeps.assignment.bind fun value spelled =>
          .pure (.assign op place spelled)
      · exact unexpected_keeps _
    · exact .pure place

theorem argumentList_keeps (keeps : g.Keeps s) :
    (argumentList g).Keeps s fun values => ∀ value ∈ values, value.Spelled s := by
  unfold argumentList
  refine (expectMark_stays _ _).bind fun _ => ?_
  have listed := allowingIn_keeps (size_stays.bind fun bound =>
    expressionList_keeps keeps .closeParen bound (List.forall_mem_nil _))
  refine listed.bind fun arguments given => ?_
  exact (expectMark_stays _ _).bind fun _ => .pure given

end Script

end StrategyQubo
