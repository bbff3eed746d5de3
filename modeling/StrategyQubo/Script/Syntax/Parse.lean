import StrategyQubo.Script.Syntax
import StrategyQubo.Script.Syntax.Cursor

namespace StrategyQubo.Script

/-! # From tokens to syntax trees

A grammar is a family of parsers for the constructs that nest.  The grammar of
level `n + 1` parses each construct with the grammar of level `n` for the
constructs inside it, and level zero refuses everything: nesting is bounded by
the level, and the depth of every tree with it.
-/

/-- The levels of nesting that a source may have. -/
def maxNesting : Nat := 256

/-- Parsers for the constructs that count as a level of nesting. -/
structure Grammar where
  statement : Parse Stmt
  block : Parse (List Stmt)
  expression : Parse Expr
  assignment : Parse Expr
  /-- Operators that bind tighter than the given precedence. -/
  operators : Nat → Parse Expr
  operand : Parse Expr
  arguments : Parse (List Expr)
  arrayLiteral : Parse Expr
  objectLiteral : Parse Expr

open Parse

/-! ## Operators -/

inductive InfixOp where
  | binary (op : BinaryOp)
  | logical (op : LogicalOp)

def InfixOp.apply (op : InfixOp) (left right : Expr) : Expr :=
  match op with
  | .binary op => .binary op left right
  | .logical op => .logical op left right

def InfixOp.isInside : InfixOp → Bool
  | .binary .inside => true
  | _ => false

/-- The precedence of powers, the only operators that group to the right. -/
def powerPrecedence : Nat := 8

/-- Binding strength and meaning; a higher number binds tighter. -/
def infixOp? : Lexeme → Option (Nat × InfixOp)
  | .mark .questionQuestion => some (1, .logical .nullish)
  | .mark .orOr => some (2, .logical .or)
  | .mark .andAnd => some (3, .logical .and)
  | .mark .equal => some (4, .binary .equal)
  | .mark .notEqual => some (4, .binary .notEqual)
  | .mark .strictEqual => some (4, .binary .strictEqual)
  | .mark .strictNotEqual => some (4, .binary .strictNotEqual)
  | .mark .less => some (5, .binary .less)
  | .mark .greater => some (5, .binary .greater)
  | .mark .lessEqual => some (5, .binary .lessEqual)
  | .mark .greaterEqual => some (5, .binary .greaterEqual)
  | .keyword .inWord => some (5, .binary .inside)
  | .mark .plus => some (6, .binary .add)
  | .mark .minus => some (6, .binary .subtract)
  | .mark .star => some (7, .binary .multiply)
  | .mark .slash => some (7, .binary .divide)
  | .mark .percent => some (7, .binary .remainder)
  | .mark .starStar => some (powerPrecedence, .binary .power)
  | _ => none

/-- The operation that an assignment mark applies before it assigns. -/
def assignmentOp? : Lexeme → Option (Option BinaryOp)
  | .mark .assign => some none
  | .mark .plusAssign => some (some .add)
  | .mark .minusAssign => some (some .subtract)
  | .mark .starAssign => some (some .multiply)
  | .mark .slashAssign => some (some .divide)
  | .mark .percentAssign => some (some .remainder)
  | _ => none

def unaryOp? : Lexeme → Option UnaryOp
  | .mark .minus => some .negate
  | .mark .plus => some .plus
  | .mark .bang => some .not
  | .keyword .typeofWord => some .typeof
  | _ => none

/-- Whether the mark increments (or else decrements) what stands beside it. -/
def updateOp? : Lexeme → Option Bool
  | .mark .plusPlus => some true
  | .mark .minusMinus => some false
  | _ => none

/-! ## Lists and names -/

/-- Expressions between commas up to a closing mark.  A comma may stand before
    the mark; where none follows an expression, the list is over. -/
def expressionList (g : Grammar) (close : Mark) : Nat → List Expr → Parse (List Expr)
  | 0, found => pure found.reverse
  | bound + 1, found => do
      if ← atMark close then
        pure found.reverse
      else
        let element ← g.assignment
        if ← eatMark .comma then
          expressionList g close bound (element :: found)
        else
          pure (element :: found).reverse

def parameterNames : Nat → List String → Parse (List String)
  | 0, found => pure found.reverse
  | bound + 1, found => do
      if ← atMark .closeParen then
        pure found.reverse
      else
        let name ← takeIdentifier "parameter name"
        if ← eatMark .comma then
          parameterNames bound (name :: found)
        else
          pure (name :: found).reverse

def parameterList : Parse (List String) := do
  expectMark .openParen "'('"
  let names ← parameterNames (← size) []
  expectMark .closeParen "')'"
  pure names

/-- The name behind a dot; a keyword is a name there. -/
def propertyName : Parse String := do
  match (← advance).lexeme with
  | .identifier name => pure name
  | .keyword word => pure word.spelling
  | _ => unexpectedBefore "property name"

/-! ## Functions -/

def functionRest (g : Grammar) (nameRequired : Bool) : Parse FunctionDef := do
  let name ← match ← lexeme with
    | .identifier name => do
        skip
        pure (some name)
    | _ => if nameRequired then unexpected "function name" else pure none
  let parameters ← parameterList
  let body ← g.block
  pure (.define name parameters (.block body))

/-- Whether the parenthesis that opens at the head of the list closes before
    an arrow. -/
def closesBeforeArrow : Nat → List Token → Bool
  | _, [] => false
  | depth, token :: rest =>
      if token.lexeme.isMark .openParen then
        closesBeforeArrow (depth + 1) rest
      else if token.lexeme.isMark .closeParen then
        if depth ≤ 1 then
          match rest with
          | next :: _ => next.lexeme.isMark .arrow
          | [] => false
        else
          closesBeforeArrow (depth - 1) rest
      else
        closesBeforeArrow depth rest

def arrowAhead : Parse Bool := fun c =>
  match c.current.lexeme with
  | .identifier _ => .ok ((c.lookahead 1).isMark .arrow, c)
  | .mark .openParen => .ok (closesBeforeArrow 0 c.ahead, c)
  | _ => .ok (false, c)

def arrowFunction (g : Grammar) : Parse Expr := do
  let parameters ← (do
    if ← atMark .openParen then
      parameterList
    else
      return [← takeIdentifier "parameter name"])
  expectMark .arrow "'=>'"
  if ← atMark .openBrace then
    let body ← g.block
    pure (.function (.define none parameters (.block body)))
  else
    let value ← g.assignment
    pure (.function (.define none parameters (.expression value)))

/-! ## Literals -/

/-- The parts of a template literal.  A hole is parsed from its own tokens at
    the same level of nesting. -/
def templateParts (g : Grammar) : List Chunk → List TemplatePart → Parse (List TemplatePart)
  | [], found => pure found.reverse
  | .text content :: rest, found => templateParts g rest (.text content :: found)
  | .code source start :: rest, found => do
      let tokens ← fun c => (tokenizeAt source start).map fun tokens => (tokens, c)
      let hole : Parse Expr := do
        let value ← g.expression
        if ← atEnd then pure value else unexpected "'\x7d' closing template expression"
      let value ← fun c => (hole.run' (.ofTokens tokens)).map fun value => (value, c)
      templateParts g rest (.hole value :: found)

def arrayElements (g : Grammar) : Parse Expr := do
  let elements ← allowingIn do expressionList g .closeBracket (← size) []
  expectMark .closeBracket "']'"
  pure (.array elements)

/-- A key, and the name that it may stand for alone. -/
def objectKey (g : Grammar) : Parse (PropertyKey × Option String) := do
  match (← advance).lexeme with
  | .identifier name => pure (.fixed name, some name)
  | .keyword word => pure (.fixed word.spelling, none)
  | .string text => pure (.fixed text, none)
  | .number value => pure (.fixed (Number.scriptText value), none)
  | .mark .openBracket => do
      let key ← g.assignment
      expectMark .closeBracket "']' after computed key"
      pure (.computed key, none)
  | _ => unexpectedBefore "property key"

def PropertyKey.fixedName? : PropertyKey → Option String
  | .fixed name => some name
  | .computed _ => none

/-- A value behind a colon, a method, or a name that is its own value. -/
def propertyValue (g : Grammar) (key : PropertyKey) (shorthand : Option String) : Parse Expr := do
  if ← eatMark .colon then
    g.assignment
  else if ← atMark .openParen then
    let parameters ← parameterList
    let body ← g.block
    pure (.function (.define key.fixedName? parameters (.block body)))
  else
    match shorthand with
    | some name => pure (.identifier name)
    | none => unexpected "':' after property key"

def properties (g : Grammar) : Nat → List Property → Parse (List Property)
  | 0, found => pure found.reverse
  | bound + 1, found => do
      if ← atMark .closeBrace then
        pure found.reverse
      else
        let (key, shorthand) ← objectKey g
        let value ← propertyValue g key shorthand
        if ← eatMark .comma then
          properties g bound (.entry key value :: found)
        else
          pure (Property.entry key value :: found).reverse

def objectEntries (g : Grammar) : Parse Expr := do
  let entries ← allowingIn do properties g (← size) []
  expectMark .closeBrace "'\x7d' closing object literal"
  pure (.object entries)

/-! ## Expressions -/

def primary (g : Grammar) : Parse Expr := do
  match (← advance).lexeme with
  | .number value => pure (.number value)
  | .string text => pure (.string text)
  | .template chunks => return .template (← templateParts g chunks [])
  | .identifier name => pure (.identifier name)
  | .keyword .trueWord => pure (.bool true)
  | .keyword .falseWord => pure (.bool false)
  | .keyword .nullWord => pure .null
  | .keyword .undefinedWord => pure .undefined
  | .keyword .functionWord => return .function (← functionRest g false)
  | .mark .openParen => do
      let inner ← allowingIn g.expression
      expectMark .closeParen "')'"
      pure inner
  | .mark .openBracket => g.arrayLiteral
  | .mark .openBrace => g.objectLiteral
  | _ => unexpectedBefore "expression"

/-- Names behind dots, as the callee of `new` may have them. -/
def memberChain : Nat → Expr → Parse Expr
  | 0, object => pure object
  | bound + 1, object => do
      if ← eatMark .dot then
        let property ← propertyName
        memberChain bound (.member object property)
      else
        pure object

def accessChain (g : Grammar) : Nat → Expr → Parse Expr
  | 0, value => pure value
  | bound + 1, value => do
      if ← eatMark .dot then
        let property ← propertyName
        accessChain g bound (.member value property)
      else if ← eatMark .openBracket then
        let key ← allowingIn g.expression
        expectMark .closeBracket "']'"
        accessChain g bound (.index value key)
      else if ← atMark .openParen then
        let arguments ← g.arguments
        accessChain g bound (.call value arguments)
      else
        pure value

def callMember (g : Grammar) : Parse Expr := do
  if ← eatKeyword .newWord then
    let callee ← memberChain (← size) (← primary g)
    let arguments ← (do if ← atMark .openParen then g.arguments else pure [])
    accessChain g (← size) (.construct callee arguments)
  else
    accessChain g (← size) (← primary g)

/-- An update behind a value must stand on the same line. -/
def postfixUpdate (g : Grammar) : Parse Expr := do
  let value ← callMember g
  let token ← peek
  match updateOp? token.lexeme with
  | some increment =>
      if token.newlineBefore then
        pure value
      else if value.isAssignable then
        skip
        pure (.update increment false value)
      else
        unexpected "assignable operand for postfix update"
  | none => pure value

def unaryExpression (g : Grammar) : Parse Expr := do
  let token ← lexeme
  match unaryOp? token, updateOp? token with
  | some op, _ => do
      skip
      let operand ← g.operand
      pure (.unary op operand)
  | none, some increment => do
      skip
      let target ← g.operand
      if target.isAssignable then
        pure (.update increment true target)
      else
        unexpected "assignable operand for prefix update"
  | none, none => postfixUpdate g

/-- Operators that bind tighter than `floor`, applied to what stands before
    them. -/
def operatorsAfter (g : Grammar) (floor : Nat) : Nat → Expr → Parse Expr
  | 0, left => pure left
  | bound + 1, left => do
      match infixOp? (← lexeme) with
      | none => pure left
      | some (precedence, op) =>
          if precedence ≤ floor then
            pure left
          else if op.isInside && (← inBarred) then
            pure left
          else
            skip
            let tighter := if precedence = powerPrecedence then precedence - 1 else precedence
            let right ← g.operators tighter
            operatorsAfter g floor bound (op.apply left right)

def operatorExpression (g : Grammar) (floor : Nat) : Parse Expr := do
  let left ← unaryExpression g
  operatorsAfter g floor (← size) left

def conditionalExpression (g : Grammar) : Parse Expr := do
  let condition ← operatorExpression g 0
  if ← eatMark .question then
    allowingIn do
      let consequent ← g.assignment
      expectMark .colon "':' in conditional expression"
      let alternative ← g.assignment
      pure (.conditional condition consequent alternative)
  else
    pure condition

def assignmentExpression (g : Grammar) : Parse Expr := do
  if ← arrowAhead then
    arrowFunction g
  else
    let target ← conditionalExpression g
    match assignmentOp? (← lexeme) with
    | some op =>
        if target.isAssignable then
          skip
          let value ← g.assignment
          pure (.assign op target value)
        else
          unexpected "assignable expression before assignment"
    | none => pure target

def argumentList (g : Grammar) : Parse (List Expr) := do
  expectMark .openParen "'('"
  let arguments ← allowingIn do expressionList g .closeParen (← size) []
  expectMark .closeParen "')' after arguments"
  pure arguments

/-! ## Statements -/

def declarationWord? : Lexeme → Option Declaration
  | .keyword .varWord => some .var
  | .keyword .letWord => some .lexical
  | .keyword .constWord => some .constant
  | _ => none

def declarators (g : Grammar) : Nat → List Declarator → Parse (List Declarator)
  | 0, found => pure found.reverse
  | bound + 1, found => do
      let name ← takeIdentifier "variable name"
      let initial ← (do if ← eatMark .assign then return some (← g.assignment) else pure none)
      let found := .declare name initial :: found
      if ← eatMark .comma then declarators g bound found else pure found.reverse

def declarationStatement (g : Grammar) (kind : Declaration) : Parse Stmt := do
  skip
  return .declaration kind (← declarators g (← size) [])

def parenExpression (g : Grammar) : Parse Expr := do
  expectMark .openParen "'('"
  let value ← g.expression
  expectMark .closeParen "')'"
  pure value

def ifStatement (g : Grammar) : Parse Stmt := do
  let condition ← parenExpression g
  let consequent ← g.statement
  let alternative ← (do
    if ← eatKeyword .elseWord then return some (← g.statement) else pure none)
  pure (.ifElse condition consequent alternative)

/-- Which of the two loops over a collection a header introduces. -/
inductive WalkKind where
  | elements
  | keys

def walkKind? : Lexeme → Option WalkKind
  | .identifier word => if word == "of" then some .elements else none
  | .keyword .inWord => some .keys
  | _ => none

def walkLoop (g : Grammar) (walk : WalkKind) (kind : Option Declaration) (name : String) :
    Parse Stmt := do
  skip
  skip
  let target ← g.expression
  expectMark .closeParen "')'"
  let body ← g.statement
  match walk with
  | .elements => pure (.forOf kind name target body)
  | .keys => pure (.forIn kind name target body)

def optionalExpression (g : Grammar) (close : Mark) : Parse (Option Expr) := do
  if ← atMark close then pure none else return some (← g.expression)

/-- The first part of a counting header.  The word `in` is no operator there,
    and it is one again behind it. -/
def forInitial (g : Grammar) : Parse (Option Stmt) := do
  if ← atMark .semicolon then
    pure none
  else
    setInBarred true
    let initial ← match declarationWord? (← lexeme) with
      | some kind => declarationStatement g kind
      | none => do pure (.expression (← g.expression))
    setInBarred false
    pure (some initial)

def countingLoop (g : Grammar) : Parse Stmt := do
  let initial ← forInitial g
  expectMark .semicolon "';' in for header"
  let condition ← optionalExpression g .semicolon
  expectMark .semicolon "';' in for header"
  let update ← optionalExpression g .closeParen
  expectMark .closeParen "')'"
  let body ← g.statement
  pure (.forLoop initial condition update body)

def forStatement (g : Grammar) : Parse Stmt := do
  expectMark .openParen "'(' after 'for'"
  let kind := declarationWord? (← lexeme)
  let offset := if kind.isSome then 1 else 0
  match ← lookahead offset, walkKind? (← lookahead (offset + 1)) with
  | .identifier name, some walk => do
      if kind.isSome then skip
      walkLoop g walk kind name
  | _, _ => countingLoop g

def tryStatement (g : Grammar) : Parse Stmt := do
  let block ← g.block
  let (binding, handler) ← (do
    if ← eatKeyword .catchWord then
      let binding ← (do
        if ← eatMark .openParen then
          let name ← takeIdentifier "catch binding"
          expectMark .closeParen "')'"
          pure (some name)
        else
          pure none)
      let handler ← g.block
      pure (binding, some handler)
    else
      pure (none, none))
  let finalizer ← (do
    if ← eatKeyword .finallyWord then return some (← g.block) else pure none)
  if handler.isNone && finalizer.isNone then
    unexpected "'catch' or 'finally'"
  else
    pure (.tryBlock block binding handler finalizer)

def returnStatement (g : Grammar) : Parse Stmt := do
  let token ← peek
  let bare := token.lexeme.isMark .semicolon || token.lexeme.isMark .closeBrace ||
    token.lexeme.isEnd || token.newlineBefore
  let value ← (do if bare then pure none else return some (← g.expression))
  endStatement
  pure (.returnWith value)

def throwStatement (g : Grammar) : Parse Stmt := do
  if (← peek).newlineBefore then
    unexpected "expression on the same line as 'throw'"
  else
    let value ← g.expression
    endStatement
    pure (.throwValue value)

def doStatement (g : Grammar) : Parse Stmt := do
  let body ← g.statement
  if ← eatKeyword .whileWord then
    let condition ← parenExpression g
    let _ ← eatMark .semicolon
    pure (.doWhile body condition)
  else
    unexpected "'while'"

def expressionStatement (g : Grammar) : Parse Stmt := do
  let value ← g.expression
  endStatement
  pure (.expression value)

def Lexeme.isIdentifier : Lexeme → Bool
  | .identifier _ => true
  | _ => false

/-- A statement is known by its first token; a function is declared only if it
    has a name. -/
def statementBody (g : Grammar) : Parse Stmt := do
  let first ← lexeme
  match first, declarationWord? first with
  | _, some kind => do
      let statement ← declarationStatement g kind
      endStatement
      pure statement
  | .mark .openBrace, _ => return .block (← g.block)
  | .mark .semicolon, _ => do
      skip
      pure .empty
  | .keyword .functionWord, _ => do
      if (← lookahead 1).isIdentifier then
        skip
        return .function (← functionRest g true)
      else
        expressionStatement g
  | .keyword .returnWord, _ => do
      skip
      returnStatement g
  | .keyword .ifWord, _ => do
      skip
      ifStatement g
  | .keyword .whileWord, _ => do
      skip
      let condition ← parenExpression g
      let body ← g.statement
      pure (.whileLoop condition body)
  | .keyword .doWord, _ => do
      skip
      doStatement g
  | .keyword .forWord, _ => do
      skip
      forStatement g
  | .keyword .breakWord, _ => do
      skip
      endStatement
      pure .breakLoop
  | .keyword .continueWord, _ => do
      skip
      endStatement
      pure .continueLoop
  | .keyword .throwWord, _ => do
      skip
      throwStatement g
  | .keyword .tryWord, _ => do
      skip
      tryStatement g
  | _, _ => expressionStatement g

/-- Statements up to the closing brace, which is taken. -/
def statementsToBrace (g : Grammar) : Nat → List Stmt → Parse (List Stmt)
  | 0, _ => unexpected "'\x7d'"
  | bound + 1, found => do
      if ← eatMark .closeBrace then
        pure found.reverse
      else if ← atEnd then
        unexpected "'\x7d'"
      else
        let statement ← g.statement
        statementsToBrace g bound (statement :: found)

def blockBody (g : Grammar) : Parse (List Stmt) := do
  expectMark .openBrace "'\x7b'"
  statementsToBrace g (← size) []

/-! ## Levels -/

def refuseDeeper {α : Type} : Parse α := fun c =>
  .error (.syntaxFault c.current.position (.nestingTooDeep maxNesting))

def Grammar.exhausted : Grammar where
  statement := refuseDeeper
  block := refuseDeeper
  expression := refuseDeeper
  assignment := refuseDeeper
  operators := fun _ => refuseDeeper
  operand := refuseDeeper
  arguments := refuseDeeper
  arrayLiteral := refuseDeeper
  objectLiteral := refuseDeeper

def Grammar.around (g : Grammar) : Grammar where
  statement := statementBody g
  block := blockBody g
  expression := g.assignment
  assignment := assignmentExpression g
  operators := operatorExpression g
  operand := unaryExpression g
  arguments := argumentList g
  arrayLiteral := arrayElements g
  objectLiteral := objectEntries g

def Grammar.level : Nat → Grammar
  | 0 => .exhausted
  | n + 1 => (level n).around

/-! ## Whole texts -/

def statementsToEnd (g : Grammar) : Nat → List Stmt → Parse (List Stmt)
  | 0, found => pure found.reverse
  | bound + 1, found => do
      if ← atEnd then
        pure found.reverse
      else
        let statement ← g.statement
        statementsToEnd g bound (statement :: found)

def Program.ofTokens (tokens : List Token) : Except ScriptError Program := do
  let cursor := Cursor.ofTokens tokens
  let body ← (statementsToEnd (.level maxNesting) (cursor.size + 1) []).run' cursor
  pure ⟨body⟩

def Program.parse (text : String) : Except ScriptError Program := do
  Program.ofTokens (← tokenize text)

def Expr.ofTokens (tokens : List Token) : Except ScriptError Expr :=
  let whole : Parse Expr := do
    let value ← (Grammar.level maxNesting).expression
    if ← atEnd then pure value else unexpected "end of expression"
  whole.run' (.ofTokens tokens)

def Expr.parse (text : String) : Except ScriptError Expr := do
  Expr.ofTokens (← tokenize text)

end StrategyQubo.Script
