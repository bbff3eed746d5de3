import StrategyQubo.Script.Token.Scan

namespace StrategyQubo.Script

/-! # Reading tokens

A cursor stands before a token and never moves past the last one, which marks
the end of the input.
-/

/-- The token before the cursor, those ahead of it and the end mark.  `size`
    counts all tokens; it bounds every loop, since each turn takes one.  While
    `inBarred` holds, the word `in` is no operator. -/
structure Cursor where
  before : Option Token
  ahead : List Token
  last : Token
  size : Nat
  inBarred : Bool

abbrev Parse := StateT Cursor (Except ScriptError)

namespace Cursor

def ofTokens (tokens : List Token) : Cursor where
  before := none
  ahead := tokens
  last := tokens.getLastD ⟨.endOfInput, .start, false⟩
  size := tokens.length
  inBarred := false

def current (c : Cursor) : Token :=
  c.ahead.headD c.last

/-- The token that many places ahead, or the end mark. -/
def lookahead (c : Cursor) (offset : Nat) : Lexeme :=
  (c.ahead.getD offset c.last).lexeme

/-- One token further, unless the end mark is reached. -/
def advance (c : Cursor) : Cursor :=
  match c.ahead with
  | token :: next :: rest => { c with before := some token, ahead := next :: rest }
  | _ => c

end Cursor

namespace Parse

def peek : Parse Token := fun c => .ok (c.current, c)

def lexeme : Parse Lexeme := fun c => .ok (c.current.lexeme, c)

def lookahead (offset : Nat) : Parse Lexeme := fun c => .ok (c.lookahead offset, c)

def advance : Parse Token := fun c => .ok (c.current, c.advance)

def skip : Parse Unit := fun c => .ok ((), c.advance)

def failAt {α : Type} (token : Token) (fault : SyntaxFault) : Parse α := fun _ =>
  .error (.syntaxFault token.position fault)

/-- The current token is not what has to stand here. -/
def unexpected {α : Type} (what : String) : Parse α := fun c =>
  .error (.syntaxFault c.current.position (.expected what c.current.lexeme))

/-- The token just taken is not what has to stand there.  The end mark is
    never taken, so at the end this is the token before it. -/
def unexpectedBefore {α : Type} (what : String) : Parse α := fun c =>
  let token := c.before.getD c.current
  .error (.syntaxFault token.position (.expected what token.lexeme))

def atEnd : Parse Bool := fun c => .ok (c.current.lexeme.isEnd, c)

def atMark (mark : Mark) : Parse Bool := fun c => .ok (c.current.lexeme.isMark mark, c)

/-- Takes the mark if it is the current token, and tells whether it was. -/
def eatMark (mark : Mark) : Parse Bool := fun c =>
  if c.current.lexeme.isMark mark then .ok (true, c.advance) else .ok (false, c)

def eatKeyword (word : Keyword) : Parse Bool := fun c =>
  if c.current.lexeme.isKeyword word then .ok (true, c.advance) else .ok (false, c)

def expectMark (mark : Mark) (what : String) : Parse Unit := do
  if ← eatMark mark then pure () else unexpected what

def takeIdentifier (what : String) : Parse String := do
  match ← lexeme with
  | .identifier name =>
      skip
      pure name
  | _ => unexpected what

def size : Parse Nat := fun c => .ok (c.size, c)

def inBarred : Parse Bool := fun c => .ok (c.inBarred, c)

def setInBarred (barred : Bool) : Parse Unit := fun c => .ok ((), { c with inBarred := barred })

/-- Inside brackets the word `in` is an operator again. -/
def allowingIn {α : Type} (parse : Parse α) : Parse α := do
  let saved ← inBarred
  setInBarred false
  let parsed ← parse
  setInBarred saved
  pure parsed

/-- A statement may end at a semicolon, before a closing brace, at the end of
    the input or at a line end. -/
def endStatement : Parse Unit := do
  if ← eatMark .semicolon then
    pure ()
  else
    let token ← peek
    if token.lexeme.isMark .closeBrace || token.lexeme.isEnd || token.newlineBefore then
      pure ()
    else
      unexpected "';'"

end Parse

end StrategyQubo.Script
