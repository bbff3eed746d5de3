namespace StrategyQubo.Script

/-! # Tokens of the strategy language

What a source text is cut into before it is parsed: words, literals and marks,
each with the place where it begins.
-/

/-- A line and a column, both counted from one. -/
structure Position where
  line : Nat
  column : Nat
  deriving DecidableEq, Repr

def Position.start : Position := ⟨1, 1⟩

def Position.step (p : Position) (c : Char) : Position :=
  if c = '\n' then ⟨p.line + 1, 1⟩ else ⟨p.line, p.column + 1⟩

def Position.after (p : Position) (text : List Char) : Position :=
  text.foldl Position.step p

@[simp] theorem Position.after_nil (p : Position) : p.after [] = p := rfl

@[simp] theorem Position.after_cons (p : Position) (c : Char) (text : List Char) :
    p.after (c :: text) = (p.step c).after text := rfl

theorem Position.after_append (p : Position) (first second : List Char) :
    p.after (first ++ second) = (p.after first).after second := by
  simp [Position.after]

inductive Keyword where
  | varWord | letWord | constWord | functionWord | returnWord | ifWord | elseWord | forWord
  | whileWord | doWord | breakWord | continueWord | trueWord | falseWord | nullWord
  | undefinedWord | typeofWord | newWord | throwWord | tryWord | catchWord | finallyWord
  | inWord
  deriving DecidableEq, Repr

namespace Keyword

def all : List Keyword :=
  [.varWord, .letWord, .constWord, .functionWord, .returnWord, .ifWord, .elseWord, .forWord,
    .whileWord, .doWord, .breakWord, .continueWord, .trueWord, .falseWord, .nullWord,
    .undefinedWord, .typeofWord, .newWord, .throwWord, .tryWord, .catchWord, .finallyWord,
    .inWord]

def spelling : Keyword → String
  | varWord => "var"
  | letWord => "let"
  | constWord => "const"
  | functionWord => "function"
  | returnWord => "return"
  | ifWord => "if"
  | elseWord => "else"
  | forWord => "for"
  | whileWord => "while"
  | doWord => "do"
  | breakWord => "break"
  | continueWord => "continue"
  | trueWord => "true"
  | falseWord => "false"
  | nullWord => "null"
  | undefinedWord => "undefined"
  | typeofWord => "typeof"
  | newWord => "new"
  | throwWord => "throw"
  | tryWord => "try"
  | catchWord => "catch"
  | finallyWord => "finally"
  | inWord => "in"

def ofSpelling? (word : String) : Option Keyword :=
  all.find? (·.spelling == word)

end Keyword

inductive Mark where
  | openBrace | closeBrace | openParen | closeParen | openBracket | closeBracket
  | semicolon | comma | dot | question | questionQuestion | colon | arrow
  | plus | minus | star | starStar | slash | percent | plusPlus | minusMinus
  | assign | plusAssign | minusAssign | starAssign | slashAssign | percentAssign
  | equal | strictEqual | notEqual | strictNotEqual | less | greater | lessEqual | greaterEqual
  | andAnd | orOr | bang
  deriving DecidableEq, Repr

namespace Mark

/-- In the order in which they are tried: a mark comes before every mark that
    its spelling begins with. -/
def all : List Mark :=
  [strictEqual, strictNotEqual, starStar, arrow, equal, notEqual, lessEqual, greaterEqual,
    andAnd, orOr, questionQuestion, plusPlus, minusMinus, plusAssign, minusAssign, starAssign,
    slashAssign, percentAssign, openBrace, closeBrace, openParen, closeParen, openBracket,
    closeBracket, semicolon, comma, dot, question, colon, plus, minus, star, slash, percent,
    assign, less, greater, bang]

def spelling : Mark → String
  | openBrace => "\x7b"
  | closeBrace => "\x7d"
  | openParen => "("
  | closeParen => ")"
  | openBracket => "["
  | closeBracket => "]"
  | semicolon => ";"
  | comma => ","
  | dot => "."
  | question => "?"
  | questionQuestion => "??"
  | colon => ":"
  | arrow => "=>"
  | plus => "+"
  | minus => "-"
  | star => "*"
  | starStar => "**"
  | slash => "/"
  | percent => "%"
  | plusPlus => "++"
  | minusMinus => "--"
  | assign => "="
  | plusAssign => "+="
  | minusAssign => "-="
  | starAssign => "*="
  | slashAssign => "/="
  | percentAssign => "%="
  | equal => "=="
  | strictEqual => "==="
  | notEqual => "!="
  | strictNotEqual => "!=="
  | less => "<"
  | greater => ">"
  | lessEqual => "<="
  | greaterEqual => ">="
  | andAnd => "&&"
  | orOr => "||"
  | bang => "!"

/-- What a message calls the mark. -/
def title : Mark → String
  | openBrace => "LBrace"
  | closeBrace => "RBrace"
  | openParen => "LParen"
  | closeParen => "RParen"
  | openBracket => "LBracket"
  | closeBracket => "RBracket"
  | semicolon => "Semi"
  | comma => "Comma"
  | dot => "Dot"
  | question => "Question"
  | questionQuestion => "QuestionQuestion"
  | colon => "Colon"
  | arrow => "Arrow"
  | plus => "Plus"
  | minus => "Minus"
  | star => "Star"
  | starStar => "StarStar"
  | slash => "Slash"
  | percent => "Percent"
  | plusPlus => "PlusPlus"
  | minusMinus => "MinusMinus"
  | assign => "Assign"
  | plusAssign => "PlusAssign"
  | minusAssign => "MinusAssign"
  | starAssign => "StarAssign"
  | slashAssign => "SlashAssign"
  | percentAssign => "PercentAssign"
  | equal => "EqEq"
  | strictEqual => "EqEqEq"
  | notEqual => "NotEq"
  | strictNotEqual => "NotEqEq"
  | less => "Lt"
  | greater => "Gt"
  | lessEqual => "LtEq"
  | greaterEqual => "GtEq"
  | andAnd => "AndAnd"
  | orOr => "OrOr"
  | bang => "Bang"

end Mark

/-- A stretch of a template literal: its text, or the source of a hole and the
    place where that source begins. -/
inductive Chunk where
  | text (content : String)
  | code (source : String) (start : Position)

inductive Lexeme where
  | number (value : Float)
  | string (content : String)
  | template (chunks : List Chunk)
  | identifier (name : String)
  | keyword (word : Keyword)
  | mark (mark : Mark)
  | endOfInput

structure Token where
  lexeme : Lexeme
  position : Position
  newlineBefore : Bool

def Lexeme.isMark (lexeme : Lexeme) (expected : Mark) : Bool :=
  match lexeme with
  | .mark found => found == expected
  | _ => false

def Lexeme.isKeyword (lexeme : Lexeme) (expected : Keyword) : Bool :=
  match lexeme with
  | .keyword found => found == expected
  | _ => false

def Lexeme.isEnd : Lexeme → Bool
  | .endOfInput => true
  | _ => false

end StrategyQubo.Script
