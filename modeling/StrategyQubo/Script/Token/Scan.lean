import StrategyQubo.Number.Literal
import StrategyQubo.Script.Fault
import StrategyQubo.Text.Blank
import StrategyQubo.Text.Numeral

namespace StrategyQubo.Script

/-! # Cutting a text into tokens

A scanner reads characters from the front of a source and keeps the place that
it has reached.  Every fault is reported there.  Loops are bounded by a count
that starts above the length of the whole text, and each turn takes at least
one character.
-/

/-- The characters not read yet and the place of the first of them. -/
structure Source where
  rest : List Char
  position : Position

abbrev Scan := StateT Source (Except ScriptError)

namespace Scan

def fail {α : Type} (fault : SyntaxFault) : Scan α := fun s =>
  .error (.syntaxFault s.position fault)

def ahead : Scan (List Char) := fun s => .ok (s.rest, s)

def take? : Scan (Option Char) := fun s =>
  match s.rest with
  | [] => .ok (none, s)
  | c :: rest => .ok (some c, ⟨rest, s.position.step c⟩)

def skip : Scan Unit := do
  let _ ← take?

def takeWhile (keep : Char → Bool) : Scan (List Char) := fun s =>
  let run := s.rest.takeWhile keep
  .ok (run, ⟨s.rest.dropWhile keep, s.position.after run⟩)

/-- Identifiers begin with a letter, an underscore or a dollar sign. -/
def startsIdentifier (c : Char) : Bool :=
  c == '_' || c == '$' || Text.isLetter c

def continuesIdentifier (c : Char) : Bool :=
  c == '_' || c == '$' || Text.isLetterOrNumeral c

/-! ## Between the tokens -/

/-- The source behind the end of a block comment, and whether a line ended
    before it. -/
def closeComment : List Char → Position → Bool → Except ScriptError (Bool × Source)
  | [], position, _ => .error (.syntaxFault position .unterminatedComment)
  | '*' :: '/' :: rest, position, newline => .ok (newline, ⟨rest, position.after ['*', '/']⟩)
  | c :: rest, position, newline => closeComment rest (position.step c) (newline || c == '\n')

/-- Skips blanks and comments and tells whether a line ended in them.  A line
    comment leaves its line end to the next turn. -/
def skipTrivia : Nat → Bool → Scan Bool
  | 0, newline => pure newline
  | bound + 1, newline => do
      match ← ahead with
      | '/' :: '/' :: _ =>
          let _ ← takeWhile (· != '\n')
          skipTrivia bound newline
      | '/' :: '*' :: _ =>
          skip
          skip
          let newline ← fun s => closeComment s.rest s.position newline
          skipTrivia bound newline
      | c :: _ =>
          if Text.isBlank c then
            skip
            skipTrivia bound (newline || c == '\n')
          else
            pure newline
      | [] => pure newline

/-! ## Literals -/

def hexNumberLiteral : Scan Lexeme := do
  skip
  skip
  let digits ← takeWhile Number.isHexDigit
  match Number.hexNumber? (Number.pow2 64) digits with
  | some value => pure (.number (Number.nearest value 0))
  | none => fail .malformedHexNumber

/-- A numeral holds no line end, so it only moves the column. -/
def decimalLiteral : Scan Lexeme := do
  match Number.spanNumeral? (← ahead) with
  | none => pure (.number 0.0)
  | some (numeral, rest) =>
      modify fun s => ⟨rest, ⟨s.position.line, s.position.column + numeral.width⟩⟩
      match rest with
      | c :: _ =>
          if startsIdentifier c then fail .identifierAfterNumber
          else pure (.number numeral.toFloat)
      | [] => pure (.number numeral.toFloat)

def numberLiteral : Scan Lexeme := do
  match ← ahead with
  | '0' :: 'x' :: _ => hexNumberLiteral
  | '0' :: 'X' :: _ => hexNumberLiteral
  | _ => decimalLiteral

def charOfCode? (code : Nat) : Option Char :=
  if code.isValidChar then some (Char.ofNat code) else none

def takeHexDigits : Nat → List Char → Scan (List Char)
  | 0, digits => pure digits.reverse
  | width + 1, digits => do
      match ← take? with
      | some c =>
          if Number.isHexDigit c then takeHexDigits width (c :: digits)
          else fail .malformedHexEscape
      | none => fail .malformedHexEscape

def fixedEscape (width : Nat) : Scan Char := do
  let digits ← takeHexDigits width []
  match (Number.hexNumber? (Number.pow2 32) digits).bind charOfCode? with
  | some c => pure c
  | none => fail .escapeOutOfRange

/-- The code point between braces. -/
def bracedEscape : Scan Char := do
  skip
  let digits ← takeWhile (· != '}')
  skip
  match (Number.hexNumber? (Number.pow2 32) digits).bind charOfCode? with
  | some c => pure c
  | none => fail .malformedUnicodeEscape

/-- What the characters behind a backslash stand for; one without a meaning of
    its own stands for itself. -/
def escape : Scan Char := do
  match ← take? with
  | none => fail .unterminatedEscape
  | some 'n' => pure '\n'
  | some 't' => pure '\t'
  | some 'r' => pure '\r'
  | some 'b' => pure '\x08'
  | some 'f' => pure '\x0c'
  | some 'v' => pure '\x0b'
  | some '0' => pure '\x00'
  | some 'x' => fixedEscape 2
  | some 'u' => do
      match ← ahead with
      | '{' :: _ => bracedEscape
      | _ => fixedEscape 4
  | some other => pure other

/-- The rest of a string literal.  A backslash at the end of a line continues
    the string on the next one. -/
def stringBody (quote : Char) : Nat → String → Scan String
  | 0, _ => fail .unterminatedString
  | bound + 1, text => do
      match ← take? with
      | none => fail .unterminatedString
      | some c =>
          if c = quote then
            pure text
          else if c = '\\' then
            match ← ahead with
            | '\n' :: _ =>
                skip
                stringBody quote bound text
            | _ =>
                let decoded ← escape
                stringBody quote bound (text.push decoded)
          else if c = '\n' then
            fail .unterminatedString
          else
            stringBody quote bound (text.push c)

/-- A string inside a hole, kept as it is written, up to the closing quote. -/
def holeString (quote : Char) : Nat → String → Scan String
  | 0, _ => fail .unterminatedHoleString
  | bound + 1, source => do
      match ← take? with
      | none => fail .unterminatedHoleString
      | some c =>
          if c = '\\' then
            match ← take? with
            | some escaped => holeString quote bound ((source.push c).push escaped)
            | none => holeString quote bound (source.push c)
          else if c = quote then
            pure source
          else
            holeString quote bound (source.push c)

/-- The source of a hole up to the brace that matches the one before it.
    Braces inside strings do not count. -/
def holeBody : Nat → Nat → String → Scan String
  | 0, _, _ => fail .unterminatedHole
  | bound + 1, depth, source => do
      match ← take? with
      | none => fail .unterminatedHole
      | some c =>
          if c = '{' then
            holeBody bound (depth + 1) (source.push c)
          else if c = '}' then
            match depth with
            | 0 => pure source
            | outer + 1 => holeBody bound outer (source.push c)
          else if c = '\x22' ∨ c = '\x27' ∨ c = '\x60' then
            let source ← holeString c bound (source.push c)
            holeBody bound depth (source.push c)
          else
            holeBody bound depth (source.push c)

/-- Puts the text gathered so far behind the chunks, unless it is empty. -/
def flushText (chunks : List Chunk) (text : String) : List Chunk :=
  if text.isEmpty then chunks else .text text :: chunks

/-- The chunks of a template literal, gathered last first. -/
def templateBody : Nat → List Chunk → String → Scan (List Chunk)
  | 0, _, _ => fail .unterminatedTemplate
  | bound + 1, chunks, text => do
      match ← take? with
      | none => fail .unterminatedTemplate
      | some c =>
          if c = '\x60' then
            pure (flushText chunks text).reverse
          else if c = '\\' then
            let decoded ← escape
            templateBody bound chunks (text.push decoded)
          else
            match c, ← ahead with
            | '$', '{' :: _ =>
                skip
                let start := (← get).position
                let source ← holeBody bound 0 ""
                templateBody bound (.code source start :: flushText chunks text) ""
            | _, _ => templateBody bound chunks (text.push c)

/-! ## Tokens -/

/-- The first mark, in the order of trial, that the text begins with. -/
def markAt? (text : List Char) : Option Mark :=
  Mark.all.find? fun mark => mark.spelling.toList.isPrefixOf text

def markLexeme : Scan Lexeme := do
  let text ← ahead
  match markAt? text with
  | some mark =>
      modify fun s =>
        ⟨s.rest.drop mark.spelling.length, s.position.after mark.spelling.toList⟩
      pure (.mark mark)
  | none => fail (.unexpectedCharacter (text.headD ' '))

def wordLexeme : Scan Lexeme := do
  let word := String.ofList (← takeWhile continuesIdentifier)
  match Keyword.ofSpelling? word with
  | some keyword => pure (.keyword keyword)
  | none => pure (.identifier word)

def startsNumber : List Char → Bool
  | '.' :: c :: _ => c.isDigit
  | c :: _ => c.isDigit
  | [] => false

def lexeme (bound : Nat) (c : Char) : Scan Lexeme := do
  if startsNumber (← ahead) then
    numberLiteral
  else if c = '\x22' ∨ c = '\x27' then
    skip
    return .string (← stringBody c bound "")
  else if c = '\x60' then
    skip
    return .template (← templateBody bound [] "")
  else if startsIdentifier c then
    wordLexeme
  else
    markLexeme

/-- The tokens up to the end of the text, gathered last first.  The last one
    marks the end. -/
def tokens : Nat → List Token → Scan (List Token)
  | 0, found => do
      return (⟨.endOfInput, (← get).position, false⟩ :: found).reverse
  | bound + 1, found => do
      let newline ← skipTrivia bound.succ false
      let start ← get
      match start.rest with
      | [] => pure (⟨.endOfInput, start.position, newline⟩ :: found).reverse
      | c :: _ =>
          let lexeme ← lexeme bound.succ c
          tokens bound (⟨lexeme, start.position, newline⟩ :: found)

end Scan

/-- Cuts a fragment whose first character has the given place. -/
def tokenizeAt (text : String) (start : Position) : Except ScriptError (List Token) :=
  let chars := text.toList
  (Scan.tokens (chars.length + 1) []).run' ⟨chars, start⟩

def tokenize (text : String) : Except ScriptError (List Token) :=
  tokenizeAt text .start

end StrategyQubo.Script
