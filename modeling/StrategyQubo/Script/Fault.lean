import StrategyQubo.Number.Layout
import StrategyQubo.Script.Token

namespace StrategyQubo.Script

/-! # What can go wrong with a script

Each fault is a cause with its data; the wording is decided in one place per
kind.  Limits are faults of their own: a script cannot catch them.
-/

/-- Why a text is not a program. -/
inductive SyntaxFault where
  | unterminatedComment
  | unterminatedString
  | unterminatedEscape
  | unterminatedTemplate
  | unterminatedHole
  | unterminatedHoleString
  | malformedHexNumber
  | malformedHexEscape
  | malformedUnicodeEscape
  | escapeOutOfRange
  | identifierAfterNumber
  | unexpectedCharacter (c : Char)
  | expected (what : String) (found : Lexeme)
  | nestingTooDeep (limit : Nat)

def Lexeme.description : Lexeme → String
  | .endOfInput => "end of input"
  | .identifier name => "identifier '" ++ name ++ "'"
  | .keyword word => "keyword '" ++ word.spelling ++ "'"
  | .number value => "number " ++ Number.scriptText value
  | .string _ => "string"
  | .template _ => "string"
  | .mark found => found.title

def SyntaxFault.message : SyntaxFault → String
  | .unterminatedComment => "unterminated block comment"
  | .unterminatedString => "unterminated string literal"
  | .unterminatedEscape => "unterminated escape sequence"
  | .unterminatedTemplate => "unterminated template literal"
  | .unterminatedHole => "unterminated template expression"
  | .unterminatedHoleString => "unterminated string in template expression"
  | .malformedHexNumber => "malformed hexadecimal literal"
  | .malformedHexEscape => "malformed hexadecimal escape"
  | .malformedUnicodeEscape => "malformed unicode escape"
  | .escapeOutOfRange => "escape does not name a character"
  | .identifierAfterNumber => "identifier starts immediately after numeric literal"
  | .unexpectedCharacter c => "unexpected character '" ++ c.toString ++ "'"
  | .expected what found => "expected " ++ what ++ ", found " ++ found.description
  | .nestingTooDeep limit => "nesting deeper than " ++ toString limit ++ " levels"

/-- Why an operation does not apply to a value.  Values appear as the text
    they convert to. -/
inductive TypeFault where
  | notAFunction (callee : String)
  | notACallback (value method : String)
  | notAConstructor (callee : String)
  | notIterable (value : String)
  | constantAssignment (name : String)
  | readOfNothing (value key : String)
  | writeToNothing (value key : String)
  | searchIn (key value : String)
  | arrayLength (requested : Float)
  | objectOfNothing
  | emptyReduce
  | fixedDigits
  | radix

def TypeFault.message : TypeFault → String
  | .notAFunction callee => callee ++ " is not a function"
  | .notACallback value method => value ++ " is not a function (in Array." ++ method ++ ")"
  | .notAConstructor callee => callee ++ " is not a constructor"
  | .notIterable value => value ++ " is not iterable"
  | .constantAssignment name => "Assignment to constant variable '" ++ name ++ "'"
  | .readOfNothing value key =>
      "Cannot read properties of " ++ value ++ " (reading '" ++ key ++ "')"
  | .writeToNothing value key =>
      "Cannot set properties of " ++ value ++ " (setting '" ++ key ++ "')"
  | .searchIn key value =>
      "Cannot use 'in' operator to search for '" ++ key ++ "' in " ++ value
  | .arrayLength requested => "Invalid array length " ++ Number.scriptText requested
  | .objectOfNothing => "Cannot convert undefined or null to object"
  | .emptyReduce => "Reduce of empty array with no initial value"
  | .fixedDigits => "toFixed() digits argument must be between 0 and 100"
  | .radix => "toString() radix must be between 2 and 36"

inductive ScriptError where
  | syntaxFault (position : Position) (fault : SyntaxFault)
  | reference (name : String)
  | type (fault : TypeFault)
  | thrown (text : String)
  | stepBudgetExhausted (budget : Nat)
  | timeBudgetExhausted (milliseconds : Nat)
  | callDepthExceeded (limit : Nat)
  | nestingTooDeep (limit : Nat)
  | collectionTooLarge (requested limit : Nat)

namespace ScriptError

def message : ScriptError → String
  | syntaxFault position fault =>
      "Syntax Error (" ++ toString position.line ++ ":" ++ toString position.column ++ "): " ++
        fault.message
  | reference name => "Reference Error: " ++ name ++ " is not defined"
  | type fault => "Type Error: " ++ fault.message
  | thrown text => "Uncaught: " ++ text
  | stepBudgetExhausted budget => "Step budget of " ++ toString budget ++ " exhausted"
  | timeBudgetExhausted milliseconds =>
      "Time budget of " ++ toString milliseconds ++ " ms exhausted"
  | callDepthExceeded limit => "Maximum call depth of " ++ toString limit ++ " exceeded"
  | nestingTooDeep limit => "Nesting deeper than " ++ toString limit ++ " levels"
  | collectionTooLarge requested limit =>
      "Collection of " ++ toString requested ++ " elements exceeds limit of " ++ toString limit

/-- Whether a catch clause may intercept the error. -/
def isCatchable : ScriptError → Bool
  | reference _ => true
  | type _ => true
  | thrown _ => true
  | _ => false

/-- The name and the message that a script sees in a caught error which it did
    not throw itself. -/
def scriptView : ScriptError → String × String
  | reference name => ("ReferenceError", name ++ " is not defined")
  | type fault => ("TypeError", fault.message)
  | thrown text => ("Error", text)
  | other@(syntaxFault _ _) => ("SyntaxError", other.message)
  | other => ("RangeError", other.message)

end ScriptError

end StrategyQubo.Script
