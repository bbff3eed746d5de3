import StrategyQubo.Config
import StrategyQubo.Text.Blank

namespace StrategyQubo.Config.Inline

/-! # Values of environment variables

A variable holds a value in a short notation: truth values, numbers, quoted
text, lists in brackets and tables in braces.  Anything else is plain text.
-/

abbrev Reader := List Char → Option (Config × List Char)

def isBlank (c : Char) : Bool :=
  c == ' ' || c == '\t' || c == '\n' || c == '\r' || c == '\x0c'

def skipBlanks (text : List Char) : List Char :=
  text.dropWhile isBlank

/-- The characters that end plain text. -/
def isSeparator (c : Char) : Bool :=
  c == ',' || c == '{' || c == '}' || c == '[' || c == ']'

def isKeyChar (c : Char) : Bool :=
  c.isAlphanum || c == '_' || c == '-'

/-! ## Plain values -/

def pointed? (text : List Char) : Option Float :=
  let (negative, _, unsigned) := Number.spanSign text
  match Number.numeral? unsigned with
  | some n => some (if negative then -n.toFloat else n.toFloat)
  | none => none

/-- A whole number that fits into sixty-four bits, with a sign or without. -/
def integer? (text : List Char) : Option Int :=
  let (negative, _, digits) := Number.spanSign text
  if digits.isEmpty || !digits.all Char.isDigit then none
  else
    let magnitude := Number.digitsValue digits
    if negative then
      if magnitude ≤ Number.pow2 63 then some (-magnitude) else none
    else if magnitude < Number.pow2 64 then some magnitude
    else none

def plain (word : List Char) : Config :=
  match if word.contains '.' then pointed? word else none with
  | some x => real x
  | none =>
      match integer? word with
      | some n => integer n
      | none => text (String.ofList word)

def trimmed (word : List Char) : List Char :=
  Text.trimEnd (Text.trimStart word)

/-! ## Quoted text -/

def hexDigits? (count : Nat) (text : List Char) : Option (Char × List Char) :=
  let digits := text.take count
  match digits.mapM Number.hexDigitValue? with
  | some values =>
      let code := values.foldl (fun total digit => total * 16 + digit) 0
      if digits.length = count ∧ code.isValidChar then
        some (Char.ofNat code, text.drop count)
      else
        none
  | none => none

def escape? (text : List Char) : Option (Char × List Char) :=
  match text with
  | 'b' :: rest => some ('\x08', rest)
  | 't' :: rest => some ('\t', rest)
  | 'n' :: rest => some ('\n', rest)
  | 'f' :: rest => some ('\x0c', rest)
  | 'r' :: rest => some ('\r', rest)
  | '\x22' :: rest => some ('\x22', rest)
  | '\\' :: rest => some ('\\', rest)
  | 'u' :: rest => hexDigits? 4 rest
  | 'U' :: rest => hexDigits? 8 rest
  | _ => none

/-- The text up to the closing quote; the backslash escapes. -/
def quoted? : Nat → List Char → List Char → Option (String × List Char)
  | 0, _, _ => none
  | bound + 1, found, chars =>
      match chars with
      | [] => none
      | '\x22' :: rest => some (String.ofList found.reverse, rest)
      | '\\' :: rest =>
          match escape? rest with
          | some (c, rest) => quoted? bound (c :: found) rest
          | none => none
      | c :: rest => quoted? bound (c :: found) rest

/-! ## Containers -/

def after? (word : String) (chars : List Char) : Option (List Char) :=
  if word.toList.isPrefixOf chars then some (chars.drop word.length) else none

/-- Items with commas between them, up to a closing bracket.  A comma may stand
    before the bracket. -/
def items? {α : Type} (read : List Char → Option (α × List Char)) (closing : Char) :
    Nat → List α → List Char → Option (List α × List Char)
  | 0, _, _ => none
  | bound + 1, found, chars =>
      if chars.head? = some closing then some (found.reverse, chars.drop 1)
      else
        match read chars with
        | none => none
        | some (item, rest) =>
            match rest with
            | ',' :: rest => items? read closing bound (item :: found) rest
            | c :: rest => if c = closing then some ((item :: found).reverse, rest) else none
            | [] => none

def key? (bound : Nat) (chars : List Char) : Option (String × List Char) :=
  match chars with
  | '\x22' :: rest => quoted? bound [] rest
  | _ =>
      let word := chars.takeWhile isKeyChar
      if word.isEmpty then none else some (String.ofList word, chars.drop word.length)

def assignment? (read : Reader) (bound : Nat) (chars : List Char) :
    Option ((String × Config) × List Char) :=
  match key? bound (skipBlanks chars) with
  | none => none
  | some (key, rest) =>
      match skipBlanks rest with
      | '=' :: rest => (read rest).map fun (value, rest) => ((key, value), rest)
      | _ => none

/-- Of a key given twice the last value counts. -/
def tableOf (entries : List (String × Config)) : Config :=
  table (entries.foldl (fun table (key, value) => alter key (fun _ => value) table) [])

def valueWith? (read : Reader) (bound : Nat) (chars : List Char) : Option (Config × List Char) :=
  match after? "true" chars, after? "false" chars with
  | some rest, _ => some (bool true, rest)
  | _, some rest => some (bool false, rest)
  | none, none =>
      match chars with
      | '{' :: rest =>
          (items? (assignment? read bound) '}' bound [] rest).map fun (entries, rest) =>
            (tableOf entries, rest)
      | '[' :: rest =>
          (items? read ']' bound [] rest).map fun (items, rest) => (list items, rest)
      | '\x22' :: rest => (quoted? bound [] rest).map fun (value, rest) => (text value, rest)
      | '\'' :: c :: '\'' :: rest => some (text c.toString, rest)
      | '\'' :: _ => none
      | _ =>
          let word := chars.takeWhile fun c => !isSeparator c
          some (plain (trimmed word), chars.drop word.length)

def value? : Nat → Reader
  | 0 => fun _ => none
  | bound + 1 => fun chars =>
      (valueWith? (value? bound) (chars.length + 1) (skipBlanks chars)).map fun (value, rest) =>
        (value, skipBlanks rest)

end Inline

/-- The value that a variable of the environment holds. -/
def ofVariable (content : String) : Config :=
  let chars := content.toList
  match Inline.value? (chars.length + 1) chars with
  | some (value, []) => value
  | _ => text content

/-! ## Names of variables -/

/-- The parts of a name between double underscores. -/
def splitName : List Char → List Char → List String
  | [], part => [String.ofList part.reverse]
  | '_' :: '_' :: rest, part => String.ofList part.reverse :: splitName rest []
  | '.' :: rest, part => String.ofList part.reverse :: splitName rest []
  | c :: rest, part => splitName rest (c :: part)

/-- A value below the given keys, up to the first empty one. -/
def nest (keys : List String) (value : Config) : Config :=
  match keys with
  | [] => value
  | key :: rest => if key.isEmpty then value else table [(key, nest rest value)]

/-- The layer of a variable, if its name has the given beginning.  The case of
    letters in names does not matter. -/
def ofNamedVariable? (start name content : String) : Option Config :=
  let letters := (Text.trim name).toList.map Char.toLower
  if start.toList.isPrefixOf letters then
    let keys := splitName (letters.drop start.length) []
    if keys.head? = some "" then none else some (nest keys (ofVariable content))
  else
    none

/-- The layer of all variables with the given beginning; later ones lie over
    earlier ones. -/
def ofVariables (start : String) (entries : List (String × String)) : Config :=
  entries.foldl (fun below (name, content) =>
    match ofNamedVariable? start name content with
    | some layer => layer.onto (some below)
    | none => below) empty

end StrategyQubo.Config
