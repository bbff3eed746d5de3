import StrategyQubo.Number.Layout

namespace StrategyQubo

/-! # JSON values

Values keep the order of their fields and repeated fields, as a text has them.
A text may also hold tokens that are written correctly and yet stand for
nothing: a number beyond every double, or half of a surrogate pair.  They are
kept as such, since a reader may skip them.
-/

inductive Json where
  | null
  | bool (value : Bool)
  | integer (value : Int)
  | double (value : Float)
  | string (text : String)
  | array (items : List Json)
  | object (fields : List (Option String × Json))
  /-- A number or a string without a value. -/
  | meaningless

namespace Json

/-- An object whose keys are all texts. -/
def record (fields : List (String × Json)) : Json :=
  object (fields.map fun (key, value) => (some key, value))

/-- A number of a document: whole numbers of at most fifty-three bits are
    integers, and what is not finite has no number. -/
def ofNumber (x : Float) : Json :=
  match Number.decode x with
  | .finite value =>
      if value.isWhole && value.wholePart < Number.pow2 53 then
        integer (if value.negative then -value.wholePart else value.wholePart)
      else
        double x
  | _ => null

/-! ## Writing -/

def hexDigit (n : Nat) : Char :=
  if n < 10 then Char.ofNat ('0'.toNat + n) else Char.ofNat ('a'.toNat + (n - 10))

/-- Quotes, backslashes and control characters are escaped, nothing else. -/
def escapeChar (c : Char) : String :=
  if c = '\x22' then "\\\""
  else if c = '\\' then "\\\\"
  else if c = '\n' then "\\n"
  else if c = '\r' then "\\r"
  else if c = '\t' then "\\t"
  else if c = '\x08' then "\\b"
  else if c = '\x0c' then "\\f"
  else if c.toNat < 32 then
    "\\u00" ++ String.ofList [hexDigit (c.toNat / 16), hexDigit (c.toNat % 16)]
  else c.toString

def quoted (text : String) : String :=
  "\"" ++ String.join (text.toList.map escapeChar) ++ "\""

def doubleText (x : Float) : String :=
  match Number.decode x with
  | .finite value => Number.jsonText value
  | _ => "null"

mutual

def compact : Json → String
  | null => "null"
  | bool value => if value then "true" else "false"
  | integer value => toString value
  | double value => doubleText value
  | string text => quoted text
  | array items => "[" ++ compactItems items ++ "]"
  | object fields => "\x7b" ++ compactFields fields ++ "\x7d"
  | meaningless => "null"

def compactItems : List Json → String
  | [] => ""
  | [item] => item.compact
  | item :: rest => item.compact ++ "," ++ compactItems rest

def compactFields : List (Option String × Json) → String
  | [] => ""
  | [(key, value)] => quoted (key.getD "") ++ ":" ++ value.compact
  | (key, value) :: rest =>
      quoted (key.getD "") ++ ":" ++ value.compact ++ "," ++ compactFields rest

end

/-- A line end and two blanks for each level. -/
def lineBreak (level : Nat) : String :=
  "\n" ++ String.join (List.replicate level "  ")

mutual

/-- The text with one item or field to a line, below a level of
    indentation. -/
def indented (level : Nat) : Json → String
  | array [] => "[]"
  | array items => "[" ++ indentedItems (level + 1) items ++ lineBreak level ++ "]"
  | object [] => "\x7b\x7d"
  | object fields => "\x7b" ++ indentedFields (level + 1) fields ++ lineBreak level ++ "\x7d"
  | null => "null"
  | bool value => if value then "true" else "false"
  | integer value => toString value
  | double value => doubleText value
  | string text => quoted text
  | meaningless => "null"

def indentedItems (level : Nat) : List Json → String
  | [] => ""
  | [item] => lineBreak level ++ item.indented level
  | item :: rest => lineBreak level ++ item.indented level ++ "," ++ indentedItems level rest

def indentedFields (level : Nat) : List (Option String × Json) → String
  | [] => ""
  | [(key, value)] =>
      lineBreak level ++ quoted (key.getD "") ++ ": " ++ value.indented level
  | (key, value) :: rest =>
      lineBreak level ++ quoted (key.getD "") ++ ": " ++ value.indented level ++ "," ++
        indentedFields level rest

end

def pretty (value : Json) : String :=
  value.indented 0

/-! ## Canonical form -/

/-- Puts a field into a list that is sorted by key, in place of an older field
    of that key. -/
def insertField (key : String) (value : Json) : List (String × Json) → List (String × Json)
  | [] => [(key, value)]
  | (other, old) :: rest =>
      if key = other then (key, value) :: rest
      else if key < other then (key, value) :: (other, old) :: rest
      else (other, old) :: insertField key value rest

mutual

/-- Every object with its fields sorted by key, of repeated fields the last.
    Nothing comes of a value with a meaningless part. -/
def canonical? : Json → Option Json
  | array items => (canonicalItems? items).map array
  | object fields => (canonicalFields? fields []).map record
  | meaningless => none
  | null => some null
  | bool value => some (bool value)
  | integer value => some (integer value)
  | double value => some (double value)
  | string text => some (string text)

def canonicalItems? : List Json → Option (List Json)
  | [] => some []
  | item :: rest =>
      match item.canonical?, canonicalItems? rest with
      | some item, some rest => some (item :: rest)
      | _, _ => none

def canonicalFields? :
    List (Option String × Json) → List (String × Json) → Option (List (String × Json))
  | [], sorted => some sorted
  | (key, value) :: rest, sorted =>
      match key, value.canonical? with
      | some key, some value => canonicalFields? rest (insertField key value sorted)
      | _, _ => none

end

end Json

end StrategyQubo
