import StrategyQubo.Json
import StrategyQubo.Number.Literal

namespace StrategyQubo.Json.Read

/-! # Reading JSON

A reader takes a value off the front of a text.  Containers may be nested as
deeply as the caller says.
-/

def isBlank (c : Char) : Bool :=
  c == ' ' || c == '\t' || c == '\n' || c == '\r'

def skipBlanks (text : List Char) : List Char :=
  text.dropWhile isBlank

def after? (word text : List Char) : Option (List Char) :=
  if word.isPrefixOf text then some (text.drop word.length) else none

/-! ## Numbers -/

/-- The integer that fits into sixty-four bits, and the power of ten for digits
    that do not fit.  Digits behind the point that do not fit are dropped. -/
structure Scaled where
  digits : Nat
  exponent : Int

def fits (digits : Nat) (c : Char) : Bool :=
  digits * 10 + Number.digitsValue [c] < Number.pow2 64

/-- Once a digit does not fit, it and the later ones only count. -/
def scaleWhole : List Char → Scaled → Scaled
  | [], s => s
  | c :: rest, s =>
      if fits s.digits c then
        scaleWhole rest ⟨s.digits * 10 + Number.digitsValue [c], s.exponent⟩
      else
        ⟨s.digits, s.exponent + 1 + rest.length⟩

def scaleFraction : List Char → Scaled → Scaled
  | [], s => s
  | c :: rest, s =>
      if fits s.digits c then
        scaleFraction rest ⟨s.digits * 10 + Number.digitsValue [c], s.exponent - 1⟩
      else
        s

/-- Divides by `10 ^ 308` until the exponent can be applied in one operation;
    zero needs none. -/
def descend : Nat → Float → Int → Float × Int
  | 0, x, exponent => (x, exponent)
  | bound + 1, x, exponent =>
      if exponent < -308 ∧ x != 0.0 then
        descend bound (x / Number.nearest 1 308) (exponent + 308)
      else
        (x, exponent)

/-- The digits as a double, times or divided by one power of ten.  Nothing
    comes of a number above the finite doubles. -/
def Scaled.toFloat? (s : Scaled) : Option Float :=
  let start := Number.nearest s.digits 0
  if start == 0.0 then
    some 0.0
  else if 308 < s.exponent then
    none
  else if 0 ≤ s.exponent then
    let x := start * Number.nearest 1 s.exponent
    if Number.isFinite x then some x else none
  else
    let (x, exponent) := descend 8 start (max s.exponent (-2000))
    some (if x == 0.0 then x else x / Number.nearest 1 (-exponent))

/-- A number without its sign: it begins with no extra zero, and a digit stands
    behind a point.  The flag tells that it has neither point nor exponent. -/
def unsignedNumber? (text : List Char) : Option (Number.Numeral × Bool × List Char) :=
  match Number.spanNumeral? text with
  | none => none
  | some (numeral, rest) =>
      let plain := numeral.width = numeral.whole.length
      let point := text.drop numeral.whole.length |>.head? |>.any (· == '.')
      let dangling := match rest with
        | 'e' :: _ => true
        | 'E' :: _ => true
        | _ => false
      if numeral.whole.isEmpty || (point && numeral.fraction.isEmpty) || dangling then
        none
      else if numeral.whole.head? = some '0' ∧ 1 < numeral.whole.length then
        none
      else
        some (numeral, plain, rest)

/-- An integer, if it fits into sixty-four bits, or else a double. -/
def numberValue (negative plain : Bool) (numeral : Number.Numeral) : Json :=
  let whole := Number.digitsValue numeral.whole
  if plain && !negative && whole < Number.pow2 64 then
    integer whole
  else if plain && negative && 0 < whole && whole ≤ Number.pow2 63 then
    integer (-whole)
  else
    let s := scaleFraction numeral.fraction (scaleWhole numeral.whole ⟨0, 0⟩)
    match Scaled.toFloat? { s with exponent := s.exponent + numeral.exponent } with
    | some x => double (if negative then -x else x)
    | none => meaningless

def number? (text : List Char) : Option (Json × List Char) :=
  let (negative, unsigned) := match text with
    | '-' :: rest => (true, rest)
    | _ => (false, text)
  (unsignedNumber? unsigned).map fun (numeral, plain, rest) =>
    (numberValue negative plain numeral, rest)

/-! ## Strings -/

def codeUnit? (text : List Char) : Option (Nat × List Char) :=
  match text with
  | a :: b :: c :: d :: rest =>
      match [a, b, c, d].mapM Number.hexDigitValue? with
      | some digits => some (digits.foldl (fun total digit => total * 16 + digit) 0, rest)
      | none => none
  | _ => none

/-- What follows an escape of the second half of a surrogate pair, and that
    half. -/
def lowSurrogate? (text : List Char) : Option (Nat × List Char) :=
  match text with
  | '\\' :: 'u' :: rest =>
      match codeUnit? rest with
      | some (unit, rest) => if 0xDC00 ≤ unit ∧ unit < 0xE000 then some (unit, rest) else none
      | none => none
  | _ => none

/-- The character of an escape, and what follows it.  The character is missing
    if the escape is half of a surrogate pair without the other half. -/
def escape? (text : List Char) : Option (Option Char × List Char) :=
  match text with
  | '\x22' :: rest => some (some '\x22', rest)
  | '\\' :: rest => some (some '\\', rest)
  | '/' :: rest => some (some '/', rest)
  | 'b' :: rest => some (some '\x08', rest)
  | 'f' :: rest => some (some '\x0c', rest)
  | 'n' :: rest => some (some '\n', rest)
  | 'r' :: rest => some (some '\r', rest)
  | 't' :: rest => some (some '\t', rest)
  | 'u' :: rest =>
      match codeUnit? rest with
      | none => none
      | some (unit, rest) =>
          if 0xD800 ≤ unit ∧ unit < 0xDC00 then
            match lowSurrogate? rest with
            | some (low, rest) =>
                some (some (Char.ofNat (0x10000 + (unit - 0xD800) * 0x400 + (low - 0xDC00))), rest)
            | none => some (none, rest)
          else if 0xDC00 ≤ unit ∧ unit < 0xE000 then
            some (none, rest)
          else
            some (some (Char.ofNat unit), rest)
  | _ => none

/-- The rest of a string literal behind its opening quote.  No text comes of it
    if one of its characters is missing. -/
def stringBody? : Nat → Option String → List Char → Option (Option String × List Char)
  | 0, _, _ => none
  | bound + 1, text, chars =>
      match chars with
      | [] => none
      | '\x22' :: rest => some (text, rest)
      | '\\' :: rest =>
          match escape? rest with
          | none => none
          | some (c, rest) =>
              stringBody? bound (text.bind fun text => c.map fun c => text.push c) rest
      | c :: rest =>
          if c.toNat < 32 then none else stringBody? bound (text.map (·.push c)) rest

/-! ## Values -/

abbrev Reader := List Char → Option (Json × List Char)

def laterItems? (read : Reader) : Nat → List Json → Reader
  | 0, _, _ => none
  | bound + 1, found, text =>
      match skipBlanks text with
      | ']' :: rest => some (array found.reverse, rest)
      | ',' :: rest =>
          match read (skipBlanks rest) with
          | some (item, rest) => laterItems? read bound (item :: found) rest
          | none => none
      | _ => none

def items? (read : Reader) (bound : Nat) (text : List Char) : Option (Json × List Char) :=
  match skipBlanks text with
  | ']' :: rest => some (array [], rest)
  | text =>
      match read text with
      | some (item, rest) => laterItems? read bound [item] rest
      | none => none

def field? (read : Reader) (bound : Nat) (text : List Char) :
    Option ((Option String × Json) × List Char) :=
  match text with
  | '\x22' :: rest =>
      match stringBody? bound (some "") rest with
      | some (key, rest) =>
          match skipBlanks rest with
          | ':' :: rest =>
              (read (skipBlanks rest)).map fun (value, rest) => ((key, value), rest)
          | _ => none
      | none => none
  | _ => none

def laterFields? (read : Reader) (bound : Nat) :
    Nat → List (Option String × Json) → Reader
  | 0, _, _ => none
  | turns + 1, found, text =>
      match skipBlanks text with
      | '}' :: rest => some (object found.reverse, rest)
      | ',' :: rest =>
          match field? read bound (skipBlanks rest) with
          | some (field, rest) => laterFields? read bound turns (field :: found) rest
          | none => none
      | _ => none

def fields? (read : Reader) (bound : Nat) (text : List Char) : Option (Json × List Char) :=
  match skipBlanks text with
  | '}' :: rest => some (object [], rest)
  | text =>
      match field? read bound text with
      | some (field, rest) => laterFields? read bound bound [field] rest
      | none => none

/-- A value that begins with the first character.  Containers are read by what
    is given for them. -/
def valueWith? (bound : Nat) (openArray openObject : Reader) (text : List Char) :
    Option (Json × List Char) :=
  match text with
  | '\x22' :: rest =>
      match stringBody? bound (some "") rest with
      | some (some text, rest) => some (string text, rest)
      | some (none, rest) => some (meaningless, rest)
      | none => none
  | '[' :: rest => openArray rest
  | '{' :: rest => openObject rest
  | 'n' :: _ => (after? "null".toList text).map fun rest => (null, rest)
  | 't' :: _ => (after? "true".toList text).map fun rest => (bool true, rest)
  | 'f' :: _ => (after? "false".toList text).map fun rest => (bool false, rest)
  | _ => number? text

def value? (bound : Nat) : Nat → Reader
  | 0 => valueWith? bound (fun _ => none) (fun _ => none)
  | room + 1 => fun text =>
      let read := value? bound room
      valueWith? bound (items? read bound) (fields? read bound) text

end Read

/-- Reads a whole text; only blanks may stand around the value. -/
def parseWithin? (room : Nat) (text : String) : Option Json :=
  let chars := text.toList
  match Read.value? (chars.length + 1) room (Read.skipBlanks chars) with
  | some (value, rest) => if (Read.skipBlanks rest).isEmpty then some value else none
  | none => none

/-- Reads a text into a value with as many open containers as it likes. -/
def parse? (text : String) : Option Json :=
  parseWithin? text.length text

def maxDepth : Nat := 127

/-- Reads a text in which every token has a value and containers are not
    nested too deeply, into canonical form. -/
def parseStrict? (text : String) : Option Json :=
  (parseWithin? maxDepth text).bind canonical?

end StrategyQubo.Json
