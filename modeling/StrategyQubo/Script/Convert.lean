import StrategyQubo.Number.Literal
import StrategyQubo.Script.Display
import StrategyQubo.Text.Blank

namespace StrategyQubo.Script

/-! # Values as numbers and keys

Numeric conversion, the loose and the relational comparison, and the property
that a value addresses.
-/

/-- The number that a whole text stands for.  Blanks around it are ignored and
    no text at all is zero.  A hexadecimal number has no sign. -/
def textToNumber (text : String) : Float :=
  let trimmed := Text.trimEnd (Text.trimStart text.toList)
  let (negative, signWidth, unsigned) := Number.spanSign trimmed
  let withSign (x : Float) : Float := if negative then -x else x
  let hexadecimal (digits : List Char) : Float :=
    if signWidth = 0 then
      match Number.hexNumber? (Number.pow2 64) digits with
      | some value => Number.nearest value 0
      | none => Number.notANumber
    else
      Number.notANumber
  if trimmed.isEmpty then
    0.0
  else if unsigned = "Infinity".toList then
    withSign Number.infinity
  else
    match unsigned with
    | '0' :: 'x' :: digits => hexadecimal digits
    | '0' :: 'X' :: digits => hexadecimal digits
    | _ =>
        match Number.numeral? unsigned with
        | some numeral => withSign numeral.toFloat
        | none => Number.notANumber

/-- Whether a digit of this radix, and which. -/
def digitValue? (radix : Nat) (c : Char) : Option Nat :=
  let value? :=
    if c.isDigit then some (c.toNat - '0'.toNat)
    else if 'a' ≤ c ∧ c ≤ 'z' then some (c.toNat - 'a'.toNat + 10)
    else if 'A' ≤ c ∧ c ≤ 'Z' then some (c.toNat - 'A'.toNat + 10)
    else none
  value?.filter (· < radix)

/-- The digits at the front of a text, as far as they reach. -/
def leadingDigits (radix : Nat) : List Char → List Nat
  | [] => []
  | c :: rest =>
      match digitValue? radix c with
      | some digit => digit :: leadingDigits radix rest
      | none => []

/-- The integer at the front of a text.  Radix zero means that none was given:
    a hexadecimal mark selects sixteen then, and ten is meant otherwise. -/
def parseInteger (text : String) (radix : Nat) : Float :=
  let (negative, _, unsigned) := Number.spanSign (Text.trimStart text.toList)
  let (radix, digits) :=
    if radix = 0 ∨ radix = 16 then
      match unsigned with
      | '0' :: 'x' :: rest => (16, rest)
      | '0' :: 'X' :: rest => (16, rest)
      | _ => (if radix = 0 then 10 else radix, unsigned)
    else
      (radix, unsigned)
  if radix < 2 ∨ 36 < radix then
    Number.notANumber
  else
    match leadingDigits radix digits with
    | [] => Number.notANumber
    | digits =>
        let scale := Number.nearest radix 0
        let magnitude := digits.foldl (fun total d => total * scale + Number.nearest d 0) 0.0
        if negative then -magnitude else magnitude

/-- The decimal number at the front of a text: as much of it as is a
    numeral. -/
def parseDecimal (text : String) : Float :=
  let (negative, _, unsigned) := Number.spanSign (Text.trimStart text.toList)
  let withSign (x : Float) : Float := if negative then -x else x
  if "Infinity".toList.isPrefixOf unsigned then
    withSign Number.infinity
  else
    match Number.spanNumeral? unsigned with
    | some (numeral, _) => withSign numeral.toFloat
    | none => Number.notANumber

namespace Value

/-- Numeric conversion.  An array converts through its text. -/
def toNumber (h : Heap) (value : Value) : Float :=
  match value with
  | undefined => Number.notANumber
  | null => 0.0
  | bool value => if value then 1.0 else 0.0
  | number value => value
  | string text => textToNumber text
  | array _ => textToNumber (value.display h)
  | object _ => Number.notANumber
  | closure _ => Number.notANumber
  | builtin _ => Number.notANumber
  | bound _ _ => Number.notANumber

/-- The `==` relation of two values of which none is a container. -/
def looseEqualsScalar (h : Heap) (a b : Value) : Bool :=
  match a, b with
  | number _, string _ => a.toNumber h == b.toNumber h
  | number _, bool _ => a.toNumber h == b.toNumber h
  | string _, number _ => a.toNumber h == b.toNumber h
  | bool _, number _ => a.toNumber h == b.toNumber h
  | bool _, string _ => a.toNumber h == b.toNumber h
  | string _, bool _ => a.toNumber h == b.toNumber h
  | _, _ => a.strictEquals b

/-- Containers compare with strings and numbers through their text. -/
def looseText (h : Heap) (value other : Value) : Value :=
  match value, other with
  | array _, string _ => string (value.display h)
  | array _, number _ => string (value.display h)
  | object _, string _ => string (value.display h)
  | object _, number _ => string (value.display h)
  | _, _ => value

/-- The `==` relation.  `undefined` and `null` equal each other and nothing
    else. -/
def looseEquals (h : Heap) (a b : Value) : Bool :=
  if a.isNullish || b.isNullish then
    a.isNullish && b.isNullish
  else
    (a.looseText h b).looseEqualsScalar h (b.looseText h a)

/-- Two strings compare by code points, anything else as numbers; NaN does not
    compare. -/
def compare? (h : Heap) (a b : Value) : Option Ordering :=
  match a, b with
  | string x, string y => some (if x < y then .lt else if x == y then .eq else .gt)
  | _, _ =>
      let x := a.toNumber h
      let y := b.toNumber h
      if x < y then some .lt
      else if x == y then some .eq
      else if y < x then some .gt
      else none

/-- The property name that an index or a computed key addresses. -/
def propertyKey (h : Heap) (value : Value) : String :=
  match value with
  | number value => Number.scriptText value
  | value => value.display h

end Value

end StrategyQubo.Script
