import StrategyQubo.Number.Binary64

namespace StrategyQubo.Number

/-! # Reading decimal text

A decimal literal is cut into its digits and its exponent first; the double
nearest to that decimal comes second.
-/

/-- The value of a list of decimal digits. -/
def digitsValue (digits : List Char) : Nat :=
  digits.foldl (fun total c => total * 10 + (c.toNat - '0'.toNat)) 0

/-- The double nearest to `digits * 10 ^ exponent`.  Outside the range where a
    double can lie, the answer is infinite or zero without computing the
    power. -/
def nearest (digits : Nat) (exponent : Int) : Float :=
  let top : Int := (Nat.log2 digits : Int) * 30102 / 100000 + exponent
  if digits = 0 then 0.0
  else if 310 < top then infinity
  else if top < -360 then 0.0
  else Float.ofScientific digits (exponent < 0) exponent.natAbs

/-- The written parts of an unsigned decimal numeral, and how many characters
    it was read from. -/
structure Numeral where
  whole : List Char
  fraction : List Char
  exponent : Int
  width : Nat
  deriving DecidableEq

def Numeral.toFloat (n : Numeral) : Float :=
  nearest (digitsValue (n.whole ++ n.fraction)) (n.exponent - n.fraction.length)

/-- The longest run of decimal digits, and what follows it. -/
def spanDigits (text : List Char) : List Char × List Char :=
  (text.takeWhile Char.isDigit, text.dropWhile Char.isDigit)

/-- A sign if any: whether it is a minus, how many characters it takes, and
    what follows it. -/
def spanSign (text : List Char) : Bool × Nat × List Char :=
  match text with
  | '-' :: rest => (true, 1, rest)
  | '+' :: rest => (false, 1, rest)
  | _ => (false, 0, text)

/-- A mark, a sign if any, and at least one digit; with no digit there is no
    exponent part.  The middle component counts the characters taken. -/
def spanExponent (text : List Char) : Int × Nat × List Char :=
  match text with
  | mark :: rest =>
      if mark = 'e' ∨ mark = 'E' then
        let (negative, width, unsigned) := spanSign rest
        let (digits, after) := spanDigits unsigned
        if digits.isEmpty then (0, 0, text)
        else
          let value : Int := digitsValue digits
          (if negative then -value else value, 1 + width + digits.length, after)
      else
        (0, 0, text)
  | [] => (0, 0, text)

/-- The longest prefix that is an unsigned numeral: digits, a point and digits,
    an exponent.  At least one digit stands before or behind the point. -/
def spanNumeral? (text : List Char) : Option (Numeral × List Char) :=
  let (whole, afterWhole) := spanDigits text
  let (point, fraction, afterFraction) := match afterWhole with
    | '.' :: rest => (1, spanDigits rest)
    | _ => (0, [], afterWhole)
  if whole.isEmpty && fraction.isEmpty then
    none
  else
    let (exponent, width, rest) := spanExponent afterFraction
    some (⟨whole, fraction, exponent, whole.length + point + fraction.length + width⟩, rest)

/-- A text that is an unsigned numeral to its end. -/
def numeral? (text : List Char) : Option Numeral :=
  match spanNumeral? text with
  | some (n, []) => some n
  | _ => none

def hexDigitValue? (c : Char) : Option Nat :=
  if c.isDigit then some (c.toNat - '0'.toNat)
  else if 'a' ≤ c ∧ c ≤ 'f' then some (c.toNat - 'a'.toNat + 10)
  else if 'A' ≤ c ∧ c ≤ 'F' then some (c.toNat - 'A'.toNat + 10)
  else none

def isHexDigit (c : Char) : Bool :=
  (hexDigitValue? c).isSome

/-- Hexadecimal digits, at least one, with a plus sign allowed in front, of a
    number below `bound`. -/
def hexNumber? (bound : Nat) (text : List Char) : Option Nat :=
  let digits := match text with
    | '+' :: rest => rest
    | _ => text
  if digits.isEmpty then
    none
  else
    match digits.mapM hexDigitValue? with
    | some values =>
        let total := values.foldl (fun total d => total * 16 + d) 0
        if total < bound then some total else none
    | none => none

end StrategyQubo.Number
