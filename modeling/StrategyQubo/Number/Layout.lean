import StrategyQubo.Number.Shortest

namespace StrategyQubo.Number

/-! # How numbers are written

Three layouts of the shortest decimal (script text, report text and JSON),
and the fixed-places layout, which rounds the exact value of a double.
-/

def zeros (count : Nat) : String :=
  String.ofList (List.replicate count '0')

/-- Digits with a point and without an exponent mark. -/
def Decimal.positional (d : Decimal) : String :=
  let text := toString d.digits
  if 0 ≤ d.exponent then
    if d.digits = 0 then "0" else text ++ zeros d.exponent.toNat
  else
    let places := (-d.exponent).toNat
    if text.length ≤ places then
      "0." ++ zeros (places - text.length) ++ text
    else
      let chars := text.toList
      String.ofList (chars.take (text.length - places)) ++ "." ++
        String.ofList (chars.drop (text.length - places))

/-- Whole numbers below `2 ^ 53` are written straight from their integer,
    which is the shortest decimal then. -/
def magnitudeText (value : Dyadic) : String :=
  if value.isWhole && value.wholePart < pow2 53 then
    toString value.wholePart
  else
    (shortest .up value.mantissa value.exponent).positional

/-- How a layout writes what is not an ordinary number. -/
structure Spelling where
  notANumber : String
  infinity : String
  negativeZero : String

def Spelling.write (spelling : Spelling) (x : Float) : String :=
  match decode x with
  | .nan => spelling.notANumber
  | .infinite negative => (if negative then "-" else "") ++ spelling.infinity
  | .finite value =>
      if value.mantissa = 0 then
        if value.negative then spelling.negativeZero else "0"
      else
        (if value.negative then "-" else "") ++ magnitudeText value

/-- Script text never shows the sign of zero. -/
def scriptSpelling : Spelling := ⟨"NaN", "Infinity", "0"⟩

/-- Reports show the sign of zero. -/
def reportSpelling : Spelling := ⟨"NaN", "inf", "-0"⟩

/-- A number the way script string conversion writes it: the shortest decimal
    that reads back, never with an exponent. -/
def scriptText (x : Float) : String :=
  scriptSpelling.write x

def reportText (x : Float) : String :=
  reportSpelling.write x

/-- One leading digit, the others behind a point, and the signed exponent. -/
def Decimal.scientific (d : Decimal) : String :=
  let chars := (toString d.digits).toList
  let exponent := d.exponent + chars.length - 1
  let lead := String.ofList (chars.take 1)
  let rest := String.ofList (chars.drop 1)
  let mark := if exponent < 0 then "e-" else "e+"
  lead ++ (if rest.isEmpty then "" else "." ++ rest) ++ mark ++ toString exponent.natAbs

/-- A nonzero decimal as JSON carries it: positional from `0.00001` up to below
    `10 ^ 16`, a whole one ending in `.0`, and scientific otherwise. -/
def Decimal.json (d : Decimal) : String :=
  let leading := d.exponent + (toString d.digits).length - 1
  if -5 ≤ leading ∧ leading < 16 then
    if 0 ≤ d.exponent then d.positional ++ ".0" else d.positional
  else
    d.scientific

/-- A finite double as JSON carries it; a halfway case between two shortest
    decimals goes to the even digit. -/
def jsonText (value : Dyadic) : String :=
  let magnitude :=
    if value.mantissa = 0 then "0.0"
    else (shortest .even value.mantissa value.exponent).json
  (if value.negative then "-" else "") ++ magnitude

/-- `numerator / denominator` to the nearest integer, a half to the even
    one. -/
def roundQuotient (numerator denominator : Nat) : Nat :=
  let floor := numerator / denominator
  if Tie.even.roundsUp floor (numerator % denominator) denominator then floor + 1 else floor

/-- The exact value rounded to `places` digits behind the point.  The sign
    stays, also where only zeros are left. -/
def fixedPlaces (places : Nat) (value : Dyadic) : String :=
  let numerator := value.mantissa * pow2 value.exponent.toNat * pow10 places
  let scaled := roundQuotient numerator (pow2 (-value.exponent).toNat)
  let text := toString scaled
  let padded := zeros (places + 1 - text.length) ++ text
  let chars := padded.toList
  let whole := String.ofList (chars.take (padded.length - places))
  let fraction := String.ofList (chars.drop (padded.length - places))
  (if value.negative then "-" else "") ++ whole ++
    (if places = 0 then "" else "." ++ fraction)

end StrategyQubo.Number
