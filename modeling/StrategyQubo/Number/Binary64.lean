import StrategyQubo.Number.Power

namespace StrategyQubo.Number

/-! # Doubles as exact numbers

A finite double is a signed integer times a power of two.  Rounding to
integers, the exact remainder and the decimal printers all work on that pair,
so none of them loses a bit that the double holds.
-/

/-- The number `mantissa * 2 ^ exponent`, negated when `negative`.  A zero
    mantissa keeps its sign. -/
structure Dyadic where
  negative : Bool
  mantissa : Nat
  exponent : Int
  deriving DecidableEq, Repr

/-- What the sixty-four bits of a double stand for. -/
inductive Reading where
  | nan
  | infinite (negative : Bool)
  | finite (value : Dyadic)
  deriving DecidableEq, Repr

/-- A biased exponent of zero leaves out the hidden bit; one of all ones is no
    number. -/
def decode (x : Float) : Reading :=
  let bits := x.toBits.toNat
  let negative := decide (bits / pow2 63 = 1)
  let biased : Nat := bits / pow2 52 % pow2 11
  let fraction : Nat := bits % pow2 52
  if biased = 2047 then
    if fraction = 0 then .infinite negative else .nan
  else if biased = 0 then
    .finite ⟨negative, fraction, -1074⟩
  else
    .finite ⟨negative, fraction + pow2 52, (biased : Int) - 1075⟩

/-- The double with this value, for a mantissa below `2 ^ 53` and an exponent
    no smaller than `-1074`.  The mantissa moves up until its hidden bit is set
    or the exponent is the least one. -/
def Dyadic.toFloat (value : Dyadic) : Float :=
  let sign := if value.negative then pow2 63 else 0
  let room := 53 - (Nat.log2 value.mantissa + 1)
  let shift := min room (value.exponent + 1074).toNat
  let mantissa := value.mantissa * pow2 shift
  let exponent := value.exponent - shift
  if value.mantissa = 0 then
    Float.ofBits (UInt64.ofNat sign)
  else if mantissa < pow2 52 then
    Float.ofBits (UInt64.ofNat (sign + mantissa))
  else
    Float.ofBits (UInt64.ofNat
      (sign + (exponent + 1075).toNat * pow2 52 + (mantissa - pow2 52)))

def Dyadic.wholePart (value : Dyadic) : Nat :=
  if 0 ≤ value.exponent then
    value.mantissa * pow2 value.exponent.toNat
  else
    value.mantissa / pow2 (-value.exponent).toNat

def Dyadic.isWhole (value : Dyadic) : Bool :=
  decide (0 ≤ value.exponent) || value.mantissa % pow2 (-value.exponent).toNat == 0

/-- Rounds toward zero into `0..limit`; a negative number and no number at all
    give zero. -/
def toNatWithin (limit : Nat) (x : Float) : Nat :=
  match decode x with
  | .nan => 0
  | .infinite negative => if negative then 0 else limit
  | .finite value => if value.negative then 0 else min limit value.wholePart

/-- Rounds toward zero into `low..high`; no number at all gives zero. -/
def toIntWithin (low high : Int) (x : Float) : Int :=
  match decode x with
  | .nan => 0
  | .infinite negative => if negative then low else high
  | .finite value =>
      let whole : Int := if value.negative then -value.wholePart else value.wholePart
      max low (min high whole)

def isWhole (x : Float) : Bool :=
  match decode x with
  | .finite value => value.isWhole
  | _ => false

def isFinite (x : Float) : Bool :=
  match decode x with
  | .finite _ => true
  | _ => false

/-- What is left of the first magnitude after taking away the second as often
    as it fits.  Both are brought to the smaller exponent, where the remainder
    of the integers is the remainder of the numbers. -/
def Dyadic.remainder (value divisor : Dyadic) : Dyadic :=
  let exponent := min value.exponent divisor.exponent
  let whole := value.mantissa * pow2 (value.exponent - exponent).toNat
  let part := divisor.mantissa * pow2 (divisor.exponent - exponent).toNat
  ⟨value.negative, whole % part, exponent⟩

def notANumber : Float := 0.0 / 0.0
def infinity : Float := 1.0 / 0.0

/-- The exact remainder of a division toward zero.  It carries the sign of the
    dividend, and is not a number for an infinite dividend or a zero divisor. -/
def remainder (x y : Float) : Float :=
  match decode x, decode y with
  | .finite _, .infinite _ => x
  | .finite value, .finite divisor =>
      if divisor.mantissa = 0 then notANumber else (value.remainder divisor).toFloat
  | _, _ => notANumber

end StrategyQubo.Number
