import StrategyQubo.Number.Binary64

namespace StrategyQubo.Number

/-! # The shortest decimal that reads back

Every double owns an interval of reals that round to it.  The decimal chosen
here lies in that interval, has as few digits as any that does, and is the
nearest to the double among those.
-/

/-- The number `digits * 10 ^ exponent`; a nonzero `digits` does not end in
    zero. -/
structure Decimal where
  digits : Nat
  exponent : Int
  deriving DecidableEq, Repr

/-- A nonnegative number as a quotient, with the ends of the interval that
    rounds to it over the same denominator. -/
structure Spread where
  low : Nat
  value : Nat
  high : Nat
  denominator : Nat
  closed : Bool

/-- The ends lie halfway to the neighbouring doubles.  Below a power of two
    the neighbours are twice as dense.  Ties go to an even mantissa, so the
    ends belong to the interval exactly when the mantissa is even. -/
def spread (mantissa : Nat) (exponent : Int) : Spread :=
  let dense := mantissa = pow2 52 ∧ -1074 < exponent
  let below := if dense then 1 else 2
  let scale := pow2 exponent.toNat
  { low := (4 * mantissa - below) * scale
    value := 4 * mantissa * scale
    high := (4 * mantissa + 2) * scale
    denominator := 4 * pow2 (-exponent).toNat
    closed := mantissa % 2 = 0 }

/-- The exponent of the leading decimal digit of `value / denominator`, where
    the denominator is a power of two.  The binary exponent fixes it up to one. -/
def leadingExponent (value denominator : Nat) : Int :=
  let binary : Int := (Nat.log2 value : Int) - (Nat.log2 denominator : Int)
  let estimate := Int.fdiv (binary * 30103) 100000
  let reaches (power : Int) : Bool :=
    denominator * pow10 power.toNat ≤ value * pow10 (-power).toNat
  if reaches (estimate + 1) then estimate + 1 else estimate

/-- Whether `digits * 10 ^ exponent` rounds to the number the spread
    describes. -/
def Spread.contains (s : Spread) (digits : Nat) (exponent : Int) : Bool :=
  let up := pow10 exponent.toNat
  let down := pow10 (-exponent).toNat
  let candidate := digits * up * s.denominator
  if s.closed then
    s.low * down ≤ candidate && candidate ≤ s.high * down
  else
    s.low * down < candidate && candidate < s.high * down

/-- Where a number goes that lies halfway between two grid points. -/
inductive Tie where
  | up
  | even
  deriving DecidableEq, Repr

/-- Whether a number this far above the grid point `floor` goes to the next
    one. -/
def Tie.roundsUp (tie : Tie) (floor rest step : Nat) : Bool :=
  if 2 * rest = step then
    match tie with
    | .up => true
    | .even => floor % 2 == 1
  else
    decide (step < 2 * rest)

/-- The nearest point of the grid of step `10 ^ exponent` that lies in the
    interval.  Only the two neighbours of the value can be it. -/
def Spread.nearestOn (tie : Tie) (s : Spread) (exponent : Int) : Option Nat :=
  let step := s.denominator * pow10 exponent.toNat
  let value := s.value * pow10 (-exponent).toNat
  let floor := value / step
  let lower := s.contains floor exponent
  let upper := s.contains (floor + 1) exponent
  match lower, upper with
  | true, true => some (if tie.roundsUp floor (value % step) step then floor + 1 else floor)
  | true, false => some floor
  | false, true => some (floor + 1)
  | false, false => none

/-- Tries grids of more and more digits, the first with a hit wins. -/
def Spread.search (tie : Tie) (s : Spread) : Nat → Int → Decimal
  | 0, exponent => ⟨s.value * pow10 (-exponent).toNat / (s.denominator * pow10 exponent.toNat), exponent⟩
  | tries + 1, exponent =>
      match s.nearestOn tie exponent with
      | some digits => ⟨digits, exponent⟩
      | none => s.search tie tries (exponent - 1)

/-- Moves trailing zeros into the exponent. -/
def Decimal.stripped : Nat → Decimal → Decimal
  | 0, d => d
  | fuel + 1, d =>
      if d.digits ≠ 0 ∧ d.digits % 10 = 0 then
        Decimal.stripped fuel ⟨d.digits / 10, d.exponent + 1⟩
      else
        d

/-- Seventeen digits always suffice. -/
def shortest (tie : Tie) (mantissa : Nat) (exponent : Int) : Decimal :=
  if mantissa = 0 then
    ⟨0, 0⟩
  else
    let s := spread mantissa exponent
    Decimal.stripped 20 (s.search tie 17 (leadingExponent s.value s.denominator))

end StrategyQubo.Number
