import StrategyQubo.Number.Binary64

namespace StrategyQubo

/-! # Coefficients

The numbers that polynomials and energies are made of: doubles, which round,
and fractions, on which the same arithmetic is exact.
-/

class Coefficient (R : Type) extends Zero R, One R, Add R, Sub R, Neg R, Mul R, LE R, LT R where
  decidableLE : DecidableLE R
  decidableLT : DecidableLT R
  ofFloat : Float → R
  ofNat : Nat → R
  magnitude : R → R
  inverse : R → R
  power : R → Nat → R
  isWhole : R → Bool
  /-- Rounds toward zero into `0..limit`. -/
  toNatWithin : Nat → R → Nat

namespace Coefficient

attribute [reducible, instance] decidableLE decidableLT

variable {R : Type} [Coefficient R]

/-- A double that is not a number is neither zero nor on either side of it. -/
def isZero (c : R) : Bool :=
  decide (c ≤ 0) && decide (0 ≤ c)

def negativePart (c : R) : R :=
  if c < 0 then c else 0

def positivePart (c : R) : R :=
  if 0 < c then c else 0

/-- The sum from left to right.  It starts from minus zero, the double that
    changes no double it is added to. -/
def sum (cs : List R) : R :=
  cs.foldl (· + ·) (-0)

end Coefficient

instance : Coefficient Float where
  zero := 0.0
  one := 1.0
  decidableLE := inferInstance
  decidableLT := inferInstance
  ofFloat x := x
  ofNat n := (UInt64.ofNat n).toFloat
  magnitude := Float.abs
  inverse x := 1.0 / x
  power x n := Float.pow x (Float.ofNat n)
  isWhole := Number.isWhole
  toNatWithin := Number.toNatWithin

/-- The exact value of a finite double. -/
def Number.Dyadic.toRat (value : Dyadic) : Rat :=
  let sign : Int := if value.negative then -1 else 1
  if 0 ≤ value.exponent then
    mkRat (sign * (value.mantissa * Number.pow2 value.exponent.toNat : Nat)) 1
  else
    mkRat (sign * value.mantissa) (Number.pow2 (-value.exponent).toNat)

/-- The exact value of a double; one that is not finite has none and reads as
    zero. -/
def Number.toRat (x : Float) : Rat :=
  match decode x with
  | .finite value => value.toRat
  | _ => 0

instance : Coefficient Rat where
  zero := 0
  one := 1
  decidableLE := inferInstance
  decidableLT := inferInstance
  ofFloat := Number.toRat
  ofNat n := n
  magnitude := Rat.abs
  inverse := Rat.inv
  power := Rat.pow
  isWhole x := x.den == 1
  toNatWithin limit x := min limit x.floor.toNat

end StrategyQubo
