import StrategyQubo.Number.Coefficient
import StrategyQubo.Qubo.Sparse

namespace StrategyQubo

/-! # Multilinear polynomials

Polynomials in variables that are zero or one.  A variable equals its square,
so a monomial is the set of the variables that it multiplies.
-/

/-- The indices of the variables of a product, each once and in rising
    order. -/
abbrev Monomial := List Nat

namespace Monomial

def insert (index : Nat) : Monomial → Monomial
  | [] => [index]
  | other :: rest =>
      if index = other then other :: rest
      else if index < other then index :: other :: rest
      else other :: insert index rest

/-- The product of two monomials has the variables of both. -/
def mul (a b : Monomial) : Monomial :=
  a.foldr insert b

end Monomial

structure Polynomial (R : Type) where
  terms : Sparse Monomial R

namespace Polynomial

variable {R : Type} [Coefficient R]

def zero : Polynomial R := ⟨[]⟩

/-- The sum of what a monomial has and a coefficient that is not zero, unless
    they cancel. -/
def merge (c : R) (old : Option R) : Option R :=
  let sum := old.getD 0 + c
  if Coefficient.isZero sum then none else some sum

def addTerm (p : Polynomial R) (monomial : Monomial) (c : R) : Polynomial R :=
  if Coefficient.isZero c then p else ⟨p.terms.alter (merge c) monomial⟩

def constant (c : R) : Polynomial R :=
  zero.addTerm [] c

def binary (index : Nat) : Polynomial R :=
  zero.addTerm [index] 1

def add (p q : Polynomial R) : Polynomial R :=
  q.terms.foldl (fun sum (monomial, c) => sum.addTerm monomial c) p

def scale (p : Polynomial R) (factor : R) : Polynomial R :=
  if Coefficient.isZero factor then zero
  else ⟨p.terms.map fun (monomial, c) => (monomial, c * factor)⟩

def sub (p q : Polynomial R) : Polynomial R :=
  p.add (q.scale (-1))

/-- A spin is twice its variable less one. -/
def spin (index : Nat) : Polynomial R :=
  ((binary index).scale (1 + 1)).sub (constant 1)

def mul (p q : Polynomial R) : Polynomial R :=
  p.terms.foldl (fun product (a, ca) =>
    q.terms.foldl (fun product (b, cb) =>
      product.addTerm (a.mul b) (ca * cb)) product) zero

def square (p : Polynomial R) : Polynomial R :=
  p.mul p

def powerOf (p : Polynomial R) : Nat → Polynomial R
  | 0 => constant 1
  | n + 1 => (powerOf p n).mul p

/-- The most variables in one term. -/
def degree (p : Polynomial R) : Nat :=
  p.terms.foldl (fun most (monomial, _) => max most monomial.length) 0

def constantTerm (p : Polynomial R) : R :=
  (p.terms.get? []).getD 0

def asConstant? (p : Polynomial R) : Option R :=
  if p.degree = 0 then some p.constantTerm else none

def coefficients (p : Polynomial R) : List R :=
  (p.terms.filter fun (monomial, _) => !monomial.isEmpty).map (·.2)

/-- A lower and an upper bound of the values, reached term by term. -/
def bounds (p : Polynomial R) : R × R :=
  p.coefficients.foldl
    (fun (low, high) c => (low + Coefficient.negativePart c, high + Coefficient.positivePart c))
    (p.constantTerm, p.constantTerm)

def weight (p : Polynomial R) : R :=
  Coefficient.sum (p.coefficients.map Coefficient.magnitude)

def isIntegral (p : Polynomial R) : Bool :=
  p.terms.all fun (_, c) => Coefficient.isWhole c

end Polynomial

end StrategyQubo
