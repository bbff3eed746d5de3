import StrategyQubo.Qubo.Quadratic

namespace StrategyQubo

/-! # Couplings

A quadratic problem seen from each of its variables: what the variable costs
alone, and what it costs together with each of its neighbours.  Terms that are
zero are left out.
-/

structure Couplings (R : Type) where
  linear : Array R
  neighbours : Array (List (Nat × R))
  offset : R

namespace Couplings

variable {R : Type} [Coefficient R]

def alone (q : Qubo R) (i : Nat) : R :=
  let c := q.term i i
  if Coefficient.isZero c then 0 else c

/-- The variable that a term couples to another one. -/
def partner? (i : Nat) (pair : Pair) : Option Nat :=
  if pair.low = pair.high then none
  else if pair.low = i then some pair.high
  else if pair.high = i then some pair.low
  else none

def neighboursOf (q : Qubo R) (i : Nat) : List (Nat × R) :=
  q.terms.filterMap fun (pair, c) =>
    if Coefficient.isZero c then none else (partner? i pair).map (·, c)

def ofQubo (q : Qubo R) : Couplings R where
  linear := Array.ofFn fun i : Fin q.size => alone q i
  neighbours := Array.ofFn fun i : Fin q.size => neighboursOf q i
  offset := q.offset

def size (c : Couplings R) : Nat := c.linear.size

def linearOf (c : Couplings R) (i : Nat) : R :=
  c.linear.getD i 0

/-- The coefficients of a variable with those of its neighbours that are one. -/
def active (c : Couplings R) (state : Array Bool) (i : Nat) : List R :=
  (c.neighbours.getD i []).filterMap fun (j, coupling) =>
    if state.getD j false then some coupling else none

/-- The couplings of a variable with later variables, so that each counts
    once. -/
def activeAbove (c : Couplings R) (state : Array Bool) (i : Nat) : List R :=
  (c.neighbours.getD i []).filterMap fun (j, coupling) =>
    if i < j && state.getD j false then some coupling else none

def energyFrom (c : Couplings R) (state : Array Bool) (energy : R) (i : Nat) : R :=
  if state.getD i false then
    energy + c.linearOf i + Coefficient.sum (c.activeAbove state i)
  else
    energy

def energy (c : Couplings R) (state : Array Bool) : R :=
  (List.range c.size).foldl (c.energyFrom state) c.offset

/-- What flipping a variable adds to the energy. -/
def change (c : Couplings R) (state : Array Bool) (i : Nat) : R :=
  let field := c.linearOf i + Coefficient.sum (c.active state i)
  if state.getD i false then -field else field

end Couplings

end StrategyQubo
