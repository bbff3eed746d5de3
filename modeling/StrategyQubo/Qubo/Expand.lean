import StrategyQubo.Qubo.Expression
import StrategyQubo.Qubo.Quadratic

namespace StrategyQubo

/-! # Expanding documents

A document becomes a quadratic problem: the objective, and for each constraint
the square of what is missing from it, times a penalty.  An inequality is met
with slack variables that take up the difference.
-/

/-- Weights of bits that together make every number up to a range and none
    beyond: powers of two, the last of them cut to what is left. -/
def slackWeights (weight remaining : UInt64) : List UInt64 :=
  if remaining = 0 ∨ weight = 0 then
    []
  else
    let bit := min weight remaining
    bit :: slackWeights (weight * 2) (remaining - bit)
termination_by remaining.toNat
decreasing_by
  rename_i uncovered
  simp only [not_or] at uncovered
  have left : 0 < remaining.toNat := by
    rcases Nat.eq_zero_or_pos remaining.toNat with h | h
    · exact absurd (UInt64.toNat_inj.1 (by simpa using h)) uncovered.1
    · exact h
  have used : 0 < weight.toNat := by
    rcases Nat.eq_zero_or_pos weight.toNat with h | h
    · exact absurd (UInt64.toNat_inj.1 (by simpa using h)) uncovered.2
    · exact h
  have within : min weight remaining ≤ remaining := by
    simp only [Min.min]; split <;> grind
  have positive : 0 < (min weight remaining).toNat := by
    simp only [Min.min]; split <;> assumption
  rw [UInt64.toNat_sub_of_le _ _ within]
  omega

def maxSlack : Nat := Number.pow2 64 - 1

def slackName (index bit : Nat) : String :=
  "_slack_" ++ toString index ++ "_" ++ toString bit

def slackNames (index count : Nat) : List String :=
  (List.range count).map (slackName index)

section

variable {R : Type} [Coefficient R]

/-- A sum of variables from an index on, with these weights. -/
def slackSum (first : Nat) (weights : List UInt64) : Polynomial R :=
  (weights.zipIdx first).foldl (fun slack (weight, index) =>
    slack.add ((Polynomial.binary index).scale (Coefficient.ofNat weight.toNat))) .zero

namespace Constraint

/-- How far the left side can be from the bound on the side that is allowed. -/
def slackRange (c : Constraint) (lhs : Polynomial R) : R :=
  let (low, high) := lhs.bounds
  match c.comparison with
  | .atLeast => high - Coefficient.ofFloat c.rhs
  | _ => Coefficient.ofFloat c.rhs - low

/-- What has to be zero for the constraint to hold, and the weights of the new
    slack variables in it, which are numbered from `first`. -/
def residual (index : Nat) (c : Constraint) (lhs : Polynomial R) (first : Nat) :
    Except ExpansionFault (Polynomial R × List UInt64) :=
  let rhs := Polynomial.constant (Coefficient.ofFloat c.rhs)
  if c.comparison = .equal then
    .ok (lhs.sub rhs, [])
  else if !lhs.isIntegral || !Number.isWhole c.rhs then
    .error (.fractional index c)
  else
    let range := c.slackRange lhs
    if range < 0 then
      .error (.impossible index c)
    else
      let weights := slackWeights 1 (UInt64.ofNat (Coefficient.toNatWithin maxSlack range))
      let slack := slackSum first weights
      let sum := if c.comparison = .atMost then lhs.add slack else lhs.sub slack
      .ok (sum.sub rhs, weights)

end Constraint

/-- The polynomial to be made least so far, and the names of its variables. -/
structure Expansion (R : Type) where
  names : List String
  total : Polynomial R

namespace Expansion

def addConstraint (v : Variables) (penalty : R) (index : Nat) (c : Constraint)
    (e : Expansion R) : Except ExpansionFault (Expansion R) := do
  let lhs ← Polynomial.parse v.polynomial? c.lhs
  let (residual, weights) ← c.residual index lhs e.names.length
  pure
    { names := e.names ++ slackNames index weights.length
      total := e.total.add (residual.square.scale penalty) }

def addConstraints (v : Variables) (penalty : R) :
    Nat → List Constraint → Expansion R → Except ExpansionFault (Expansion R)
  | _, [], e => .ok e
  | index, c :: rest, e => do
      addConstraints v penalty (index + 1) rest (← addConstraint v penalty index c e)

/-- Puts one term of a polynomial into a quadratic problem. -/
def addMonomial (q : Qubo R) (monomial : Monomial) (c : R) : Except ExpansionFault (Qubo R) :=
  match monomial with
  | [] => .ok (q.addOffset c)
  | [i] => .ok (q.addTerm i i c)
  | [i, j] => .ok (q.addTerm i j c)
  | more => .error (.degree more.length)

def toQubo (e : Expansion R) : Except ExpansionFault (Qubo R) :=
  e.total.terms.foldlM (fun q (monomial, c) => addMonomial q monomial c) (.ofVariables e.names)

end Expansion

/-- The given factor of the constraints, which has to be positive, or one that
    no gain in the objective makes up for. -/
def penaltyFactor (objective : Polynomial R) (given : Option Float) : Except ExpansionFault R :=
  match given with
  | none => .ok (1 + objective.weight)
  | some p =>
      if Number.isFinite p && 0.0 < p then .ok (Coefficient.ofFloat p) else .error (.penalty p)

def Document.expand (d : Document) (given : Option Float) : Except ExpansionFault (Qubo R) := do
  let objective ← Polynomial.parse d.declared.polynomial? d.objective
  let penalty ← penaltyFactor objective given
  let e ← Expansion.addConstraints d.declared penalty 0 d.constraints
    ⟨d.declared.names, objective⟩
  e.toQubo

end

end StrategyQubo
