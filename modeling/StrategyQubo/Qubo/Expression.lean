import StrategyQubo.Qubo.ExpansionFault
import StrategyQubo.Qubo.Polynomial
import StrategyQubo.Script.Syntax.Parse

namespace StrategyQubo

open StrategyQubo.Script

/-! # Expressions as polynomials

The arithmetic expressions of a document, computed with variables in place of
their values.
-/

/-- What an expression is that has no place in arithmetic. -/
def expressionKind : Expr → String
  | .string _ => "string"
  | .template _ => "string"
  | .bool _ => "boolean"
  | .null => "null"
  | .undefined => "null"
  | .call _ _ => "call"
  | .construct _ _ => "call"
  | .member _ _ => "property access"
  | .index _ _ => "property access"
  | .assign _ _ _ => "assignment"
  | .update _ _ _ => "assignment"
  | _ => "operator"

namespace Polynomial

variable {R : Type} [Coefficient R]

/-- A whole constant from zero to the largest exponent. -/
def exponent? (p : Polynomial R) : Option Nat :=
  p.asConstant?.bind fun n =>
    if Coefficient.isWhole n && decide (0 ≤ n) && decide (n ≤ Coefficient.ofNat maxExponent) then
      some (Coefficient.toNatWithin maxExponent n)
    else
      none

def power (base exponent : Polynomial R) : Except ExpansionFault (Polynomial R) :=
  match exponent.exponent? with
  | none => .error .exponent
  | some n =>
      match base.asConstant? with
      | some value => .ok (constant (Coefficient.power value n))
      | none => .ok (base.powerOf n)

def divide (p divisor : Polynomial R) : Except ExpansionFault (Polynomial R) :=
  match divisor.asConstant? with
  | none => .error .divisionByVariable
  | some c =>
      if Coefficient.isZero c then .error .divisionByZero
      else .ok (p.scale (Coefficient.inverse c))

def combine (op : BinaryOp) (p q : Polynomial R) : Except ExpansionFault (Polynomial R) :=
  match op with
  | .add => .ok (p.add q)
  | .subtract => .ok (p.sub q)
  | .multiply => .ok (p.mul q)
  | .divide => p.divide q
  | .power => p.power q
  | other => .error (.notArithmetic other)

/-- The polynomial of an expression in which the known names stand for
    polynomials. -/
def ofExpr (known : String → Option (Polynomial R)) :
    Expr → Except ExpansionFault (Polynomial R)
  | .number n => .ok (constant (Coefficient.ofFloat n))
  | .identifier name =>
      match known name with
      | some p => .ok p
      | none => .error (.unknownVariable name)
  | .unary .negate operand => do
      let p ← ofExpr known operand
      pure (p.scale (-1))
  | .unary .plus operand => ofExpr known operand
  | .binary op left right => do
      let p ← ofExpr known left
      let q ← ofExpr known right
      combine op p q
  | other => .error (.unsupported (expressionKind other))

def parse (known : String → Option (Polynomial R)) (text : String) :
    Except ExpansionFault (Polynomial R) :=
  match Expr.parse text with
  | .ok expr => ofExpr known expr
  | .error error => .error (.unreadable text error)

end Polynomial

/-- The polynomial of a declared variable; its index is its place in the
    declarations. -/
def Variables.polynomial? {R : Type} [Coefficient R] (v : Variables) (name : String) :
    Option (Polynomial R) :=
  match v.names.idxOf? name, v.get? name with
  | some index, some .binary => some (.binary index)
  | some index, some .spin => some (.spin index)
  | _, _ => none

end StrategyQubo
