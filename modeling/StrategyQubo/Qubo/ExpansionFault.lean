import StrategyQubo.Document
import StrategyQubo.Script.Fault
import StrategyQubo.Script.Syntax

namespace StrategyQubo

open StrategyQubo.Script

/-! # Why a document cannot be expanded -/

inductive ExpansionFault where
  | unreadable (text : String) (error : ScriptError)
  | unknownVariable (name : String)
  | divisionByZero
  | divisionByVariable
  | exponent
  | notArithmetic (op : BinaryOp)
  | unsupported (kind : String)
  | penalty (given : Float)
  | fractional (index : Nat) (c : Constraint)
  | impossible (index : Nat) (c : Constraint)
  | degree (degree : Nat)

def maxExponent : Nat := 8

def operatorName : BinaryOp → String
  | .add => "Add"
  | .subtract => "Sub"
  | .multiply => "Mul"
  | .divide => "Div"
  | .remainder => "Rem"
  | .power => "Pow"
  | .less => "Lt"
  | .greater => "Gt"
  | .lessEqual => "LtEq"
  | .greaterEqual => "GtEq"
  | .equal => "Eq"
  | .notEqual => "NotEq"
  | .strictEqual => "StrictEq"
  | .strictNotEqual => "StrictNotEq"
  | .inside => "In"

namespace ExpansionFault

def constraintText (index : Nat) (c : Constraint) : String :=
  "constraint " ++ toString index ++ " (" ++ c.display ++ ")"

def detail : ExpansionFault → String
  | unreadable text error => "cannot parse `" ++ text ++ "`: " ++ error.message
  | unknownVariable name => "unknown variable `" ++ name ++ "`"
  | divisionByZero => "division by zero"
  | divisionByVariable => "division by a variable"
  | exponent => "exponent must be an integer between 0 and " ++ toString maxExponent
  | notArithmetic op => "operator " ++ operatorName op ++ " is not arithmetic"
  | unsupported kind => "unsupported expression " ++ kind
  | penalty given => "penalty must be positive, got " ++ Number.reportText given
  | fractional index c => constraintText index c ++ " needs integer coefficients"
  | impossible index c => constraintText index c ++ " can never hold"
  | degree n => "expansion is of degree " ++ toString n ++ ", above quadratic"

def message (fault : ExpansionFault) : String :=
  "Expansion Error: " ++ fault.detail

end ExpansionFault

end StrategyQubo
