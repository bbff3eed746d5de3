import StrategyQubo.Document.Builder
import StrategyQubo.Log
import StrategyQubo.Script.Token.Scan

namespace StrategyQubo.Strategy

open StrategyQubo.Script

/-! # Validation

A candidate becomes a document that can be submitted: it declares variables,
has constraints and an objective, and names no variable that it does not
declare.  For any other candidate the default document stands in.
-/

inductive FallbackReason where
  | entryPointUnavailable
  | samplingFailed
  | missingDocument
  | noVariables
  | emptyObjective
  | noConstraints
  | undeclaredVariable (name : String)
  | malformedExpression (field : String)
  deriving DecidableEq, Repr

def FallbackReason.code : FallbackReason → String
  | entryPointUnavailable => "entry_point_unavailable"
  | samplingFailed => "sampling_failed"
  | missingDocument => "missing_document"
  | noVariables => "no_variables"
  | emptyObjective => "empty_objective"
  | noConstraints => "no_constraints"
  | undeclaredVariable _ => "undeclared_variable"
  | malformedExpression _ => "malformed_expression"

def FallbackReason.message : FallbackReason → String
  | entryPointUnavailable => "entry point unavailable"
  | samplingFailed => "sampling the entry point failed"
  | missingDocument => "no document"
  | noVariables => "document declares no variables"
  | emptyObjective => "objective is empty"
  | noConstraints => "document has no constraints"
  | undeclaredVariable name => "undeclared variable '" ++ name ++ "'"
  | malformedExpression field => field ++ " is not a valid expression"

/-- A document and, if it is the default one, why. -/
structure Compilation where
  document : Document
  fallback : Option FallbackReason

def Compilation.isFallback (c : Compilation) : Bool :=
  c.fallback.isSome

def isBlankText (text : String) : Bool :=
  (Text.trim text).isEmpty

/-- What a candidate says about its parts that it leaves out: no constraints
    are an empty list, and with variables declared a blank objective is
    zero. -/
def coerce (c : Candidate) : Candidate :=
  let declares := c.declared.any fun v => !v.isEmpty
  let objective := match c.objective with
    | some text => if isBlankText text && declares then some "0" else some text
    | none => if declares then some "0" else none
  ⟨c.declared, some (c.constraints.getD []), objective⟩

/-- The identifiers of an expression in order, unless it cannot be cut into
    tokens. -/
def referencedIdentifiers? (expression : String) : Option (List String) :=
  match tokenize expression with
  | .error _ => none
  | .ok tokens => some (tokens.filterMap fun token =>
      match token.lexeme with
      | .identifier name => some name
      | _ => none)

def checkExpression (declared : Variables) (field expression : String) :
    Except FallbackReason Unit :=
  match referencedIdentifiers? expression with
  | none => .error (.malformedExpression field)
  | some names =>
      match names.find? fun name => !declared.contains name with
      | some name => .error (.undeclaredVariable name)
      | none => .ok ()

def checkConstraints (declared : Variables) : Nat → List Constraint → Except FallbackReason Unit
  | _, [] => .ok ()
  | index, c :: rest => do
      checkExpression declared ("Constraints[" ++ toString index ++ "].lhs") c.lhs
      checkConstraints declared (index + 1) rest

/-- Every identifier of the objective and of the constraints is declared. -/
def checkDeclared (d : Document) : Except FallbackReason Unit := do
  checkExpression d.declared "Objective" d.objective
  checkConstraints d.declared 0 d.constraints

def acceptParts (c : Candidate) : Except FallbackReason Document :=
  match c.declared.filter fun v => !v.isEmpty with
  | none => .error .noVariables
  | some declared =>
      match c.objective.filter fun text => !isBlankText text with
      | none => .error .emptyObjective
      | some objective =>
          match c.constraints.filter fun constraints => !constraints.isEmpty with
          | none => .error .noConstraints
          | some constraints => .ok ⟨declared, constraints, objective⟩

def accept (c : Candidate) : Except FallbackReason Document := do
  let d ← acceptParts (coerce c)
  checkDeclared d
  pure d

def fallbackEntry (reason : FallbackReason) : LogEntry :=
  ⟨.info, "using default document", [("reason", reason.code), ("detail", reason.message)]⟩

/-- The document for a candidate, which may be missing for a given reason. -/
def validateOr (missing : FallbackReason) (candidate : Option Candidate) :
    Compilation × List LogEntry :=
  let accepted : Except FallbackReason Document := match candidate with
    | none => .error missing
    | some c => accept c
  match accepted with
  | .ok d => (⟨d, none⟩, [])
  | .error reason => (⟨defaultDocument, some reason⟩, [fallbackEntry reason])

def validate (candidate : Option Candidate) : Compilation × List LogEntry :=
  validateOr .missingDocument candidate

end StrategyQubo.Strategy
