import StrategyQubo.Document.Weights
import StrategyQubo.Strategy.EntryPoint

namespace StrategyQubo.Strategy

open StrategyQubo.Script

/-! # Samples

What a strategy answers to a board, read into weights or into a document with
missing parts.
-/

inductive Sample where
  | weights (weights : Weights)
  | candidate (candidate : Candidate)

/-- Why an answer cannot be read. -/
inductive SampleFault where
  | neither
  | weightKind (key kind : String)
  | weightValue (key : String) (value : Float)
  | weightsKind (field kind : String)
  | variablesKind (kind : String)
  | variableType (name type : String)
  | variableUntyped (name : String)
  | constraintsKind (kind : String)
  | constraintKind (index : Nat) (kind : String)
  | missingLhs (index : Nat)
  | unknownComparison (index : Nat) (symbol : String)
  | missingComparison (index : Nat)
  | objectiveKind (kind : String)

def SampleFault.message : SampleFault → String
  | neither => "result has neither `linear` nor `variables`"
  | weightKind key kind => "weight for `" ++ key ++ "` is a " ++ kind
  | weightValue key value => "weight for `" ++ key ++ "` is " ++ Number.scriptText value
  | weightsKind field kind => "`" ++ field ++ "` is a " ++ kind
  | variablesKind kind => "`variables` is a " ++ kind
  | variableType name type =>
      "variable `" ++ name ++ "` has unsupported type `" ++ type ++ "`"
  | variableUntyped name => "variable `" ++ name ++ "` has no type"
  | constraintsKind kind => "`Constraints` is a " ++ kind
  | constraintKind index kind => "constraint " ++ toString index ++ " is a " ++ kind
  | missingLhs index => "constraint " ++ toString index ++ " has no `lhs`"
  | unknownComparison index symbol =>
      "constraint " ++ toString index ++ " has unknown comparison `" ++ symbol ++ "`"
  | missingComparison index => "constraint " ++ toString index ++ " has no `comparison`"
  | objectiveKind kind => "`Objective` is a " ++ kind

abbrev Reading := Except SampleFault

namespace Sample

def field (properties : Record) (key : String) : Value :=
  (properties.get? key).getD .undefined

/-- A finite number, or a string that holds one. -/
def weight (key : String) (value : Value) : Reading Float :=
  let finite (x : Float) : Reading Float :=
    if Number.isFinite x then .ok x else .error (.weightValue key x)
  match value with
  | .number x => finite x
  | .string text => finite (textToNumber text)
  | other => .error (.weightKind key (other.typeName))

def weightsOfRecord : Record → Reading (List (String × Float))
  | [] => .ok []
  | (key, value) :: rest => do
      let x ← weight key value
      return (key, x) :: (← weightsOfRecord rest)

/-- The elements of an array under their indices; missing ones are left out. -/
def weightsOfArray : Nat → List Value → Reading (List (String × Float))
  | _, [] => .ok []
  | index, .undefined :: rest => weightsOfArray (index + 1) rest
  | index, value :: rest => do
      let key := toString index
      let x ← weight key value
      return (key, x) :: (← weightsOfArray (index + 1) rest)

def weightEntries (h : Heap) (name : String) (value : Value) :
    Reading (List (String × Float)) :=
  match value with
  | .undefined => .ok []
  | .null => .ok []
  | .object ref => weightsOfRecord (h.objectAt ref)
  | .array ref => weightsOfArray 0 (h.arrayAt ref).toList
  | other => .error (.weightsKind name (other.typeName))

def readWeights (h : Heap) (properties : Record) : Reading Weights := do
  let linear ← weightEntries h "linear" (field properties "linear")
  let quadratic ← weightEntries h "quadratic" (field properties "quadratic")
  pure ⟨linear, quadratic⟩

def readKind (h : Heap) (name : String) (value : Value) : Reading VariableKind :=
  match value with
  | .object ref =>
      match (h.objectAt ref).get? "type" with
      | some type =>
          match VariableKind.ofName? (type.display h) with
          | some kind => .ok kind
          | none => .error (.variableType name (type.display h))
      | none => .error (.variableUntyped name)
  | _ => .error (.variableUntyped name)

def readVariableEntries (h : Heap) : Record → Variables → Reading Variables
  | [], declared => .ok declared
  | (name, value) :: rest, declared => do
      let kind ← readKind h name value
      readVariableEntries h rest (declared.register name kind)

def readVariables (h : Heap) (value : Value) : Reading Variables :=
  match value with
  | .object ref => readVariableEntries h (h.objectAt ref) .empty
  | other => .error (.variablesKind (other.typeName))

def readConstraint (h : Heap) (index : Nat) (value : Value) : Reading Constraint := do
  match value with
  | .object ref =>
      let properties := h.objectAt ref
      let lhs ← match properties.get? "lhs" with
        | some (.string text) => .ok text
        | some (.number x) => .ok (Number.scriptText x)
        | _ => .error (.missingLhs index)
      let comparison ← match properties.get? "comparison" with
        | some (.string symbol) =>
            match Comparison.ofSymbol? symbol with
            | some comparison => .ok comparison
            | none => .error (.unknownComparison index symbol)
        | _ => .error (.missingComparison index)
      let rhs ← weight "rhs" (field properties "rhs")
      pure ⟨lhs, comparison, rhs⟩
  | other => .error (.constraintKind index (other.typeName))

def readConstraintList (h : Heap) : Nat → List Value → Reading (List Constraint)
  | _, [] => .ok []
  | index, value :: rest => do
      let c ← readConstraint h index value
      return c :: (← readConstraintList h (index + 1) rest)

/-- Nothing comes of `undefined` and `null`. -/
def readConstraints (h : Heap) (value : Value) : Reading (Option (List Constraint)) :=
  match value with
  | .undefined => .ok none
  | .null => .ok none
  | .array ref => do return some (← readConstraintList h 0 (h.arrayAt ref).toList)
  | other => .error (.constraintsKind (other.typeName))

def readObjective (value : Value) : Reading (Option String) :=
  match value with
  | .undefined => .ok none
  | .null => .ok none
  | .string text => .ok (some text)
  | .number x =>
      if Number.isFinite x then .ok (some (Number.scriptText x))
      else .error (.objectiveKind "number")
  | other => .error (.objectiveKind (other.typeName))

def readCandidate (h : Heap) (properties : Record) : Reading Candidate := do
  let declared ← readVariables h (field properties "variables")
  let constraints ← readConstraints h (field properties "Constraints")
  let objective ← readObjective (field properties "Objective")
  pure ⟨some declared, constraints, objective⟩

/-- Weights come before a document where an answer holds both. -/
def ofRecord (h : Heap) (properties : Record) : Reading Sample :=
  if (field properties "linear").truthy then
    (readWeights h properties).map .weights
  else if (field properties "variables").truthy then
    (readCandidate h properties).map .candidate
  else
    .error .neither

def unusable (fault : SampleFault) : LogEntry :=
  ⟨.info, "sampled weights are unusable", [("reason", fault.message)]⟩

def notAnObject (value : Value) : LogEntry :=
  ⟨.info, "entry point did not return an object", [("kind", value.typeName)]⟩

def callFailed (error : ScriptError) : LogEntry :=
  ⟨.info, "entry point failed while sampling", [("err", error.message)]⟩

def ofValue (h : Heap) (value : Value) : Except LogEntry Sample :=
  match value with
  | .object ref => (ofRecord h (h.objectAt ref)).mapError unusable
  | other => .error (notAnObject other)

/-- Calls an entry point once and reads its answer.  The log tells why there is
    no sample. -/
def take (entry : EntryPoint) (board : Board) : Option Sample × Array LogEntry :=
  match entry.call board with
  | (.error error, _, log) => (none, log.push (callFailed error))
  | (.ok value, after, log) =>
      match ofValue after.machine.heap value with
      | .ok sample => (some sample, log)
      | .error entry => (none, log.push entry)

def ofSource (source : String) (env : Environment) (board : Board) :
    Option Sample × Array LogEntry :=
  match EntryPoint.load source env with
  | (.error _, log) => (none, log)
  | (.ok entry, log) =>
      let (sample, more) := take entry board
      (sample, log ++ more)

end Sample

end StrategyQubo.Strategy
