import StrategyQubo.Document
import StrategyQubo.Json.Parse

namespace StrategyQubo

/-! # Documents as JSON

The form in which documents travel.  Fields are written in a fixed order; a
reader takes them in any order, ignores fields it does not know, and refuses a
field given twice.  A record may also be given as the array of its fields.
-/

/-! ## Writing -/

def VariableKind.toJson (kind : VariableKind) : Json :=
  .record [("type", .string kind.name)]

def Variables.toJson (v : Variables) : Json :=
  .record (v.entries.map fun (name, kind) => (name, kind.toJson))

def Constraint.toJson (c : Constraint) : Json :=
  .record [("lhs", .string c.lhs), ("comparison", .string c.comparison.symbol),
    ("rhs", .ofNumber c.rhs)]

namespace Document

def toJson (d : Document) : Json :=
  .record [("variables", d.declared.toJson),
    ("Constraints", .array (d.constraints.map Constraint.toJson)),
    ("Objective", .string d.objective)]

/-- The body of a submission. -/
def compact (d : Document) : String :=
  d.toJson.compact

def pretty (d : Document) : String :=
  d.toJson.pretty

end Document

/-! ## Reading -/

namespace Json

/-- The values under a known key; no answer if it is given more than once. -/
def onlyValue? (fields : List (String × Json)) (key : String) : Option (Option Json) :=
  match fields.filter (·.1 == key) with
  | [] => some none
  | [(_, value)] => some (some value)
  | _ => none

/-- The fields of a record with these keys, from an object or from an array in
    their order.  Every key of an object has to be readable. -/
def fieldsOf? (keys : List String) : Json → Option (List (Option Json))
  | object fields => do
      let fields ← fields.mapM fun (key, value) => key.map fun key => (key, value)
      keys.mapM (onlyValue? fields)
  | array items =>
      if keys.length < items.length then none
      else some (items.map some ++ List.replicate (keys.length - items.length) none)
  | _ => none

/-- The name of a choice without data: a string, or an object with that one
    key and null under it. -/
def choice? : Json → Option String
  | string name => some name
  | object [(some name, null)] => some name
  | _ => none

def text? : Json → Option String
  | string text => some text
  | _ => none

def number? : Json → Option Float
  | integer value =>
      let magnitude := Number.nearest value.natAbs 0
      some (if value < 0 then -magnitude else magnitude)
  | double value => some value
  | _ => none

def items? : Json → Option (List Json)
  | array items => some items
  | _ => none

/-- A part that may be null or missing. -/
def optional? {α : Type} (read : Json → Option α) : Option Json → Option (Option α)
  | none => some none
  | some null => some none
  | some value => (read value).map some

end Json

def VariableKind.ofJson? (value : Json) : Option VariableKind :=
  match Json.fieldsOf? ["type"] value with
  | some [some kind] => (Json.choice? kind).bind VariableKind.ofName?
  | _ => none

def Variables.ofJson? : Json → Option Variables
  | .object fields => do
      let entries ← fields.mapM fun (key, value) => do
        let name ← key
        let kind ← VariableKind.ofJson? value
        pure (name, kind)
      pure (.ofList entries)
  | _ => none

/-- The spellings of a comparison in a document; no other is read there. -/
def Comparison.ofWire? : String → Option Comparison
  | "=" => some equal
  | "<=" => some atMost
  | ">=" => some atLeast
  | _ => none

def Constraint.ofJson? (value : Json) : Option Constraint :=
  match Json.fieldsOf? ["lhs", "comparison", "rhs"] value with
  | some [some lhs, some comparison, some rhs] => do
      let lhs ← Json.text? lhs
      let comparison ← (Json.choice? comparison).bind Comparison.ofWire?
      let rhs ← Json.number? rhs
      pure ⟨lhs, comparison, rhs⟩
  | _ => none

def constraintsOfJson? (value : Json) : Option (List Constraint) := do
  (← Json.items? value).mapM Constraint.ofJson?

def documentKeys : List String := ["variables", "Constraints", "Objective"]

def Document.ofJson? (value : Json) : Option Document :=
  match Json.fieldsOf? documentKeys value with
  | some [some declared, some constraints, some objective] => do
      let declared ← Variables.ofJson? declared
      let constraints ← constraintsOfJson? constraints
      let objective ← Json.text? objective
      pure ⟨declared, constraints, objective⟩
  | _ => none

def Document.parse? (text : String) : Option Document :=
  (Json.parse? text).bind Document.ofJson?

def Candidate.ofJson? (value : Json) : Option Candidate :=
  match Json.fieldsOf? documentKeys value with
  | some [declared, constraints, objective] => do
      let declared ← Json.optional? Variables.ofJson? declared
      let constraints ← Json.optional? constraintsOfJson? constraints
      let objective ← Json.optional? Json.text? objective
      pure ⟨declared, constraints, objective⟩
  | _ => none

def Candidate.parse? (text : String) : Option Candidate :=
  (Json.parse? text).bind Candidate.ofJson?

end StrategyQubo
