import StrategyQubo.Document.Wire
import StrategyQubo.Qubo.Quadratic
import StrategyQubo.Reply.Fault

namespace StrategyQubo

/-! # Replies

The quadratic problem that the solver endpoint answers: coefficients under the
printed pairs of variables, an offset, and what it has to say about them.
-/

structure Explanation where
  highlights : List String
  method : String
  problemType : Option String
  variableCount : Option Nat
  constraintCount : Option Nat
  /-- Why the endpoint did not use the document. -/
  problemError : Option String
  usesFallback : Bool
  deriving DecidableEq, Repr

structure Reply where
  /-- Sorted by key. -/
  coefficients : List (String × Float)
  offset : Float
  explanation : Option Explanation

/-! ## Reading -/

namespace Json

/-- A count is an integer that is not negative. -/
def count? : Json → Option Nat
  | integer value => if 0 ≤ value then some value.toNat else none
  | _ => none

def flag? : Json → Option Bool
  | bool value => some value
  | _ => none

/-- A field that may be missing; one that is present has to be readable. -/
def orDefault {α : Type} (read : Json → Option α) (default : α) : Option Json → Option α
  | none => some default
  | some value => read value

end Json

def Explanation.ofJson? (value : Json) : Option Explanation :=
  match Json.fieldsOf? ["highlights", "method", "problem_type", "variable_count",
      "constraint_count", "user_qubo_error", "using_fallback"] value with
  | some [highlights, method, type, variableCount, constraintCount, error, fallback] => do
      let texts (value : Json) : Option (List String) := do
        (← value.items?).mapM Json.text?
      let highlights ← Json.orDefault texts [] highlights
      let method ← Json.orDefault Json.text? "" method
      let type ← Json.optional? Json.text? type
      let variableCount ← Json.optional? Json.count? variableCount
      let constraintCount ← Json.optional? Json.count? constraintCount
      let error ← Json.optional? Json.text? error
      let fallback ← Json.orDefault Json.flag? false fallback
      pure ⟨highlights, method, type, variableCount, constraintCount, error, fallback⟩
  | _ => none

/-- Numbers under keys, in the order of the object. -/
def coefficientsOfJson? : Json → Option (List (String × Float))
  | .object fields => fields.mapM fun (key, value) => do
      let key ← key
      let c ← value.number?
      pure (key, c)
  | _ => none

namespace Reply

/-- Reads JSON in canonical form, so that the keys are sorted. -/
def ofJson? (value : Json) : Option Reply :=
  match Json.fieldsOf? ["qubo", "offset", "explanation"] value with
  | some [some coefficients, offset, explanation] => do
      let coefficients ← coefficientsOfJson? coefficients
      let offset ← Json.orDefault Json.number? 0.0 offset
      let explanation ← Json.optional? Explanation.ofJson? explanation
      pure ⟨coefficients, offset, explanation⟩
  | _ => none

def ofJson (value : Json) : Except SubmitFault Reply :=
  match ofJson? value with
  | some reply => .ok reply
  | none => .error .notReply

/-- Whether the endpoint solved a problem of its own. -/
def isFallback (r : Reply) : Bool :=
  r.explanation.any (·.usesFallback)

/-! ## Pairs -/

/-- What stands between two characters at the ends of a text. -/
def between? (first last : Char) (text : List Char) : Option (List Char) :=
  match text with
  | c :: rest =>
      if c = first ∧ rest.getLast? = some last then some rest.dropLast else none
  | [] => none

/-- A name without the blanks around it and the quotes around that. -/
def unquote (text : List Char) : List Char :=
  let name := Text.trimEnd (Text.trimStart text)
  match between? '\'' '\'' name, between? '\x22' '\x22' name with
  | some inner, _ => inner
  | none, some inner => inner
  | none, none => name

/-- The names on both sides of the first comma between parentheses.  Neither
    may be empty. -/
def pair? (key : String) : Option (String × String) :=
  match between? '(' ')' (Text.trimEnd (Text.trimStart key.toList)) with
  | none => none
  | some inner =>
      match inner.dropWhile (· != ',') with
      | _ :: second =>
          let first := unquote (inner.takeWhile (· != ','))
          let second := unquote second
          if first.isEmpty || second.isEmpty then none
          else some (String.ofList first, String.ofList second)
      | [] => none

def pairsOf : List (String × Float) → Except SubmitFault (List ((String × String) × Float))
  | [] => .ok []
  | (key, c) :: rest =>
      match pair? key with
      | some pair => (pairsOf rest).map ((pair, c) :: ·)
      | none => .error (.badKey key)

/-- The coefficients under pairs of names. -/
def pairs (r : Reply) : Except SubmitFault (List ((String × String) × Float)) :=
  pairsOf r.coefficients

end Reply

end StrategyQubo
