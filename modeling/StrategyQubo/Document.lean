import StrategyQubo.Document.Variables
import StrategyQubo.Number.Layout
import StrategyQubo.Text.Blank

namespace StrategyQubo

/-! # Problem documents

A document states a problem for the solver: declared variables, an objective
to be minimised and constraints, the latter two as expressions in text form.
-/

inductive Comparison where
  | equal
  | atMost
  | atLeast
  deriving DecidableEq, Repr

def Comparison.symbol : Comparison → String
  | equal => "="
  | atMost => "<="
  | atLeast => ">="

/-- Reads a symbol with blanks around it; equality has two spellings. -/
def Comparison.ofSymbol? (symbol : String) : Option Comparison :=
  match Text.trim symbol with
  | "=" => some equal
  | "==" => some equal
  | "<=" => some atMost
  | ">=" => some atLeast
  | _ => none

/-- A bound on the value of an expression. -/
structure Constraint where
  lhs : String
  comparison : Comparison
  rhs : Float
  deriving BEq

namespace Constraint

def sumOf (names : List String) : String :=
  " + ".intercalate names

/-- The sum of the variables is one. -/
def exactlyOne (names : List String) : Constraint :=
  ⟨sumOf names, .equal, 1.0⟩

def display (c : Constraint) : String :=
  c.lhs ++ " " ++ c.comparison.symbol ++ " " ++ Number.scriptText c.rhs

end Constraint

structure Document where
  declared : Variables
  constraints : List Constraint
  objective : String
  deriving BEq

/-- A form for readers: a heading, the names, the objective and a line for each
    constraint. -/
def Document.display (d : Document) : String :=
  "QUBO[" ++ toString d.declared.size ++ " variables, " ++
    toString d.constraints.length ++ " constraints]\n" ++
  "  variables: " ++ ", ".intercalate d.declared.names ++ "\n" ++
  "  minimize:  " ++ d.objective ++ "\n" ++
  String.join (d.constraints.map fun c => "  subject to " ++ c.display ++ "\n")

/-- A document of which parts may be missing, as a strategy states it. -/
structure Candidate where
  declared : Option Variables
  constraints : Option (List Constraint)
  objective : Option String

def Candidate.ofDocument (d : Document) : Candidate :=
  ⟨some d.declared, some d.constraints, some d.objective⟩

end StrategyQubo
