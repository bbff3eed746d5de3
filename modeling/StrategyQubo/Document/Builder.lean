import StrategyQubo.Document

namespace StrategyQubo

/-! # Building documents from weights -/

/-- The name of the variable of a board cell, or of any key. -/
def cellVariable (key : String) : String :=
  "x" ++ key

/-- A document under construction; the terms of its objective are not joined
    yet. -/
structure Builder where
  declared : Variables
  terms : List String
  constraints : List Constraint

namespace Builder

def empty : Builder := ⟨.empty, [], []⟩

def declare (b : Builder) (name : String) (kind : VariableKind) : Builder :=
  { b with declared := b.declared.register name kind }

def termText (coefficient : Float) (factors : List String) : String :=
  Number.scriptText coefficient ++ " * " ++ " * ".intercalate factors

/-- Adds a product of variables to the objective; a zero coefficient adds
    nothing. -/
def term (b : Builder) (coefficient : Float) (factors : List String) : Builder :=
  if coefficient == 0.0 then b
  else { b with terms := b.terms ++ [termText coefficient factors] }

def constraint (b : Builder) (c : Constraint) : Builder :=
  { b with constraints := b.constraints ++ [c] }

/-- Constrains the variables declared so far, if any, to have the sum one. -/
def exactlyOne (b : Builder) : Builder :=
  if b.declared.isEmpty then b else b.constraint (.exactlyOne b.declared.names)

def build (b : Builder) : Document :=
  ⟨b.declared, b.constraints, " + ".intercalate b.terms⟩

end Builder

/-- The document that stands in for one that cannot be used: one of nine cells
    is chosen, the centre before corners and corners before edges. -/
def defaultDocument : Document :=
  let declared := Variables.ofList
    ((List.range 9).map fun cell => (cellVariable (toString cell), .binary))
  { declared := declared
    constraints := [.exactlyOne declared.names]
    objective := "(-3 * x4) + (-2 * x0) + (-2 * x2) + (-2 * x6) + (-2 * x8) + " ++
      "(-1 * x1) + (-1 * x3) + (-1 * x5) + (-1 * x7)" }

end StrategyQubo
