import StrategyQubo.Board
import StrategyQubo.Qubo.Cooling

namespace StrategyQubo

/-! # Solving problems

Small problems are solved by passing every assignment, larger ones by
annealing.
-/

inductive SolveMethod where
  | exhaustive
  | annealing
  deriving DecidableEq, Repr

def SolveMethod.name : SolveMethod → String
  | exhaustive => "exhaustive"
  | annealing => "annealing"

/-- The values found, in the order of the variables of the problem. -/
structure Solution (R : Type) where
  assignment : List (String × Bool)
  energy : R
  method : SolveMethod

/-- The board cell that a variable stands for. -/
def cellOf? (name : String) : Option Nat :=
  (List.range boardCells).find? fun cell => cellVariable (toString cell) == name

namespace Solution

variable {R : Type}

def value? (s : Solution R) (name : String) : Option Bool :=
  s.assignment.lookup name

def selected (s : Solution R) : List String :=
  (s.assignment.filter (·.2)).map (·.1)

/-- The cell to play, if the variables that are one name exactly one. -/
def selectedCell? (s : Solution R) : Option Nat :=
  match s.selected.filterMap cellOf? with
  | [cell] => some cell
  | _ => none

def selectedText (s : Solution R) : String :=
  match s.selected with
  | [] => "no variables set"
  | names => "set: " ++ ", ".intercalate names

def moveText (s : Solution R) : String :=
  match s.selectedCell? with
  | none => "none"
  | some cell =>
      let (row, column) := Board.positionOf cell
      "cell " ++ toString cell ++ " (row " ++ toString row ++ ", column " ++ toString column ++ ")"

/-- A form for readers, with a line each for the energy, the names and the
    move. -/
def display (s : Solution Float) : String :=
  "Solve Result (" ++ s.method.name ++ "):\n" ++
  "  energy: " ++ Number.reportText s.energy ++ "\n" ++
  "  " ++ s.selectedText ++ "\n" ++
  "  move: " ++ s.moveText ++ "\n"

end Solution

inductive SolveFault where
  | noVariables
  | notFinite
  /-- A term has a variable that is not declared. -/
  | undeclaredIndex
  deriving DecidableEq, Repr

def SolveFault.message : SolveFault → String
  | noVariables => "Solver Error: QUBO has no variables"
  | notFinite => "Solver Error: QUBO has a non-finite coefficient"
  | undeclaredIndex => "index out of range"

/-- How to search: the seed and the sweeps of annealing, and the most variables
    for which it is not needed. -/
structure SolveOptions where
  seed : UInt64 := 42
  sweeps : Nat := 1000
  exhaustiveLimit : Nat := 20

/-- The most variables for which all assignments are passed. -/
def maxExhaustive : Nat := 30

namespace Qubo

/-- Whether the terms that are not zero have only declared variables. -/
def isDeclared {R : Type} [Coefficient R] (q : Qubo R) : Bool :=
  q.terms.all fun (pair, c) => Coefficient.isZero c || decide (pair.high < q.size)

def isFinite (q : Qubo Float) : Bool :=
  Number.isFinite q.offset && q.terms.all fun (_, c) => Number.isFinite c

def solution {R : Type} (q : Qubo R) (method : SolveMethod) (w : Walk R) : Solution R :=
  ⟨q.names.zip w.best.toList, w.bestEnergy, method⟩

def solveExhaustively {R : Type} [Coefficient R] (q : Qubo R) : Solution R :=
  q.solution .exhaustive (Walk.exhaustive (.ofQubo q))

def solveByAnnealing (q : Qubo Float) (options : SolveOptions) : Solution Float :=
  let c := Couplings.ofQubo q
  q.solution .annealing
    (Walk.anneal streamChance c (c.temperatures options.sweeps) (.ofSeed options.seed))

def solve (q : Qubo Float) (options : SolveOptions) : Except SolveFault (Solution Float) :=
  if q.isEmpty then .error .noVariables
  else if !q.isFinite then .error .notFinite
  else if !q.isDeclared then .error .undeclaredIndex
  else if q.size ≤ min options.exhaustiveLimit maxExhaustive then .ok q.solveExhaustively
  else .ok (q.solveByAnnealing options)

end Qubo

end StrategyQubo
