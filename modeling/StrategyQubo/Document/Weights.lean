import StrategyQubo.Document.Builder
import StrategyQubo.Log

namespace StrategyQubo

/-! # Weights of cells and pairs

The short form of a strategy's answer: weights by cell and by pair of cells,
in the order given, and the document that they stand for.
-/

structure Weights where
  linear : List (String × Float)
  quadratic : List (String × Float)

namespace Weights

def isEmpty (w : Weights) : Bool :=
  w.linear.isEmpty && w.quadratic.isEmpty

/-- The two sides of the first comma. -/
def splitPair? (key : String) : Option (String × String) :=
  let first := key.toList.takeWhile (· != ',')
  match key.toList.dropWhile (· != ',') with
  | _ :: second => some (String.ofList first, String.ofList second)
  | [] => none

/-- The names of the two cells of a pair. -/
def pairNames? (key : String) : Option (String × String) :=
  (splitPair? key).map fun (first, second) =>
    (cellVariable (Text.trim first), cellVariable (Text.trim second))

def addLinear (b : Builder) (entry : String × Float) : Builder :=
  let name := cellVariable entry.1
  (b.declare name .binary).term entry.2 [name]

def skippedKey (key : String) : LogEntry :=
  ⟨.warn, "quadratic key without a comma skipped", [("key", key)]⟩

/-- A key that names no pair leaves a line in the log and nothing else. -/
def addQuadratic (state : Builder × List LogEntry) (entry : String × Float) :
    Builder × List LogEntry :=
  match pairNames? entry.1 with
  | some (first, second) =>
      let b := (state.1.declare first .binary).declare second .binary
      (b.term entry.2 [first, second], state.2)
  | none => (state.1, state.2 ++ [skippedKey entry.1])

/-- The document with one variable for each cell mentioned, one term for each
    weight that is not zero, and the constraint that exactly one cell is
    chosen. -/
def normalize (w : Weights) : Document × List LogEntry :=
  let linear := w.linear.foldl addLinear .empty
  let (b, log) := w.quadratic.foldl addQuadratic (linear, [])
  (b.exactlyOne.build, log)

end Weights

end StrategyQubo
