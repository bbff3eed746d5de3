import StrategyQubo.Document.Builder
import StrategyQubo.Qubo.Polynomial

namespace StrategyQubo

/-! # Quadratic problems

A problem is to find the zeros and ones that make a quadratic form of the
variables least.
-/

/-- The indices of the two variables of a term; a variable alone is paired with
    itself. -/
structure Pair where
  low : Nat
  high : Nat
  ordered : low ≤ high
  deriving DecidableEq

namespace Pair

def of (i j : Nat) : Pair :=
  if h : i ≤ j then ⟨i, j, h⟩ else ⟨j, i, by omega⟩

/-- By the first index, then by the second. -/
instance : LT Pair := ⟨fun a b => a.low < b.low ∨ a.low = b.low ∧ a.high < b.high⟩

instance : DecidableLT Pair := fun a b =>
  inferInstanceAs (Decidable (a.low < b.low ∨ a.low = b.low ∧ a.high < b.high))

end Pair

structure Qubo (R : Type) where
  names : List String
  terms : Sparse Pair R
  offset : R

namespace Qubo

variable {R : Type} [Coefficient R]

def ofVariables (names : List String) : Qubo R := ⟨names, [], 0⟩

def size (q : Qubo R) : Nat := q.names.length

def isEmpty (q : Qubo R) : Bool := q.names.isEmpty

def addTerm (q : Qubo R) (i j : Nat) (c : R) : Qubo R :=
  { q with terms := q.terms.alter (fun old => some (old.getD 0 + c)) (.of i j) }

def addOffset (q : Qubo R) (c : R) : Qubo R :=
  { q with offset := q.offset + c }

def term (q : Qubo R) (i j : Nat) : R :=
  (q.terms.get? (.of i j)).getD 0

def indexOf? (q : Qubo R) (name : String) : Option Nat :=
  q.names.idxOf? name

/-! ## Energy -/

/-- Whether both variables of a pair are one.  The second is looked up only
    when the first is one; a variable without a value gives nothing. -/
def bothSet? (assignment : List Bool) (pair : Pair) : Option Bool :=
  match assignment[pair.low]? with
  | some true => assignment[pair.high]?
  | first => first

def setCoefficients? (assignment : List Bool) : Sparse Pair R → Option (List R)
  | [] => some []
  | (pair, c) :: rest =>
      match bothSet? assignment pair, setCoefficients? assignment rest with
      | some both, some cs => some (if both then c :: cs else cs)
      | _, _ => none

/-- The value of the form, unless the assignment is too short for a term. -/
def energy? (q : Qubo R) (assignment : List Bool) : Option R :=
  (setCoefficients? assignment q.terms).map fun cs => Coefficient.sum cs + q.offset

/-! ## Problems from names -/

/-- The index of a name, which is declared if it is new. -/
def intern (q : Qubo R) (name : String) : Nat × Qubo R :=
  match q.indexOf? name with
  | some index => (index, q)
  | none => (q.size, { q with names := q.names ++ [name] })

def addPair (q : Qubo R) (names : String × String) (c : R) : Qubo R :=
  let (i, q) := q.intern names.1
  let (j, q) := q.intern names.2
  q.addTerm i j c

/-- The problem with these coefficients for pairs of names, which are declared
    as they come. -/
def ofPairs (pairs : List ((String × String) × R)) (offset : R) : Qubo R :=
  let q := pairs.foldl (fun q (names, c) => q.addPair names c) (ofVariables [])
  { q with offset := offset }

/-! ## The board -/

def cellWeight (cell : Nat) : Nat :=
  if cell = 4 then 9 else if cell % 2 = 0 then 7 else 5

/-- The terms of a cell, on its own and with every later cell. -/
def addCell (q : Qubo R) (cell : Nat) : Qubo R :=
  let later := (List.range 9).filter (cell < ·)
  later.foldl (fun q other => q.addTerm cell other (-Coefficient.ofNat 4))
    (q.addTerm cell cell (Coefficient.ofNat (cellWeight cell)))

/-- The problem that stands in for one that cannot be expanded. -/
def board : Qubo R :=
  let names := (List.range 9).map fun cell => cellVariable (toString cell)
  { (List.range 9).foldl addCell (ofVariables names) with offset := 1 }

end Qubo

end StrategyQubo
