namespace StrategyQubo

/-! # Sparse coefficients

Coefficients under keys, as a list that is sorted by key and holds each key
once.
-/

abbrev Sparse (K R : Type) := List (K × R)

namespace Sparse

variable {K R : Type} [DecidableEq K] [LT K] [DecidableLT K]

def get? (key : K) (entries : Sparse K R) : Option R :=
  entries.lookup key

/-- Replaces what is kept under a key by a function of it; the entry goes when
    the function gives nothing. -/
def alter (change : Option R → Option R) (key : K) : Sparse K R → Sparse K R
  | [] => (change none).toList.map (key, ·)
  | (other, c) :: rest =>
      if key = other then
        (change (some c)).toList.map (key, ·) ++ rest
      else if key < other then
        (change none).toList.map (key, ·) ++ (other, c) :: rest
      else
        (other, c) :: alter change key rest

/-- Every key stands before the keys that follow it. -/
def IsSorted (entries : Sparse K R) : Prop :=
  entries.Pairwise fun a b => a.1 < b.1

end Sparse

end StrategyQubo
