namespace StrategyQubo.Script

/-! # Limits of an evaluation -/

/-- Resources that a script may use.  A fresh machine starts its random draws
    from the seed. -/
structure Limits where
  stepBudget : Nat := 200000
  timeBudgetMs : Nat := 5000
  maxCallDepth : Nat := 64
  maxCollectionLen : Nat := 65536
  randomSeed : UInt64 := 0
  deriving DecidableEq, Repr

/-- No setting lifts the call depth above this. -/
def callDepthCap : Nat := 128

/-- Statements and expressions that may be under evaluation at once. -/
def maxEvalDepth : Nat := 384

/-- The clock is looked at whenever this many steps have been made. -/
def clockInterval : Nat := 1024

def Limits.callDepth (limits : Limits) : Nat :=
  min limits.maxCallDepth callDepthCap

end StrategyQubo.Script
