import Mathlib.Data.Nat.Size
import StrategyQubo.Proofs.Residuals

namespace StrategyQubo

/-! # Slack words

The weights of slack variables are made in words of 64 bits, one turn of a loop
for each, until nothing of the range is left.  No turn takes more than is left.
Every turn doubles the weight for the next one, the last turn too: for a range
from `2 ^ 63` on that doubling is beyond a word.
-/

/-- The next weight, and what is left of the range. -/
structure SlackLoop where
  weight : UInt64
  remaining : UInt64

namespace SlackLoop

/-- What a turn takes from the range, which is the weight of its variable. -/
def bit (s : SlackLoop) : UInt64 :=
  min s.weight s.remaining

def turn (s : SlackLoop) : SlackLoop :=
  ⟨s.weight * 2, s.remaining - s.bit⟩

/-- Before the turn of this index. -/
def before (range : UInt64) : Nat → SlackLoop
  | 0 => ⟨1, range⟩
  | index + 1 => (before range index).turn

/-- No more is taken than is left. -/
def Takes (s : SlackLoop) : Prop :=
  s.bit.toNat ≤ s.remaining.toNat

/-! ## One turn -/

theorem toNat_bit (s : SlackLoop) : s.bit.toNat = min s.weight.toNat s.remaining.toNat :=
  UInt64.toNat_min s.weight s.remaining

theorem takes (s : SlackLoop) : s.Takes := by
  rw [Takes, toNat_bit]
  exact min_le_right _ _

variable (range : UInt64)

theorem size_le : Nat.size range.toNat ≤ 64 :=
  Nat.size_le.mpr range.toNat_lt

end SlackLoop

namespace Constraint

variable {R : Type} [Coefficient R] {c : Constraint} {index first : Nat} {lhs r : Polynomial R}
  {weights : List UInt64}

end Constraint

end StrategyQubo
