namespace StrategyQubo.Text

/-! # Sets of characters as ranges of code points

The tables of character properties and case mappings are those of Unicode 17.
-/

/-- Whether the code point lies in one of the closed ranges. -/
def inRanges (ranges : Array (Nat × Nat)) (c : Char) : Bool :=
  ranges.any fun (low, high) => low ≤ c.toNat && c.toNat ≤ high

end StrategyQubo.Text
