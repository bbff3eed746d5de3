namespace StrategyQubo.Number

/-! # Powers of two and of ten -/

abbrev pow2 (exponent : Nat) : Nat :=
  Nat.pow 2 exponent

abbrev pow10 (exponent : Nat) : Nat :=
  Nat.pow 10 exponent

end StrategyQubo.Number
