import StrategyQubo.Proofs.SlackVariables

namespace StrategyQubo

open StrategyQubo.Script

/-! # Residuals

What is missing from a constraint at an assignment: the value of its left side
less its bound, made up by its slack variables.
-/

theorem exists_ok_of_any {ε α : Type} {e : Except ε α} {check : α → Bool}
    (passes : e.toOption.any check = true) : ∃ a, e = .ok a ∧ check a = true := by
  cases e with
  | error fault => cases passes
  | ok a => exact ⟨a, rfl, passes⟩

namespace Comparison

def Relates : Comparison → Rat → Rat → Prop
  | equal, a, b => a = b
  | atMost, a, b => a ≤ b
  | atLeast, a, b => b ≤ a

instance (comparison : Comparison) (a b : Rat) : Decidable (comparison.Relates a b) :=
  match comparison with
  | equal => inferInstanceAs (Decidable (a = b))
  | atMost => inferInstanceAs (Decidable (a ≤ b))
  | atLeast => inferInstanceAs (Decidable (b ≤ a))

/-- The sign with which slack is added to the left side. -/
def slackSign : Comparison → Rat
  | equal => 0
  | atMost => 1
  | atLeast => -1

theorem relates_iff {comparison : Comparison} (inequality : comparison ≠ equal) (a b : Rat) :
    comparison.Relates a b ↔ 0 ≤ comparison.slackSign * (b - a) := by
  cases comparison with
  | equal => exact absurd rfl inequality
  | atMost => simp [Relates, slackSign]
  | atLeast => simp [Relates, slackSign]

/-- Slack makes up for a difference exactly when it is that difference, taken
in the direction that is allowed. -/
theorem slack_balances {comparison : Comparison} (inequality : comparison ≠ equal) (a b s : Rat) :
    a - b + comparison.slackSign * s = 0 ↔ s = comparison.slackSign * (b - a) := by
  cases comparison with
  | equal => exact absurd rfl inequality
  | atMost =>
      simp only [slackSign]
      constructor <;> intro h <;> linarith
  | atLeast =>
      simp only [slackSign]
      constructor <;> intro h <;> linarith

end Comparison

namespace Constraint

/-- The constraint is met when the declared variables have these bits. -/
def Holds (v : Variables) (bits : List Bool) (c : Constraint) : Prop :=
  ∃ a, textValue? (v.reading bits) c.lhs = some a ∧ c.comparison.Relates a (Number.toRat c.rhs)

theorem holds_iff_any (v : Variables) (bits : List Bool) (c : Constraint) :
    c.Holds v bits ↔ (textValue? (v.reading bits) c.lhs).any
      (fun a => decide (c.comparison.Relates a (Number.toRat c.rhs))) = true := by
  simp [Holds, Option.any_eq_true]

instance (v : Variables) (bits : List Bool) (c : Constraint) : Decidable (c.Holds v bits) :=
  decidable_of_iff' _ (holds_iff_any v bits c)

/-- The weights of the slack variables of a constraint with this left side. -/
def slackBits (c : Constraint) (lhs : Polynomial Rat) : List UInt64 :=
  if c.comparison = .equal then []
  else slackWeights 1 (UInt64.ofNat (Coefficient.toNatWithin maxSlack (c.slackRange lhs)))

variable {v : Variables} {c : Constraint} {lhs : Polynomial Rat} {index first : Nat}

theorem holds_iff {bits : List Bool} (enough : v.size ≤ bits.length)
    (parsed : Polynomial.parse v.polynomial? c.lhs = .ok lhs) :
    c.Holds v bits ↔
      c.comparison.Relates (lhs.value (assignmentOf bits)) (Number.toRat c.rhs) := by
  have read := (v.parse_stands enough parsed).value_eq
  unfold Holds
  rw [read]
  constructor
  · rintro ⟨a, same, relates⟩
    exact Option.some.inj same ▸ relates
  · exact fun relates => ⟨_, rfl, relates⟩

/-- What the left side may still take, in the direction that is allowed, is
within the slack range. -/
theorem room_le_slackRange {size : Nat} (canonical : lhs.Canonical size)
    (inequality : c.comparison ≠ .equal) (x : Nat → Bool) :
    c.comparison.slackSign * (Number.toRat c.rhs - lhs.value x) ≤ c.slackRange lhs := by
  obtain ⟨low, high⟩ := canonical.bounds_le x
  unfold slackRange
  cases kind : c.comparison with
  | equal => exact absurd kind inequality
  | atMost =>
      change 1 * (Number.toRat c.rhs - lhs.value x) ≤ Number.toRat c.rhs - lhs.bounds.1
      linarith
  | atLeast =>
      change -1 * (Number.toRat c.rhs - lhs.value x) ≤ lhs.bounds.2 - Number.toRat c.rhs
      linarith

/-! ## What a residual is -/

theorem residual_cases {r : Polynomial Rat} {weights : List UInt64}
    (computed : c.residual index lhs first = .ok (r, weights)) :
    weights = c.slackBits lhs ∧
      (c.comparison ≠ .equal →
        lhs.isIntegral = true ∧ Number.isWhole c.rhs = true ∧ 0 ≤ c.slackRange lhs) ∧
      r = (match c.comparison with
        | .equal => lhs
        | .atMost => lhs.add (slackSum first weights)
        | .atLeast => lhs.sub (slackSum first weights)).sub
          (Polynomial.constant (Number.toRat c.rhs)) := by
  unfold residual at computed
  unfold slackBits
  dsimp only at computed
  split at computed
  · next equality =>
    cases computed
    simp only [equality]
    exact ⟨rfl, fun inequality => absurd rfl inequality, rfl⟩
  · next inequality =>
    split at computed
    · cases computed
    · next integral =>
      split at computed
      · cases computed
      · next possible =>
        cases computed
        refine ⟨(if_neg inequality).symm, fun _ => ⟨?_, ?_, not_lt.mp possible⟩, ?_⟩
        · simp_all
        · simp_all
        · cases kind : c.comparison with
          | equal => exact absurd kind inequality
          | atMost => rfl
          | atLeast => rfl

theorem residual_expansion {r : Polynomial Rat} {weights : List UInt64}
    (computed : c.residual index lhs first = .ok (r, weights)) (x : Nat → Bool) :
    r.value x = lhs.value x +
      c.comparison.slackSign * (slackSum first weights : Polynomial Rat).value x -
        Number.toRat c.rhs := by
  obtain ⟨-, -, rfl⟩ := residual_cases computed
  cases c.comparison with
  | equal => simp [Comparison.slackSign]
  | atMost => simp [Comparison.slackSign]
  | atLeast =>
      simp only [Polynomial.value_sub, Polynomial.value_constant, Comparison.slackSign]
      ring

theorem residual_value {r : Polynomial Rat} {weights : List UInt64}
    (computed : c.residual index lhs first = .ok (r, weights)) (bits : List Bool) :
    r.value (assignmentOf bits) =
      lhs.value (assignmentOf bits) - Number.toRat c.rhs +
        c.comparison.slackSign * slackTotal weights (bits.drop first) := by
  rw [residual_expansion computed, value_slackSum]
  ring

theorem residual_canonical {r : Polynomial Rat} {weights : List UInt64}
    (canonical : lhs.Canonical first)
    (computed : c.residual index lhs first = .ok (r, weights)) :
    r.Canonical (first + weights.length) := by
  obtain ⟨-, -, rfl⟩ := residual_cases computed
  have wider := canonical.mono (Nat.le_add_right first weights.length)
  have slack := canonical_slackSum first weights le_rfl
  refine Polynomial.Canonical.sub ?_ (Polynomial.canonical_constant _ _)
  cases c.comparison with
  | equal => exact wider
  | atMost => exact wider.add slack
  | atLeast => exact wider.sub slack

theorem residual_impossible {fault : Nat × Constraint}
    (failed : c.residual index lhs first = .error (.impossible fault.1 fault.2)) :
    c.comparison ≠ .equal ∧ c.slackRange lhs < 0 := by
  unfold residual at failed
  dsimp only at failed
  split at failed
  · cases failed
  · next inequality =>
    split at failed
    · cases failed
    · split at failed
      · next negative => exact ⟨inequality, negative⟩
      · cases failed

/-! ## Meeting the bound -/

/-- The room that integers leave is an integer. -/
theorem exists_int_room (integral : lhs.isIntegral = true)
    (whole : Number.isWhole c.rhs = true) (x : Nat → Bool) :
    ∃ k : Int, c.comparison.slackSign * (Number.toRat c.rhs - lhs.value x) = k := by
  obtain ⟨a, left⟩ := Polynomial.exists_int_value integral x
  obtain ⟨b, right⟩ := Number.exists_int_of_isWhole whole
  rw [left, right]
  cases c.comparison with
  | equal => exact ⟨0, by simp [Comparison.slackSign]⟩
  | atMost => exact ⟨b - a, by simp [Comparison.slackSign]⟩
  | atLeast => exact ⟨a - b, by simp [Comparison.slackSign]⟩

theorem exists_nat_slackRange (inequality : c.comparison ≠ .equal)
    (integral : lhs.isIntegral = true) (whole : Number.isWhole c.rhs = true)
    (possible : 0 ≤ c.slackRange lhs) : ∃ range : Nat, c.slackRange lhs = range := by
  obtain ⟨⟨low, lower⟩, high, upper⟩ := Polynomial.exists_int_bounds integral
  obtain ⟨b, right⟩ := Number.exists_int_of_isWhole whole
  have integer : ∃ k : Int, c.slackRange lhs = k := by
    unfold slackRange
    cases kind : c.comparison with
    | equal => exact absurd kind inequality
    | atMost =>
        refine ⟨b - low, ?_⟩
        change Number.toRat c.rhs - lhs.bounds.1 = _
        rw [right, lower]
        push_cast
        rfl
    | atLeast =>
        refine ⟨high - b, ?_⟩
        change lhs.bounds.2 - Number.toRat c.rhs = _
        rw [right, upper]
        push_cast
        rfl
  obtain ⟨k, range⟩ := integer
  rw [range] at possible
  obtain ⟨n, rfl⟩ := Int.eq_ofNat_of_zero_le (Int.cast_nonneg_iff.mp possible)
  exact ⟨n, range⟩

/-- The slack makes exactly the natural numbers up to the range, or up to the
largest word where the range is beyond that. -/
theorem exists_slack_iff (inequality : c.comparison ≠ .equal) {range : Nat}
    (ranges : c.slackRange lhs = range) (n : Nat) :
    (∃ slack, slack.length = (c.slackBits lhs).length ∧
      slackTotal (c.slackBits lhs) slack = n) ↔ n ≤ min maxSlack range := by
  have limit : maxSlack = 2 ^ 64 - 1 := rfl
  have word : (UInt64.ofNat (Coefficient.toNatWithin maxSlack (c.slackRange lhs))).toNat =
      min maxSlack range := by
    rw [ranges, Coefficient.toNatWithin_natCast, UInt64.toNat_ofNat']
    omega
  rw [slackBits, if_neg inequality, exists_slackTotal_iff, word]

/-- Some slack balances an inequality exactly where it holds with room that
fits a word. -/
theorem exists_balance_iff {size : Nat} (inequality : c.comparison ≠ .equal)
    (canonical : lhs.Canonical size) (integral : lhs.isIntegral = true)
    (whole : Number.isWhole c.rhs = true) (possible : 0 ≤ c.slackRange lhs) (x : Nat → Bool) :
    (∃ slack : List Bool, slack.length = (c.slackBits lhs).length ∧
      lhs.value x - Number.toRat c.rhs +
        c.comparison.slackSign * slackTotal (c.slackBits lhs) slack = 0) ↔
    c.comparison.Relates (lhs.value x) (Number.toRat c.rhs) ∧
      c.comparison.slackSign * (Number.toRat c.rhs - lhs.value x) ≤ maxSlack := by
  obtain ⟨range, ranges⟩ := exists_nat_slackRange inequality integral whole possible
  obtain ⟨k, room⟩ := exists_int_room integral whole x
  have atMost := room_le_slackRange canonical inequality x
  rw [Comparison.relates_iff inequality, room]
  rw [room, ranges] at atMost
  simp only [Comparison.slack_balances inequality, room]
  constructor
  · rintro ⟨slack, sameLength, made⟩
    have within := (exists_slack_iff inequality ranges _).mp ⟨slack, sameLength, rfl⟩
    rw [← made]
    exact ⟨Nat.cast_nonneg _, by exact_mod_cast le_trans within (min_le_left _ _)⟩
  · rintro ⟨nonneg, fits⟩
    obtain ⟨n, rfl⟩ := Int.eq_ofNat_of_zero_le (Int.cast_nonneg_iff.mp nonneg)
    rw [Int.cast_natCast] at fits atMost
    have within : n ≤ min maxSlack range :=
      le_min (by exact_mod_cast fits) (by exact_mod_cast atMost)
    obtain ⟨slack, sameLength, made⟩ := (exists_slack_iff inequality ranges n).mpr within
    exact ⟨slack, sameLength, by rw [made, Int.cast_natCast]⟩

/-- The residual of an inequality between integers: its slack sum takes the
integers of the slack range and no other number, some setting of the slack
makes it zero exactly where the constraint holds, and where there is none
because the constraint is impossible it holds nowhere. -/
theorem residual_meets_bound (inequality : c.comparison ≠ .equal)
    (parsed : Polynomial.parse v.polynomial? c.lhs = .ok lhs) (declared : v.size ≤ first)
    (integral : lhs.isIntegral = true) (whole : Number.isWhole c.rhs = true)
    (below : c.slackRange lhs < 2 ^ 63) :
    (∀ r weights, c.residual index lhs first = .ok (r, weights) →
      (∀ x, r.value x = lhs.value x +
        c.comparison.slackSign * (slackSum first weights : Polynomial Rat).value x -
          Number.toRat c.rhs) ∧
      ∀ bits : List Bool, bits.length = first →
        ((∃ slack : List Bool, slack.length = weights.length ∧
          r.value (assignmentOf (bits ++ slack)) = 0) ↔ c.Holds v bits) ∧
        ∀ n : Rat, (∃ slack : List Bool, slack.length = weights.length ∧
          (slackSum first weights : Polynomial Rat).value (assignmentOf (bits ++ slack)) = n) ↔
            ∃ k : Nat, n = k ∧ n ≤ c.slackRange lhs) ∧
    ∀ fault : Nat × Constraint,
      c.residual index lhs first = .error (.impossible fault.1 fault.2) →
        ∀ bits : List Bool, bits.length = first → ¬ c.Holds v bits := by
  have word : ((2 : Rat) ^ 63) ≤ maxSlack := by norm_num [maxSlack, Number.pow2]
  have canonical : lhs.Canonical first := (Variables.parse_canonical parsed).mono declared
  refine ⟨?_, ?_⟩
  · intro r weights computed
    refine ⟨residual_expansion computed, fun bits sameLength => ?_⟩
    subst sameLength
    have room := room_le_slackRange canonical inequality (assignmentOf bits)
    have values := residual_value computed
    obtain ⟨rfl, checked, -⟩ := residual_cases computed
    obtain ⟨-, -, possible⟩ := checked inequality
    refine ⟨?_, fun n => ?_⟩
    · simp only [values, canonical.value_append le_rfl, List.drop_left]
      rw [exists_balance_iff inequality canonical integral whole possible,
        holds_iff declared parsed]
      exact and_iff_left (by linarith)
    · obtain ⟨range, ranges⟩ := exists_nat_slackRange inequality integral whole possible
      have fits : range ≤ maxSlack := by
        rw [ranges] at below
        exact_mod_cast (le_trans below.le word)
      simp only [value_slackSum, List.drop_left]
      constructor
      · rintro ⟨slack, sameLength, rfl⟩
        have within := (exists_slack_iff inequality ranges _).mp ⟨slack, sameLength, rfl⟩
        exact ⟨_, rfl, by rw [ranges]; exact_mod_cast le_trans within (min_le_right _ _)⟩
      · rintro ⟨k, rfl, within⟩
        rw [ranges] at within
        obtain ⟨slack, sameLength, made⟩ := (exists_slack_iff inequality ranges k).mpr
          (le_min (le_trans (by exact_mod_cast within) fits) (by exact_mod_cast within))
        exact ⟨slack, sameLength, by rw [made]⟩
  · intro fault failed bits sameLength holds
    obtain ⟨-, negative⟩ := residual_impossible failed
    have room := room_le_slackRange canonical inequality (assignmentOf bits)
    rw [holds_iff (sameLength ▸ declared) parsed, Comparison.relates_iff inequality] at holds
    linarith

/-- Two binaries, a spin, and a bound that leaves a range of four. -/
theorem residual_meets_bound_mixed :
    ∃ v : Variables, v.size = 3 ∧ ∃ lhs : Polynomial Rat,
      Polynomial.parse v.polynomial? "2 * a + 3 * b - s" = .ok lhs ∧
      lhs.isIntegral = true ∧ (⟨"2 * a + 3 * b - s", .atMost, 3.0⟩ : Constraint).slackRange lhs = 4 ∧
      ∃ r weights,
        (⟨"2 * a + 3 * b - s", .atMost, 3.0⟩ : Constraint).residual 0 lhs 3 = .ok (r, weights) ∧
        weights = [1, 2, 1] ∧
        ∀ bits : List Bool, bits.length = 3 →
          ((∃ slack : List Bool, slack.length = 3 ∧
            r.value (assignmentOf (bits ++ slack)) = 0) ↔
            (⟨"2 * a + 3 * b - s", .atMost, 3.0⟩ : Constraint).Holds v bits) := by
  let v : Variables := .ofList [("a", .binary), ("b", .binary), ("s", .spin)]
  let c : Constraint := ⟨"2 * a + 3 * b - s", .atMost, 3.0⟩
  have size : v.size = 3 := by decide +kernel
  have whole : Number.isWhole c.rhs = true := by decide +kernel
  have run : (Polynomial.parse (R := Rat) v.polynomial? c.lhs).toOption.any (fun p =>
      p.isIntegral && decide (c.slackRange p = 4) &&
        (c.residual 0 p 3).toOption.any fun found => found.2 == [1, 2, 1]) = true := by
    decide +kernel
  obtain ⟨lhs, parsed, checked⟩ := exists_ok_of_any run
  simp only [Bool.and_eq_true, decide_eq_true_eq] at checked
  obtain ⟨⟨integral, range⟩, computed⟩ := checked
  obtain ⟨⟨r, weights⟩, computed, same⟩ := exists_ok_of_any computed
  obtain rfl : weights = [1, 2, 1] := by simpa using same
  have below : c.slackRange lhs < 2 ^ 63 := by rw [range]; norm_num
  have inequality : c.comparison ≠ .equal := by decide
  obtain ⟨met, -⟩ := residual_meets_bound inequality parsed (le_of_eq size) integral whole below
  exact ⟨v, size, lhs, parsed, integral, range, r, _, computed, rfl,
    fun bits sameLength => ((met r _ computed).2 bits sameLength).1⟩

end Constraint

end StrategyQubo
