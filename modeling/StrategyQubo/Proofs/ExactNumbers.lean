import Mathlib.Algebra.Order.BigOperators.Group.List
import Mathlib.Algebra.Order.Ring.Rat
import Mathlib.Data.Rat.Floor
import Mathlib.Tactic.FieldSimp
import StrategyQubo.Number.Coefficient

namespace StrategyQubo

/-! # Exact arithmetic

What the operations on coefficients are when coefficients are fractions, and
which doubles are exactly integers.
-/

namespace Coefficient

theorem isZero_iff (c : Rat) : isZero c = true ↔ c = 0 := by
  simp only [isZero, Bool.and_eq_true, decide_eq_true_eq]
  exact le_antisymm_iff.symm

theorem negativePart_eq (c : Rat) : negativePart c = min c 0 := by
  unfold negativePart
  split
  · next negative => exact (min_eq_left (le_of_lt negative)).symm
  · next nonnegative => exact (min_eq_right (not_lt.mp nonnegative)).symm

theorem positivePart_eq (c : Rat) : positivePart c = max c 0 := by
  unfold positivePart
  split
  · next positive => exact (max_eq_left (le_of_lt positive)).symm
  · next nonpositive => exact (max_eq_right (not_lt.mp nonpositive)).symm

theorem sum_eq (cs : List Rat) : Coefficient.sum cs = cs.sum := by
  unfold Coefficient.sum
  rw [List.sum_eq_foldl]
  simp

theorem magnitude_eq (c : Rat) : magnitude c = |c| := by
  change (if 0 ≤ c then c else -c) = |c|
  split
  · next nonnegative => exact (abs_of_nonneg nonnegative).symm
  · next negative => exact (abs_of_neg (not_le.mp negative)).symm

theorem ofNat_eq (n : Nat) : (Coefficient.ofNat n : Rat) = n := rfl

theorem inverse_eq (c : Rat) : inverse c = c⁻¹ := rfl

theorem power_eq (c : Rat) (n : Nat) : power c n = c ^ n := rfl

theorem isWhole_iff (c : Rat) : Coefficient.isWhole c = true ↔ ∃ n : Int, c = n := by
  change (c.den == 1) = true ↔ _
  rw [beq_iff_eq]
  constructor
  · intro whole
    exact ⟨c.num, ((Rat.den_eq_one_iff c).mp whole).symm⟩
  · rintro ⟨n, rfl⟩
    exact Rat.den_intCast n

theorem toNatWithin_natCast (limit n : Nat) :
    Coefficient.toNatWithin limit (n : Rat) = min limit n := by
  change min limit ⌊(n : Rat)⌋.toNat = min limit n
  rw [Int.floor_natCast, Int.toNat_natCast]

end Coefficient

namespace Number

theorem Dyadic.exists_int_of_isWhole {value : Dyadic} (whole : value.isWhole = true) :
    ∃ n : Int, value.toRat = n := by
  unfold Dyadic.toRat
  simp only [Dyadic.isWhole, Bool.or_eq_true, decide_eq_true_eq, beq_iff_eq] at whole
  by_cases up : 0 ≤ value.exponent
  · rw [if_pos up, Rat.mkRat_one]
    exact ⟨_, rfl⟩
  · rw [if_neg up, Rat.mkRat_eq_div]
    obtain ⟨quotient, divides⟩ := Nat.dvd_of_mod_eq_zero (whole.resolve_left up)
    have positive : (pow2 (-value.exponent).toNat : Rat) ≠ 0 := by simp [pow2]
    refine ⟨(if value.negative then -1 else 1) * quotient, ?_⟩
    rw [divides]
    push_cast
    field_simp

theorem exists_int_of_isWhole {x : Float} (whole : isWhole x = true) :
    ∃ n : Int, toRat x = n := by
  unfold isWhole at whole
  unfold toRat
  cases read : decode x with
  | finite value =>
      rw [read] at whole
      exact Dyadic.exists_int_of_isWhole whole
  | _ =>
      rw [read] at whole
      cases whole

end Number

end StrategyQubo
