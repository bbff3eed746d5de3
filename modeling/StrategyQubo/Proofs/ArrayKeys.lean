import Mathlib.Data.List.Induction
import StrategyQubo.Proofs.ExactNumbers
import StrategyQubo.Proofs.PlainNumbers
import StrategyQubo.Script.Property

namespace StrategyQubo

/-! # Array keys

An index is written in one way only, without sign and without a needless zero,
and a length is a double that is a whole number.
-/

namespace Number

/-! ## Numerals -/

theorem digit_lt_ten {c : Char} (digit : c.isDigit = true) : c.toNat - '0'.toNat < 10 := by
  have high : c.toNat ≤ 57 := (Char.isDigit_iff_toNat.mp digit).2
  have zero : '0'.toNat = 48 := rfl
  omega

theorem digitChar_of_isDigit {c : Char} (digit : c.isDigit = true) :
    (c.toNat - '0'.toNat).digitChar = c := by
  have low : 48 ≤ c.toNat := (Char.isDigit_iff_toNat.mp digit).1
  have zero : '0'.toNat = 48 := rfl
  apply Char.toNat_inj.mp
  rw [Nat.toNat_digitChar_of_lt_ten (digit_lt_ten digit)]
  omega

theorem digitsValue_concat (front : List Char) (c : Char) :
    digitsValue (front ++ [c]) = 10 * digitsValue front + (c.toNat - '0'.toNat) := by
  rw [digitsValue, List.foldl_append, List.foldl_cons, List.foldl_nil, ← digitsValue, Nat.mul_comm]

/-- Digits that do not begin with a needless zero are those of their value. -/
theorem toDigits_digitsValue {digits : List Char} (filled : digits ≠ [])
    (decimal : ∀ c ∈ digits, c.isDigit = true)
    (short : digits.head? = some '0' → digits.length ≤ 1) :
    Nat.toDigits 10 (digitsValue digits) = digits := by
  induction digits using List.reverseRecOn with
  | nil => exact absurd rfl filled
  | append_singleton front c ih =>
      obtain ⟨decimal, digit⟩ := List.forall_mem_append.mp decimal
      have digit := List.forall_mem_singleton.mp digit
      rw [digitsValue_concat]
      cases front with
      | nil =>
          rw [Nat.toDigits_of_lt_base (by simpa [digitsValue] using digit_lt_ten digit)]
          simp only [digitsValue, List.foldl_nil, Nat.mul_zero, Nat.zero_add, List.nil_append]
          rw [digitChar_of_isDigit digit]
      | cons first more =>
          have noZero : first ≠ '0' := by
            rintro rfl
            have := short rfl
            simp at this
          have whole := ih (by simp) decimal (by simp [noZero])
          have positive : 0 < digitsValue (first :: more) := by
            refine Nat.pos_of_ne_zero fun zero => ?_
            rw [zero] at whole
            rw [Nat.toDigits_zero] at whole
            exact noZero (List.cons.inj whole).1.symm
          rw [← Nat.toDigits_append_toDigits (by decide) positive (digit_lt_ten digit), whole,
            Nat.toDigits_of_lt_base (digit_lt_ten digit), digitChar_of_isDigit digit]

theorem eq_zero_of_head?_toDigits {n : Nat} (zero : (Nat.toDigits 10 n).head? = some '0') :
    n = 0 := by
  induction n using Nat.strongRecOn with
  | ind n ih =>
      rw [Nat.toDigits_eq_if (by decide)] at zero
      split at zero
      · next small =>
        have digit := congrArg Char.toNat (Option.some.inj zero)
        rw [Nat.toNat_digitChar_of_lt_ten small] at digit
        exact Nat.add_left_cancel digit
      · next large =>
        rw [List.head?_append_of_ne_nil _ Nat.toDigits_ne_nil] at zero
        have lower := ih (n / 10) (by omega) zero
        omega

/-! ## Whole numbers -/

/-- A finite double that is this number. -/
def IsCount (x : Float) (n : Nat) : Prop :=
  isFinite x = true ∧ toRat x = n

theorem Dyadic.toRat_of_isWhole {value : Dyadic} (whole : value.isWhole = true)
    (positive : value.negative = false ∨ value.mantissa = 0) : value.toRat = value.wholePart := by
  unfold toRat wholePart
  have sign : (if value.negative then (-1 : Rat) else 1) * value.mantissa = value.mantissa := by
    rcases positive with plus | zero
    · simp [plus]
    · simp [zero]
  by_cases up : 0 ≤ value.exponent
  · rw [if_pos up, if_pos up, Rat.mkRat_one]
    push_cast
    rw [← mul_assoc, sign]
  · rw [if_neg up, if_neg up, Rat.mkRat_eq_div]
    simp only [isWhole, Bool.or_eq_true, decide_eq_true_eq, beq_iff_eq] at whole
    obtain ⟨quotient, divides⟩ := Nat.dvd_of_mod_eq_zero (whole.resolve_left up)
    have nonzero : (pow2 (-value.exponent).toNat : Rat) ≠ 0 := by simp [pow2]
    push_cast
    rw [sign, divides, Nat.mul_div_cancel_left _ (by simp [pow2])]
    push_cast
    field_simp

/-- One of the two powers is one. -/
theorem Dyadic.scaled_of_toRat {value : Dyadic} {n : Nat} (same : value.toRat = n) :
    (if value.negative then (-1 : Int) else 1) * value.mantissa * pow2 value.exponent.toNat =
      n * pow2 (-value.exponent).toNat := by
  unfold toRat at same
  by_cases up : 0 ≤ value.exponent
  · rw [if_pos up, Rat.mkRat_one] at same
    have down : pow2 (-value.exponent).toNat = 1 := by
      rw [Int.toNat_of_nonpos (by omega)]
    rw [down, Nat.cast_one, mul_one, mul_assoc]
    exact_mod_cast same
  · rw [if_neg up, Rat.mkRat_eq_div] at same
    have nonzero : (pow2 (-value.exponent).toNat : Rat) ≠ 0 := by simp [pow2]
    have none : pow2 value.exponent.toNat = 1 := by
      rw [Int.toNat_of_nonpos (by omega)]
    rw [div_eq_iff nonzero] at same
    rw [none, Nat.cast_one, mul_one]
    exact_mod_cast same

theorem Dyadic.isWhole_of_toRat {value : Dyadic} {n : Nat} (same : value.toRat = n) :
    value.isWhole = true ∧ (value.negative = false ∨ value.mantissa = 0) := by
  have scaled := scaled_of_toRat same
  have positive : value.negative = false ∨ value.mantissa = 0 := by
    cases negative : value.negative with
    | false => exact .inl rfl
    | true =>
        refine .inr ?_
        have opposite : -((value.mantissa * pow2 value.exponent.toNat : Nat) : Int) =
            (n * pow2 (-value.exponent).toNat : Nat) := by
          simpa [negative] using scaled
        have product : value.mantissa * pow2 value.exponent.toNat = 0 := by omega
        exact (Nat.mul_eq_zero.mp product).resolve_right (by simp [pow2])
  refine ⟨?_, positive⟩
  simp only [isWhole, Bool.or_eq_true, decide_eq_true_eq, beq_iff_eq]
  by_cases up : 0 ≤ value.exponent
  · exact .inl up
  · refine .inr ?_
    rcases positive with plus | zero
    · have none : pow2 value.exponent.toNat = 1 := by
        rw [Int.toNat_of_nonpos (by omega)]
      have divides : value.mantissa = n * pow2 (-value.exponent).toNat := by
        rw [plus, none, Nat.cast_one, mul_one, if_neg (by decide), one_mul] at scaled
        exact_mod_cast scaled
      rw [divides, Nat.mul_mod_left]
    · rw [zero, Nat.zero_mod]

end Number

namespace Script

/-! ## Keys -/

/-- An element is addressed by the numeral of its index, and by no other text. -/
theorem arrayIndex?_eq_some_iff {key : String} {index : Nat} :
    arrayIndex? key = some index ↔ key = toString index ∧ index ≤ maxArrayIndex := by
  constructor
  · intro found
    simp only [arrayIndex?] at found
    split at found
    · cases found
    · next decimal =>
      split at found
      · cases found
      · next short =>
        split at found
        · next atMost =>
          cases found
          simp only [Bool.or_eq_true, List.isEmpty_iff, Bool.not_eq_true', not_or,
            Bool.not_eq_false, List.all_eq_true] at decimal
          have same := Number.toDigits_digitsValue decimal.1 decimal.2 fun zero =>
            Nat.le_of_not_lt fun long => short ⟨zero, long⟩
          refine ⟨?_, atMost⟩
          rw [Nat.toString_eq_ofList_toDigits, same, String.ofList_toList]
        · cases found
  · rintro ⟨rfl, atMost⟩
    have filled := Number.toList_toString_ne_nil index
    have decimal : ∀ c ∈ (toString index).toList, c.isDigit = true := fun _ =>
      Number.isDigit_of_mem_toString
    have short : ¬ ((toString index).toList.head? = some '0' ∧ 1 < (toString index).toList.length) := by
      rintro ⟨zero, long⟩
      rw [Nat.toString_eq_ofList_toDigits, String.toList_ofList] at zero
      rw [Number.eq_zero_of_head?_toDigits zero] at long
      exact absurd long (by decide)
    have digits : ¬ ((toString index).toList.isEmpty || !(toString index).toList.all Char.isDigit) := by
      rw [List.all_eq_true.mpr decimal, Bool.not_true, Bool.or_false, List.isEmpty_iff]
      exact filled
    simp only [arrayIndex?]
    rw [if_neg digits, if_neg short, Number.digitsValue_toString, if_pos atMost]

/-- A length is asked for by the number that it is. -/
theorem arrayLength?_eq_some_iff {x : Float} {length : Nat} :
    arrayLength? x = some length ↔ Number.IsCount x length ∧ length < Number.pow2 32 := by
  unfold arrayLength? Number.IsCount Number.isFinite Number.toRat
  cases read : Number.decode x with
  | finite value =>
      simp only [true_and]
      constructor
      · intro found
        split at found
        · next counts =>
          simp only [Bool.and_eq_true, Bool.or_eq_true, Bool.not_eq_true', beq_iff_eq,
            decide_eq_true_eq] at counts
          cases found
          exact ⟨Number.Dyadic.toRat_of_isWhole counts.1.1 counts.1.2, counts.2⟩
        · cases found
      · rintro ⟨same, below⟩
        obtain ⟨whole, positive⟩ := Number.Dyadic.isWhole_of_toRat same
        have part : value.wholePart = length := by
          rw [Number.Dyadic.toRat_of_isWhole whole positive] at same
          exact_mod_cast same
        rw [if_pos (by simpa [whole, part, below] using positive), part]
  | _ => simp

end Script

end StrategyQubo
