import Mathlib.Data.String.Basic
import Mathlib.Data.Nat.Digits.Defs
import Mathlib.Tactic.Ring
import StrategyQubo.Script.Builtin

namespace StrategyQubo

/-! # Sizes of written numbers

Whatever its layout, the text of a double is short.  The bounds are generous:
none of them is the best one.
-/

namespace Number

/-! ## Whole numbers -/

theorem utf8Len_eq_length {chars : List Char} (digits : ∀ c ∈ chars, c.isDigit = true) :
    String.utf8Len chars = chars.length := by
  induction chars with
  | nil => rfl
  | cons c rest ih =>
      obtain ⟨digit, digits⟩ := List.forall_mem_cons.mp digits
      have low : c.val ≤ 127 := Nat.le_trans (Char.isDigit_iff_toNat.mp digit).2 (by decide)
      have narrow : c.utf8Size = 1 := if_pos low
      rw [String.utf8Len_cons, ih digits, List.length_cons, narrow]

theorem utf8ByteSize_toString (n : Nat) :
    (toString n).utf8ByteSize = (Nat.toDigits 10 n).length := by
  rw [Nat.toString_eq_ofList_toDigits, String.utf8ByteSize_ofList]
  exact utf8Len_eq_length fun c member => Nat.isDigit_of_mem_toDigits (by decide) (by decide) member

theorem length_toString (n : Nat) : (toString n).length = (toString n).utf8ByteSize := by
  rw [utf8ByteSize_toString, Nat.toString_eq_ofList_toDigits, String.length_ofList]

theorem utf8ByteSize_toString_le {n width : Nat} (some : 0 < width) (below : n < 10 ^ width) :
    (toString n).utf8ByteSize ≤ width := by
  rw [utf8ByteSize_toString]
  exact Nat.toDigits_length 10 n width some below

/-- The numeral of a number is no longer than counting up to it from zero. -/
theorem utf8ByteSize_toString_le_succ (n : Nat) : (toString n).utf8ByteSize ≤ n + 1 :=
  utf8ByteSize_toString_le (Nat.succ_pos n)
    (Nat.lt_trans (Nat.lt_succ_self n) (Nat.lt_pow_self (by decide)))

/-- A numeral with zeros behind it. -/
theorem utf8ByteSize_toString_add_le {digits shift width : Nat} (nonzero : digits ≠ 0)
    (below : digits * 10 ^ shift < 10 ^ width) :
    (toString digits).utf8ByteSize + shift ≤ width := by
  have room : shift < width := by
    refine (Nat.pow_lt_pow_iff_right (by decide : 1 < 10)).mp (Nat.lt_of_le_of_lt ?_ below)
    exact Nat.le_mul_of_pos_left _ (Nat.pos_of_ne_zero nonzero)
  have numeral : (toString digits).utf8ByteSize ≤ width - shift := by
    refine utf8ByteSize_toString_le (Nat.sub_pos_of_lt room) ?_
    refine Nat.lt_of_mul_lt_mul_right (a := 10 ^ shift) ?_
    rwa [← Nat.pow_add, Nat.sub_add_cancel (Nat.le_of_lt room)]
  omega

theorem utf8ByteSize_zeros (count : Nat) : (zeros count).utf8ByteSize = count := by
  have digits : ∀ c ∈ List.replicate count '0', c.isDigit = true := by
    intro c member
    rw [List.eq_of_mem_replicate member]
    rfl
  rw [zeros, String.utf8ByteSize_ofList, utf8Len_eq_length digits, List.length_replicate]

theorem utf8ByteSize_sign_le (negative : Bool) :
    (if negative then "-" else "").utf8ByteSize ≤ 1 := by
  cases negative <;> decide

/-- A text that is cut in two. -/
theorem utf8ByteSize_take_add_drop (text : String) (width : Nat) :
    (String.ofList (text.toList.take width)).utf8ByteSize +
      (String.ofList (text.toList.drop width)).utf8ByteSize = text.utf8ByteSize := by
  rw [String.utf8ByteSize_ofList, String.utf8ByteSize_ofList, ← String.utf8Len_append,
    List.take_append_drop, String.utf8Len_toList]

/-! ## Doubles -/

def greatestExponent : Nat := 971

/-- The range of the doubles. -/
structure Dyadic.InRange (value : Dyadic) : Prop where
  mantissa : value.mantissa < 2 ^ 53
  low : -1074 ≤ value.exponent
  high : value.exponent ≤ greatestExponent

theorem decode_inRange {x : Float} {value : Dyadic} (read : decode x = .finite value) :
    value.InRange := by
  have fraction : x.toBits.toNat % pow2 52 < pow2 52 := Nat.mod_lt _ (by decide)
  have biased : x.toBits.toNat / pow2 52 % pow2 11 < 2048 := Nat.mod_lt _ (by decide)
  have half : pow2 52 + pow2 52 = 2 ^ 53 := by decide
  have greatest : (greatestExponent : Int) = 971 := rfl
  simp only [decode] at read
  split at read
  · split at read <;> cases read
  · split at read
    · cases read
      exact ⟨by dsimp only; omega, Int.le_refl _, by dsimp only; omega⟩
    · cases read
      exact ⟨by dsimp only; omega, by dsimp only; omega, by dsimp only; omega⟩

/-- A power of ten above every double, and its inverse below every one that is
    not zero. -/
def widestPower : Nat := 341

/-- Few digits, and none of them far behind the point. -/
structure Decimal.Modest (d : Decimal) : Prop where
  places : -(widestPower : Int) ≤ d.exponent
  digits : d.digits * 10 ^ d.exponent.toNat < 10 ^ (widestPower + 1 + (-d.exponent).toNat)

theorem Decimal.Modest.utf8ByteSize_positional_le {d : Decimal} (modest : d.Modest) :
    d.positional.utf8ByteSize ≤ 2 * widestPower + 2 := by
  obtain ⟨digits, exponent⟩ := d
  obtain ⟨places, below⟩ := modest
  have same := length_toString digits
  simp only [Decimal.positional]
  dsimp only at places below
  split
  · rename_i whole
    split
    · decide
    · rename_i nonzero
      have none : (-exponent).toNat = 0 := by omega
      rw [none, Nat.add_zero] at below
      have width := utf8ByteSize_toString_add_le nonzero below
      rw [String.utf8ByteSize_append, utf8ByteSize_zeros]
      omega
  · rename_i fraction
    have none : exponent.toNat = 0 := by omega
    rw [none, Nat.pow_zero, Nat.mul_one] at below
    have width := utf8ByteSize_toString_le (by omega) below
    split
    · have lead : "0.".utf8ByteSize = 2 := by decide
      rw [String.utf8ByteSize_append, String.utf8ByteSize_append, utf8ByteSize_zeros, lead]
      omega
    · have point : ".".utf8ByteSize = 1 := by decide
      have parts := utf8ByteSize_take_add_drop (toString digits)
        ((toString digits).length - (-exponent).toNat)
      rw [String.utf8ByteSize_append, String.utf8ByteSize_append, point]
      omega

/-! ### The shortest decimal -/

theorem Decimal.Modest.stripped {d : Decimal} (modest : d.Modest) (fuel : Nat) :
    (d.stripped fuel).Modest := by
  induction fuel generalizing d with
  | zero => exact modest
  | succ fuel ih =>
      unfold Decimal.stripped
      split
      · refine ih ⟨?_, ?_⟩
        · have places := modest.places
          dsimp only
          omega
        · obtain ⟨digits, exponent⟩ := d
          have below := modest.digits
          dsimp only at below ⊢
          have fewer : digits / 10 * 10 ≤ digits := Nat.div_mul_le_self _ _
          by_cases whole : 0 ≤ exponent
          · have up : (exponent + 1).toNat = exponent.toNat + 1 := by omega
            have none : (-exponent).toNat = 0 ∧ (-(exponent + 1)).toNat = 0 := by omega
            rw [none.1] at below
            rw [up, none.2, Nat.pow_succ, Nat.mul_comm (10 ^ exponent.toNat), ← Nat.mul_assoc]
            exact Nat.lt_of_le_of_lt (Nat.mul_le_mul_right _ fewer) below
          · have none : exponent.toNat = 0 ∧ (exponent + 1).toNat = 0 := by omega
            have down : (-exponent).toNat = (-(exponent + 1)).toNat + 1 := by omega
            rw [none.1, down, ← Nat.add_assoc, Nat.pow_succ, Nat.pow_zero, Nat.mul_one] at below
            rw [none.2, Nat.pow_zero, Nat.mul_one]
            omega
      · exact modest

/-- The value is below the power. -/
def Spread.Moderate (s : Spread) : Prop :=
  s.value < 10 ^ widestPower * s.denominator

theorem Spread.Moderate.quotient_lt {s : Spread} (moderate : s.Moderate) (exponent : Int) :
    s.value * pow10 (-exponent).toNat / (s.denominator * pow10 exponent.toNat) *
      10 ^ exponent.toNat < 10 ^ widestPower * 10 ^ (-exponent).toNat := by
  have ten (n : Nat) : pow10 n = 10 ^ n := rfl
  rw [ten, ten]
  refine Nat.lt_of_mul_lt_mul_right (a := s.denominator) ?_
  calc
    _ = s.value * 10 ^ (-exponent).toNat / (s.denominator * 10 ^ exponent.toNat) *
          (s.denominator * 10 ^ exponent.toNat) := by ring
    _ ≤ s.value * 10 ^ (-exponent).toNat := Nat.div_mul_le_self _ _
    _ < 10 ^ widestPower * s.denominator * 10 ^ (-exponent).toNat :=
        Nat.mul_lt_mul_of_pos_right moderate (Nat.pow_pos (by decide))
    _ = _ := by ring

/-- The digits at a place are the quotient there, or one more. -/
theorem Spread.Moderate.floor {s : Spread} (moderate : s.Moderate) {exponent : Int}
    (low : -(widestPower : Int) ≤ exponent) (high : exponent ≤ widestPower) {digits : Nat}
    (near : digits ≤
      s.value * pow10 (-exponent).toNat / (s.denominator * pow10 exponent.toNat) + 1) :
    Decimal.Modest ⟨digits, exponent⟩ := by
  refine ⟨low, ?_⟩
  have ten (power : Nat) : 10 ^ (power + 1) = 10 * 10 ^ power := Nat.pow_succ'
  have quotient := moderate.quotient_lt exponent
  have unit : 10 ^ exponent.toNat ≤ 10 ^ widestPower * 10 ^ (-exponent).toNat := by
    refine Nat.le_trans (Nat.pow_le_pow_right (by decide) ?_)
      (Nat.le_mul_of_pos_right _ (by positivity))
    omega
  have grown := Nat.mul_le_mul_right (10 ^ exponent.toNat) near
  rw [Nat.add_mul, Nat.one_mul] at grown
  dsimp only
  rw [Nat.pow_add, ten, Nat.mul_assoc]
  omega

theorem Spread.nearestOn_le {tie : Tie} {s : Spread} {exponent : Int} {digits : Nat}
    (found : s.nearestOn tie exponent = some digits) :
    digits ≤ s.value * pow10 (-exponent).toNat / (s.denominator * pow10 exponent.toNat) + 1 := by
  simp only [nearestOn] at found
  split at found
  · cases found
    split <;> omega
  · cases found
    exact Nat.le_succ _
  · cases found
    exact Nat.le_refl _
  · cases found

theorem Spread.Moderate.search {s : Spread} (moderate : s.Moderate) (tie : Tie) {tries : Nat}
    {exponent : Int} (low : -(widestPower : Int) ≤ exponent - tries)
    (high : exponent ≤ widestPower) : (s.search tie tries exponent).Modest := by
  induction tries generalizing exponent with
  | zero => exact moderate.floor (by omega) high (Nat.le_succ _)
  | succ tries ih =>
      unfold Spread.search
      split
      · rename_i digits found
        exact moderate.floor (by omega) high (Spread.nearestOn_le found)
      · exact ih (by omega) (by omega)

theorem leadingExponent_bounds {value denominator : Nat} (small : Nat.log2 value ≤ 1026)
    (coarse : Nat.log2 denominator ≤ 1076) :
    -324 ≤ leadingExponent value denominator ∧ leadingExponent value denominator ≤ 310 := by
  simp only [leadingExponent, Int.fdiv_eq_ediv_of_nonneg _ (by decide : (0 : Int) ≤ 100000)]
  split <;> omega

theorem Dyadic.InRange.shortest_modest {value : Dyadic} (inRange : value.InRange) (tie : Tie) :
    (shortest tie value.mantissa value.exponent).Modest := by
  obtain ⟨mantissa, low, high⟩ := inRange
  have place : (widestPower : Int) = 341 := rfl
  have greatest : (greatestExponent : Int) = 971 := rfl
  unfold shortest
  split
  · exact ⟨by dsimp only; omega, by dsimp only; rw [Nat.zero_mul]; positivity⟩
  · rename_i nonzero
    have scale : 2 ^ value.exponent.toNat ≤ 2 ^ greatestExponent :=
      Nat.pow_le_pow_right Nat.two_pos (by omega)
    have small : 4 * value.mantissa * pow2 value.exponent.toNat <
        4 * (2 ^ 53 * 2 ^ greatestExponent) := by
      rw [Nat.mul_assoc]
      exact Nat.mul_lt_mul_of_pos_left (Nat.mul_lt_mul_of_lt_of_le mantissa scale (by positivity))
        (by decide)
    have moderate : (spread value.mantissa value.exponent).Moderate := by
      have wide : 4 * (2 ^ 53 * 2 ^ greatestExponent) ≤ 10 ^ widestPower * 4 := by decide +kernel
      have unit : 10 ^ widestPower * 4 ≤ 10 ^ widestPower * (4 * pow2 (-value.exponent).toNat) :=
        Nat.mul_le_mul_left _ (Nat.le_mul_of_pos_right _ (Nat.pow_pos (by decide)))
      exact Nat.lt_of_lt_of_le small (Nat.le_trans wide unit)
    have bounds := @leadingExponent_bounds (spread value.mantissa value.exponent).value
      (spread value.mantissa value.exponent).denominator ?_ ?_
    · exact (moderate.search tie (by omega) (by omega)).stripped 20
    · refine Nat.le_of_lt_succ (Nat.log2_lt (by simp [spread, nonzero]) |>.mpr ?_)
      exact Nat.lt_of_lt_of_le small (by decide +kernel)
    · have power : (spread value.mantissa value.exponent).denominator =
          2 ^ (2 + (-value.exponent).toNat) := by
        rw [Nat.pow_add]
        rfl
      rw [power, Nat.log2_two_pow]
      omega

theorem Dyadic.InRange.magnitudeText_le {value : Dyadic} (inRange : value.InRange) :
    (magnitudeText value).utf8ByteSize ≤ 2 * widestPower + 2 := by
  unfold magnitudeText
  split
  · rename_i whole
    have below : value.wholePart < 10 ^ 16 :=
      Nat.lt_trans (of_decide_eq_true (Bool.and_eq_true_iff.mp whole).2) (by decide)
    exact Nat.le_trans (utf8ByteSize_toString_le (by decide) below) (by decide)
  · exact (inRange.shortest_modest .up).utf8ByteSize_positional_le

theorem utf8ByteSize_scriptText_le (x : Float) : (scriptText x).utf8ByteSize ≤ 1024 := by
  have infinity : "Infinity".utf8ByteSize = 8 := by decide
  unfold scriptText Spelling.write
  split
  · decide
  · rename_i negative _
    have sign := utf8ByteSize_sign_le negative
    rw [String.utf8ByteSize_append]
    change _ + "Infinity".utf8ByteSize ≤ _
    omega
  · rename_i value read
    split
    · split <;> decide
    · have sign := utf8ByteSize_sign_le value.negative
      have magnitude := (decode_inRange read).magnitudeText_le
      have place : widestPower = 341 := rfl
      rw [String.utf8ByteSize_append]
      omega

/-! ### Other layouts -/

theorem roundQuotient_le (value divisor : Nat) : roundQuotient value divisor ≤ value + 1 := by
  have floor := Nat.div_le_self value divisor
  unfold roundQuotient
  dsimp only
  split <;> omega

theorem Dyadic.InRange.fixedDigits_lt {value : Dyadic} (inRange : value.InRange) {places : Nat}
    (few : places ≤ 100) :
    roundQuotient (value.mantissa * pow2 value.exponent.toNat * pow10 places)
      (pow2 (-value.exponent).toNat) < 10 ^ 500 := by
  obtain ⟨mantissa, low, high⟩ := inRange
  have scale : 2 ^ value.exponent.toNat ≤ 2 ^ greatestExponent :=
    Nat.pow_le_pow_right Nat.two_pos (by omega)
  have shift : 10 ^ places ≤ 10 ^ 100 := Nat.pow_le_pow_right (by decide) few
  have numerator : value.mantissa * pow2 value.exponent.toNat * pow10 places ≤
      2 ^ 53 * 2 ^ greatestExponent * 10 ^ 100 :=
    Nat.mul_le_mul (Nat.mul_le_mul (Nat.le_of_lt mantissa) scale) shift
  calc
    _ ≤ value.mantissa * pow2 value.exponent.toNat * pow10 places + 1 := roundQuotient_le ..
    _ ≤ 2 ^ 53 * 2 ^ greatestExponent * 10 ^ 100 + 1 := Nat.add_le_add_right numerator 1
    _ < 10 ^ 500 := by decide +kernel

theorem Dyadic.InRange.fixedPlaces_le {value : Dyadic} (inRange : value.InRange) {places : Nat}
    (few : places ≤ 100) : (fixedPlaces places value).utf8ByteSize ≤ 1024 := by
  have width := utf8ByteSize_toString_le (by decide) (inRange.fixedDigits_lt few)
  have sign := utf8ByteSize_sign_le value.negative
  have point : ".".utf8ByteSize = 1 := by decide
  simp only [fixedPlaces]
  generalize roundQuotient _ _ = rounded at width ⊢
  have padded : (zeros (places + 1 - (toString rounded).length) ++ toString rounded).utf8ByteSize ≤
      601 := by
    rw [String.utf8ByteSize_append, utf8ByteSize_zeros, length_toString]
    omega
  generalize zeros (places + 1 - (toString rounded).length) ++ toString rounded = text at padded ⊢
  have parts := utf8ByteSize_take_add_drop text (text.length - places)
  have tail : (if places = 0 then "" else
      "." ++ String.ofList (text.toList.drop (text.length - places))).utf8ByteSize ≤
        1 + (String.ofList (text.toList.drop (text.length - places))).utf8ByteSize := by
    split
    · exact Nat.zero_le _
    · rw [String.utf8ByteSize_append, point]
  rw [String.utf8ByteSize_append, String.utf8ByteSize_append]
  omega

end Number

namespace Script

open Number

theorem length_integerDigits_le (radix bound n : Nat) :
    (integerDigits radix bound n).length ≤ bound := by
  induction bound generalizing n with
  | zero => exact Nat.le_refl 0
  | succ bound ih =>
      unfold integerDigits
      split
      · exact Nat.zero_le _
      · exact Nat.succ_le_succ (ih _)

theorem utf8Len_le (chars : List Char) : String.utf8Len chars ≤ 4 * chars.length := by
  induction chars with
  | nil => exact Nat.le_refl 0
  | cons c rest ih =>
      have width := c.utf8Size_le_four
      rw [List.length_cons, String.utf8Len_cons]
      omega

theorem utf8ByteSize_radixText_le (radix : Nat) (x : Float) :
    (radixText radix x).utf8ByteSize ≤ 1024 := by
  unfold radixText
  split
  · rename_i value read
    dsimp only
    split
    · decide
    · generalize min (pow2 64 - 1) value.wholePart = whole
      have sign := utf8ByteSize_sign_le value.negative
      have count := length_integerDigits_le radix 64 whole
      have width := utf8Len_le (integerDigits radix 64 whole)
      rw [String.utf8ByteSize_append, String.utf8ByteSize_ofList, String.utf8Len_reverse]
      omega
  · exact utf8ByteSize_scriptText_le x

/-- Whatever a method of numbers answers is short. -/
theorem NumberMethod.utf8ByteSize_apply_le {method : NumberMethod} {h : Heap} {x : Float}
    {option : Value} {text : String} (written : method.apply h x option = .ok text) :
    text.utf8ByteSize ≤ 1024 := by
  cases method with
  | toFixed =>
      simp only [NumberMethod.apply, toFixedText] at written
      split at written
      · cases written
      · rename_i few
        split at written
        · rename_i value read
          cases written
          exact (decode_inRange read).fixedPlaces_le (by omega)
        · cases written
          exact utf8ByteSize_scriptText_le x
  | toString =>
      change toStringText h x option = .ok text at written
      unfold toStringText at written
      extract_lets radix at written
      clear_value radix
      split at written
      · cases written
        exact utf8ByteSize_scriptText_le x
      · split at written
        · cases written
          exact utf8ByteSize_radixText_le _ x
        · cases written

end Script

end StrategyQubo
