import StrategyQubo.Number.Literal

namespace StrategyQubo.Number

open Float.Model.UnpackedFloat
open Float.Model (Format UnpackedFloat)

/-! # Numbers that are not NaN

Packing a double into its bits keeps whether it is a number, and so does the
sign.  Rounding never loses a number; the decimal reader multiplies or divides
by a power of ten, which is finite and not zero, and rounds once.
-/

/-! ## Unpacked doubles -/

theorem isNaN_unpack {bits : BitVec Format.binary64.numBits} :
    (unpack Format.binary64 bits).isNaN = true ↔
      unpackExponent bits = -1#_ ∧ unpackMantissa bits ≠ 0#_ := by
  unfold unpack
  dsimp only
  by_cases top : unpackExponent bits = -1#_
  · rw [if_pos top]
    by_cases blank : unpackMantissa bits = 0#_
    · rw [if_pos blank]
      exact iff_of_false Bool.false_ne_true fun nan => nan.2 blank
    · rw [if_neg blank]
      exact iff_of_true rfl ⟨top, blank⟩
  · rw [if_neg top]
    refine iff_of_false ?_ fun nan => top nan.1
    by_cases low : unpackExponent bits = 0#_
    · rw [if_pos low]
      by_cases blank : unpackMantissa bits = 0#_
      · rw [dif_pos blank]
        exact Bool.false_ne_true
      · rw [dif_neg blank]
        exact Bool.false_ne_true
    · rw [if_neg low]
      exact Bool.false_ne_true

theorem isNaN_unpack_pack (x : UnpackedFloat) :
    (unpack Format.binary64 (pack Format.binary64 x)).isNaN = x.isNaN := by
  rw [Bool.eq_iff_iff, isNaN_unpack]
  fun_cases pack Format.binary64 x with
  | case1 => exact iff_of_true (by decide) rfl
  | case2 sign => exact iff_of_false (by cases sign <;> decide) Bool.false_ne_true
  | case3 sign => exact iff_of_false (by cases sign <;> decide) Bool.false_ne_true
  | case4 sign => exact iff_of_false (by cases sign <;> decide) Bool.false_ne_true
  | case5 sign mantissa exponent positive width biased room normal =>
      -- The exponent of all ones is left to infinity and NaN.
      have below : BitVec.ofNat 11 biased ≠ -1#11 := by
        intro top
        have same : biased % 2048 = 2047 := congrArg BitVec.toNat top
        have least : 2048 ≤ biased + 1 := by omega
        exact room least
      rw [unpackExponent_packComponents]
      exact iff_of_false (fun nan => below nan.1) Bool.false_ne_true
  | case6 =>
      rw [unpackExponent_packComponents]
      exact iff_of_false (fun nan => absurd nan.1 (by decide)) Bool.false_ne_true

theorem isNaN_round {sign : Sign} {mantissa : Nat} {exponent : Int} {accuracy : Accuracy} :
    (roundWithAccuracy Format.binary64 sign mantissa exponent accuracy).isNaN = false := by
  unfold roundWithAccuracy
  -- Zero and a finite double are both numbers, whichever it is rounded to.
  exact (apply_dite UnpackedFloat.isNaN _ _ _).trans (ite_self false)

/-- A finite double other than zero. -/
def IsSolid : UnpackedFloat → Bool
  | .finite .. => true
  | _ => false

theorem isNaN_mul {x y : UnpackedFloat} (number : x.isNaN = false) (solid : IsSolid y) :
    (mul Format.binary64 x y).isNaN = false := by
  cases y with
  | finite =>
      cases x with
      | notANumber => cases number
      | infinity | zero => rfl
      | finite => exact isNaN_round
  | _ => cases solid

theorem isNaN_div {x y : UnpackedFloat} (number : x.isNaN = false) (solid : IsSolid y) :
    (div Format.binary64 x y).isNaN = false := by
  cases y with
  | finite =>
      cases x with
      | notANumber => cases number
      | infinity | zero => rfl
      | finite => exact isNaN_round
  | _ => cases solid

theorem isNaN_ofScientific_model (digits : Nat) (exponent : Int) :
    (ofScientific Format.binary64 digits exponent).isNaN = false := by
  unfold ofScientific
  by_cases blank : digits = 0
  · rw [dif_pos blank]
    rfl
  · rw [dif_neg blank]
    by_cases huge : exponent > 2 ^ Format.binary64.exponentBits
    · rw [if_pos huge]
      rfl
    · rw [if_neg huge]
      by_cases tiny : exponent < -(2 ^ Format.binary64.exponentBits + digits.log2)
      · rw [if_pos tiny]
        rfl
      · rw [if_neg tiny]
        by_cases whole : 0 ≤ exponent
        · rw [if_pos whole]
          exact isNaN_mul rfl rfl
        · rw [if_neg whole]
          exact isNaN_div rfl rfl

theorem isNaN_ofNat (n : Nat) : (ofNat Format.binary64 n).isNaN = false := by
  unfold ofNat ofInt UnpackedFloat.normalize
  split
  · exact isNaN_round
  · rfl
  · exact isNaN_round

/-! ## Doubles -/

@[simp]
theorem isNaN_neg (x : Float) : (-x).isNaN = x.isNaN := by
  refine (isNaN_unpack_pack x.toModel.unpack.neg).trans ?_
  change x.toModel.unpack.neg.isNaN = x.toModel.unpack.isNaN
  cases x.toModel.unpack <;> rfl

/-- The powers of ten that a double holds are finite and not zero. -/
theorem isSolid_powerOfTen : ∀ exponent : Fin Float.exactlyRepresentablePowersOfTen.size,
    IsSolid (Float.exactlyRepresentablePowersOfTen[exponent]).toModel.unpack = true := by
  decide +kernel

theorem isNaN_ofScientific (digits : Nat) (negative : Bool) (exponent : Nat) :
    (Float.ofScientific digits negative exponent).isNaN = false := by
  unfold Float.ofScientific
  split
  · next small =>
    have power := isSolid_powerOfTen ⟨exponent, by
      simp [Float.exactlyRepresentablePowersOfTen]
      omega⟩
    have number : (digits.toUInt64.toFloat).toModel.unpack.isNaN = false :=
      (isNaN_unpack_pack _).trans (isNaN_ofNat _)
    cases negative with
    | true => exact (isNaN_unpack_pack _).trans (isNaN_div number power)
    | false => exact (isNaN_unpack_pack _).trans (isNaN_mul number power)
  · exact (isNaN_unpack_pack _).trans (isNaN_ofScientific_model _ _)

theorem isNaN_nearest (digits : Nat) (exponent : Int) : (nearest digits exponent).isNaN = false := by
  have zero : (0.0 : Float).isNaN = false := isNaN_ofScientific 0 true 1
  unfold nearest
  dsimp only
  split
  · exact zero
  · split
    · decide +kernel
    · split
      · exact zero
      · exact isNaN_ofScientific _ _ _

end StrategyQubo.Number
