import StrategyQubo.Proofs.ArrayKeys
import StrategyQubo.Proofs.ProperNumbers

namespace StrategyQubo.Number

open Float.Model.UnpackedFloat
open Float.Model (Format UnpackedFloat)

/-! # Whole doubles

Sums and products of natural numbers below `2 ^ 53` are exact in doubles: what is
rounded loses only bits that are zero.
-/

/-! ## Unpacked -/

/-- How far a mantissa moves up until its hidden bit is set. -/
def roomOf (n : Nat) : Nat :=
  52 - Nat.log2 n

/-- The number in the form in which doubles are unpacked. -/
def unpackedOf (sign : Sign) (n : Nat) : UnpackedFloat :=
  if positive : 0 < n then
    .finite sign (n * 2 ^ roomOf n) (-roomOf n) (Nat.mul_pos positive (Nat.two_pow_pos _))
  else
    .zero sign

theorem unpackedOf_pos (sign : Sign) {n : Nat} (positive : 0 < n) :
    unpackedOf sign n =
      .finite sign (n * 2 ^ roomOf n) (-roomOf n) (Nat.mul_pos positive (Nat.two_pow_pos _)) :=
  dif_pos positive

theorem log2_mul_two_pow {n : Nat} (positive : 0 < n) (count : Nat) :
    Nat.log2 (n * 2 ^ count) = Nat.log2 n + count := by
  rw [Nat.log2_eq_iff (Nat.mul_ne_zero positive.ne' (Nat.two_pow_pos _).ne')]
  obtain ⟨low, high⟩ := (Nat.log2_eq_iff positive.ne').mp rfl
  rw [Nat.pow_add, Nat.add_right_comm, Nat.pow_add]
  exact ⟨Nat.mul_le_mul_right _ low, Nat.mul_lt_mul_of_pos_right high (Nat.two_pow_pos _)⟩

theorem log2_add_roomOf {n : Nat} (positive : 0 < n) (small : n < 2 ^ 53) :
    Nat.log2 n + roomOf n = 52 := by
  have below := (Nat.log2_lt positive.ne').mpr small
  unfold roomOf
  omega

theorem roomOf_anti {n m : Nat} (positive : 0 < n) (le : n ≤ m) : roomOf m ≤ roomOf n := by
  have positive' := Nat.lt_of_lt_of_le positive le
  have reached : Nat.log2 n ≤ Nat.log2 m := by
    rw [Nat.le_log2 positive'.ne']
    exact Nat.le_trans ((Nat.log2_eq_iff positive.ne').mp rfl).1 le
  unfold roomOf
  omega

/-- Zeros that a mantissa ends in are shifted out without a trace. -/
theorem repeat_shiftRightOne (n count : Nat) :
    count.repeat ExtendedMantissa.shiftRightOne ⟨n * 2 ^ count, false, false⟩ =
      ⟨n, false, false⟩ := by
  induction count generalizing n with
  | zero => simp [Nat.repeat]
  | succ count ih =>
      have twice : n * 2 ^ (count + 1) = n * 2 * 2 ^ count := by ring
      rw [Nat.repeat, twice, ih]
      simp [ExtendedMantissa.shiftRightOne]

/-- The exponent at which the hidden bit of the number is set. -/
theorem targetExponent_whole {n : Nat} (positive : 0 < n) (small : n < 2 ^ 53) (count : Nat) :
    Format.binary64.targetExponent (Float.Model.totalExponent (n * 2 ^ count) (-count)) =
      -(roomOf n : Int) := by
  have full := log2_add_roomOf positive small
  rw [Float.Model.totalExponent, log2_mul_two_pow positive]
  unfold Format.targetExponent Format.mantissaBits Format.minExponent
  push_cast
  omega

theorem shiftToTargetExponent_whole {n count : Nat} (positive : 0 < n) (small : n < 2 ^ 53)
    (enough : roomOf n ≤ count) :
    shiftToTargetExponent Format.binary64 (n * 2 ^ count) (-count) .exact =
      (⟨n * 2 ^ roomOf n, false, false⟩, -(roomOf n : Int)) := by
  have amount : (-(roomOf n : Int) - -(count : Int)).toNat = count - roomOf n := by omega
  have split : n * 2 ^ count = n * 2 ^ roomOf n * 2 ^ (count - roomOf n) := by
    rw [Nat.mul_assoc, ← Nat.pow_add, Nat.add_sub_cancel' enough]
  unfold shiftToTargetExponent shiftToExponent
  rw [targetExponent_whole positive small]
  dsimp only
  rw [amount]
  refine Prod.ext ?_ (by dsimp only; omega)
  change (count - roomOf n).repeat ExtendedMantissa.shiftRightOne ⟨n * 2 ^ count, false, false⟩ = _
  rw [split, repeat_shiftRightOne]

/-- A mantissa is brought to its exponent, rounded there, and brought to the
exponent of what it is then. -/
theorem roundWithAccuracy_eq {sign : Sign} {mantissa : Nat} {exponent shifted reached : Int}
    {accuracy : Accuracy} {first second : ExtendedMantissa}
    (shift : shiftToTargetExponent Format.binary64 mantissa exponent accuracy = (first, shifted))
    (again : shiftToTargetExponent Format.binary64 first.roundedMantissa shifted .exact =
      (second, reached))
    (filled : 0 < second.mantissa) :
    roundWithAccuracy Format.binary64 sign mantissa exponent accuracy =
      .finite sign second.mantissa reached filled := by
  unfold roundWithAccuracy
  rw [shift]
  dsimp only
  rw [again]
  exact dif_neg filled.ne'

/-- A whole number is rounded to itself. -/
theorem roundWithAccuracy_whole (sign : Sign) {n count : Nat} (positive : 0 < n)
    (small : n < 2 ^ 53) (enough : roomOf n ≤ count) :
    roundWithAccuracy Format.binary64 sign (n * 2 ^ count) (-count) .exact = unpackedOf sign n := by
  rw [unpackedOf_pos sign positive]
  exact roundWithAccuracy_eq (shiftToTargetExponent_whole positive small enough)
    (shiftToTargetExponent_whole positive small (Nat.le_refl _))
    (Nat.mul_pos positive (Nat.two_pow_pos _))

theorem normalize_whole {n count : Nat} (positive : 0 < n) (small : n < 2 ^ 53)
    (enough : roomOf n ≤ count) :
    UnpackedFloat.normalize Format.binary64 (n * 2 ^ count : Nat) (-count) .positive =
      unpackedOf .positive n := by
  have filled : 0 < n * 2 ^ count := Nat.mul_pos positive (Nat.two_pow_pos _)
  have above : compare ((n * 2 ^ count : Nat) : Int) 0 = .gt :=
    Int.compare_eq_gt.mpr (Int.natCast_pos.mpr filled)
  have target : Format.binary64.targetExponent
      (Float.Model.totalExponent (n * 2 ^ count) (-count)) = -(roomOf n : Int) :=
    targetExponent_whole positive small count
  have amount : (-(count : Int) - -(roomOf n : Int)).toNat = 0 := by omega
  unfold UnpackedFloat.normalize
  rw [above]
  dsimp only
  rw [Int.toNat_natCast]
  unfold Float.Model.UnpackedFloat.round
  dsimp only
  rw [target]
  unfold decreaseExponent
  dsimp only
  rw [amount, Nat.shiftLeft_zero, Int.natCast_zero, Int.sub_zero]
  exact roundWithAccuracy_whole .positive positive small enough

theorem mul_whole (sign sign' : Sign) {a b : Nat} (small : a * b < 2 ^ 53) :
    mul Format.binary64 (unpackedOf sign a) (unpackedOf sign' b) =
      unpackedOf (sign * sign') (a * b) := by
  rcases Nat.eq_zero_or_pos a with rfl | positive
  · rw [Nat.zero_mul]
    by_cases positive' : 0 < b
    · rw [unpackedOf_pos sign' positive']
      rfl
    · obtain rfl := Nat.eq_zero_of_not_pos positive'
      rfl
  · rcases Nat.eq_zero_or_pos b with rfl | positive'
    · rw [Nat.mul_zero, unpackedOf_pos sign positive]
      rfl
    · have room : roomOf (a * b) ≤ roomOf a + roomOf b :=
        Nat.le_trans (roomOf_anti positive (Nat.le_mul_of_pos_right a positive'))
          (Nat.le_add_right ..)
      have product := roundWithAccuracy_whole (sign * sign') (Nat.mul_pos positive positive') small room
      rw [unpackedOf_pos sign positive, unpackedOf_pos sign' positive', ← product]
      change roundWithAccuracy Format.binary64 (sign * sign')
        (a * 2 ^ roomOf a * (b * 2 ^ roomOf b)) (-roomOf a + -roomOf b) .exact = _
      congr 1
      · ring
      · push_cast
        ring

theorem add_whole {a b : Nat} (small : a + b < 2 ^ 53) :
    add Format.binary64 (unpackedOf .positive a) (unpackedOf .positive b) =
      unpackedOf .positive (a + b) := by
  rcases Nat.eq_zero_or_pos a with rfl | positive
  · rw [Nat.zero_add]
    by_cases positive' : 0 < b
    · rw [unpackedOf_pos .positive positive']
      rfl
    · obtain rfl := Nat.eq_zero_of_not_pos positive'
      rfl
  · rcases Nat.eq_zero_or_pos b with rfl | positive'
    · rw [Nat.add_zero, unpackedOf_pos .positive positive]
      rfl
    · -- Both mantissas are brought to the smaller exponent.
      obtain ⟨count, enough, enough', least⟩ : ∃ count : Nat, roomOf a ≤ count ∧ roomOf b ≤ count ∧
          min (-(roomOf a : Int)) (-(roomOf b : Int)) = -(count : Int) :=
        ⟨max (roomOf a) (roomOf b), Nat.le_max_left .., Nat.le_max_right .., by omega⟩
      have aligned {n : Nat} (le : roomOf n ≤ count) :
          (decreaseExponent (n * 2 ^ roomOf n) (-roomOf n) (-count)).1 = n * 2 ^ count := by
        have amount : (-(roomOf n : Int) - -(count : Int)).toNat = count - roomOf n := by omega
        unfold decreaseExponent
        dsimp only
        rw [amount, Nat.shiftLeft_eq, Nat.mul_assoc, ← Nat.pow_add, Nat.add_sub_cancel' le]
      have total : Sign.positive.apply (a * 2 ^ count : Nat) + Sign.positive.apply (b * 2 ^ count : Nat) =
          ((a + b) * 2 ^ count : Nat) := by
        simp only [Sign.apply]
        push_cast
        ring
      rw [unpackedOf_pos .positive positive, unpackedOf_pos .positive positive']
      unfold add
      dsimp only
      rw [least, aligned enough, aligned enough', total]
      exact normalize_whole (Nat.add_pos_left positive b) small
        (Nat.le_trans (roomOf_anti positive (Nat.le_add_right a b)) enough)

/-! ## Packed -/

/-- The exponent as doubles store it. -/
def storedExponent (n : Nat) : Nat :=
  1075 - roomOf n

theorem storedExponent_bounds (n : Nat) : 1023 ≤ storedExponent n ∧ storedExponent n ≤ 1075 := by
  unfold storedExponent roomOf
  omega

theorem fraction_whole {n : Nat} (positive : 0 < n) (small : n < 2 ^ 53) :
    n * 2 ^ roomOf n % 2 ^ 52 + 2 ^ 52 = n * 2 ^ roomOf n := by
  have filled : n * 2 ^ roomOf n ≠ 0 := Nat.mul_ne_zero positive.ne' (Nat.two_pow_pos _).ne'
  have full : Nat.log2 (n * 2 ^ roomOf n) = 52 := by
    rw [log2_mul_two_pow positive, log2_add_roomOf positive small]
  obtain ⟨low, high⟩ := (Nat.log2_eq_iff filled).mp full
  omega

theorem pack_whole (sign : Sign) {n : Nat} (positive : 0 < n) (small : n < 2 ^ 53) :
    pack Format.binary64 (unpackedOf sign n) =
      packComponents Format.binary64 sign (BitVec.ofNat 11 (storedExponent n))
        (BitVec.ofNat 52 (n * 2 ^ roomOf n)) := by
  have full : Nat.log2 (n * 2 ^ roomOf n) = 52 := by
    rw [log2_mul_two_pow positive, log2_add_roomOf positive small]
  have stored : (-(roomOf n : Int) + 1023 + 52).toNat = storedExponent n := by
    unfold storedExponent
    omega
  have bounds := storedExponent_bounds n
  rw [unpackedOf_pos sign positive]
  change (if 2 ^ 11 ≤ (-(roomOf n : Int) + 1023 + 52).toNat + 1 then _ else
    if Nat.log2 (n * 2 ^ roomOf n) + 1 = 53 then
      packComponents Format.binary64 sign (BitVec.ofNat 11 (-(roomOf n : Int) + 1023 + 52).toNat) _
    else _) = _
  rw [stored, if_neg (by omega), if_pos (by omega)]

@[simp]
theorem unpackSign_packComponents {spec : Format} (sign : Sign)
    (exponent : BitVec spec.exponentBits) (mantissa : BitVec spec.mantissaBitsWithoutImplicit) :
    unpackSign (packComponents spec sign exponent mantissa) = sign.toBitVec := by
  apply BitVec.eq_of_getLsbD_eq
  intro i inside
  obtain rfl : i = 0 := by omega
  unfold unpackSign packComponents
  simp [BitVec.getLsbD_append, BitVec.getElem_append]

theorem toNat_hidden_append (mantissa : BitVec 52) :
    (1#1 ++ mantissa).toNat = 2 ^ 52 + mantissa.toNat := by
  rw [BitVec.toNat_append, ← Nat.shiftLeft_add_eq_or_of_lt mantissa.isLt]
  simp [Nat.shiftLeft_eq]

/-- Bits with a hidden bit before the mantissa. -/
theorem unpack_normal {bits : BitVec Format.binary64.numBits} {sign : Sign} {mantissa : Nat}
    {exponent : Int} (below : unpackExponent bits ≠ -1#11) (above : unpackExponent bits ≠ 0#11)
    (signed : .ofBitVec (unpackSign bits) = sign)
    (hidden : (1#1 ++ unpackMantissa bits).toNat = mantissa)
    (scaled : (unpackExponent bits).toNat - (1023 + 52) = exponent) (filled : 0 < mantissa) :
    unpack Format.binary64 bits = .finite sign mantissa exponent filled := by
  subst signed hidden scaled
  unfold unpack
  dsimp only
  rw [if_neg below, if_neg above]
  rfl

/-- Nothing is lost in the bits. -/
theorem unpack_pack_whole (sign : Sign) {n : Nat} (small : n < 2 ^ 53) :
    unpack Format.binary64 (pack Format.binary64 (unpackedOf sign n)) = unpackedOf sign n := by
  rcases Nat.eq_zero_or_pos n with rfl | positive
  · cases sign <;> rfl
  · have bounds := storedExponent_bounds n
    have stored : (BitVec.ofNat 11 (storedExponent n)).toNat = storedExponent n := by
      rw [BitVec.toNat_ofNat, Nat.mod_eq_of_lt (by omega)]
    have below : BitVec.ofNat 11 (storedExponent n) ≠ -1#11 := by
      intro top
      have same : storedExponent n = 2047 := stored.symm.trans (congrArg BitVec.toNat top)
      omega
    have above : BitVec.ofNat 11 (storedExponent n) ≠ 0#11 := by
      intro bottom
      have same : storedExponent n = 0 := stored.symm.trans (congrArg BitVec.toNat bottom)
      omega
    have mantissa : (1#1 ++ BitVec.ofNat 52 (n * 2 ^ roomOf n)).toNat = n * 2 ^ roomOf n := by
      rw [toNat_hidden_append, BitVec.toNat_ofNat, Nat.add_comm, fraction_whole positive small]
    have exponent : (storedExponent n : Int) - (1023 + 52) = -roomOf n := by
      unfold storedExponent roomOf
      omega
    have signed : Sign.ofBitVec sign.toBitVec = sign := by cases sign <;> rfl
    rw [pack_whole sign positive small, unpackedOf_pos sign positive]
    refine unpack_normal ?_ ?_ ?_ ?_ ?_ (Nat.mul_pos positive (Nat.two_pow_pos _))
    · rw [unpackExponent_packComponents]
      exact below
    · rw [unpackExponent_packComponents]
      exact above
    · rw [unpackSign_packComponents]
      exact signed
    · rw [unpackMantissa_packComponents]
      exact mantissa
    · rw [unpackExponent_packComponents, stored]
      exact exponent

/-! ## Doubles -/

/-- The double of a sign and a natural number. -/
def wholeDouble (sign : Sign) (n : Nat) : Float :=
  .ofModel (.pack (unpackedOf sign n))

theorem wholeDouble_mul (sign sign' : Sign) {a b : Nat} (small : a < 2 ^ 53) (small' : b < 2 ^ 53)
    (product : a * b < 2 ^ 53) :
    wholeDouble sign a * wholeDouble sign' b = wholeDouble (sign * sign') (a * b) := by
  change Float.ofModel (.pack (mul Format.binary64
    (unpack Format.binary64 (pack Format.binary64 (unpackedOf sign a)))
    (unpack Format.binary64 (pack Format.binary64 (unpackedOf sign' b))))) = _
  rw [unpack_pack_whole sign small, unpack_pack_whole sign' small', mul_whole sign sign' product]
  rfl

theorem wholeDouble_add {a b : Nat} (small : a < 2 ^ 53) (small' : b < 2 ^ 53)
    (total : a + b < 2 ^ 53) :
    wholeDouble .positive a + wholeDouble .positive b = wholeDouble .positive (a + b) := by
  change Float.ofModel (.pack (add Format.binary64
    (unpack Format.binary64 (pack Format.binary64 (unpackedOf .positive a)))
    (unpack Format.binary64 (pack Format.binary64 (unpackedOf .positive b))))) = _
  rw [unpack_pack_whole .positive small, unpack_pack_whole .positive small', add_whole total]
  rfl

theorem wholeDouble_neg (sign : Sign) {n : Nat} (small : n < 2 ^ 53) :
    -wholeDouble sign n = wholeDouble (-sign) n := by
  change Float.ofModel (.pack
    (unpack Format.binary64 (pack Format.binary64 (unpackedOf sign n))).neg) = _
  rw [unpack_pack_whole sign small]
  rcases Nat.eq_zero_or_pos n with rfl | positive
  · rfl
  · rw [unpackedOf_pos sign positive]
    unfold wholeDouble
    rw [unpackedOf_pos (-sign) positive]
    rfl

theorem toBits_wholeDouble (sign : Sign) {n : Nat} (positive : 0 < n) (small : n < 2 ^ 53) :
    (wholeDouble sign n).toBits.toNat =
      (sign.toBitVec.toNat * 2 ^ 11 + storedExponent n) * 2 ^ 52 +
        n * 2 ^ roomOf n % 2 ^ 52 := by
  have bounds := storedExponent_bounds n
  have stored : (BitVec.ofNat 11 (storedExponent n)).toNat = storedExponent n := by
    rw [BitVec.toNat_ofNat, Nat.mod_eq_of_lt (by omega)]
  change (pack Format.binary64 (unpackedOf sign n)).toNat = _
  rw [pack_whole sign positive small]
  change ((sign.toBitVec ++ BitVec.ofNat 11 (storedExponent n)) ++
    BitVec.ofNat 52 (n * 2 ^ roomOf n)).toNat = _
  rw [BitVec.toNat_append, ← Nat.shiftLeft_add_eq_or_of_lt (BitVec.isLt _), BitVec.toNat_append,
    ← Nat.shiftLeft_add_eq_or_of_lt (BitVec.isLt _), stored, Nat.shiftLeft_eq, Nat.shiftLeft_eq,
    BitVec.toNat_ofNat]

/-- Whether a sign is a minus. -/
def isMinus : Sign → Bool
  | .negative => true
  | .positive => false

theorem decode_wholeDouble (sign : Sign) {n : Nat} (positive : 0 < n) (small : n < 2 ^ 53) :
    decode (wholeDouble sign n) =
      .finite ⟨isMinus sign, n * 2 ^ roomOf n, -(roomOf n : Int)⟩ := by
  have bounds := storedExponent_bounds n
  have filled := fraction_whole positive small
  have exponent : (storedExponent n : Int) - 1075 = -(roomOf n : Int) := by
    unfold storedExponent roomOf
    omega
  have signBit : sign.toBitVec.toNat < 2 := sign.toBitVec.isLt
  unfold decode
  rw [toBits_wholeDouble sign positive small]
  have top : ((sign.toBitVec.toNat * 2 ^ 11 + storedExponent n) * 2 ^ 52 +
      n * 2 ^ roomOf n % 2 ^ 52) / pow2 63 = sign.toBitVec.toNat := by
    simp only [pow2, Nat.pow_eq]
    omega
  have middle : ((sign.toBitVec.toNat * 2 ^ 11 + storedExponent n) * 2 ^ 52 +
      n * 2 ^ roomOf n % 2 ^ 52) / pow2 52 % pow2 11 = storedExponent n := by
    simp only [pow2, Nat.pow_eq]
    omega
  have bottom : ((sign.toBitVec.toNat * 2 ^ 11 + storedExponent n) * 2 ^ 52 +
      n * 2 ^ roomOf n % 2 ^ 52) % pow2 52 = n * 2 ^ roomOf n % 2 ^ 52 := by
    simp only [pow2, Nat.pow_eq]
    omega
  dsimp only
  rw [top, middle, bottom, if_neg (by omega), if_neg (by omega), exponent]
  have same : n * 2 ^ roomOf n % 2 ^ 52 + pow2 52 = n * 2 ^ roomOf n := filled
  rw [same]
  cases sign <;> rfl

/-! ## Values -/

/-- A finite double that is this integer. -/
def IsInteger (x : Float) (n : Int) : Prop :=
  isFinite x = true ∧ toRat x = n

theorem IsInteger.read {x : Float} {n : Int} (whole : IsInteger x n) :
    ∃ value, decode x = .finite value ∧ value.toRat = n := by
  obtain ⟨finite, same⟩ := whole
  unfold isFinite at finite
  unfold toRat at same
  split at finite
  · next value read =>
    rw [read] at same
    exact ⟨value, read, same⟩
  · cases finite

theorem Dyadic.toRat_minus (mantissa : Nat) (exponent : Int) :
    toRat ⟨true, mantissa, exponent⟩ = -toRat ⟨false, mantissa, exponent⟩ := by
  unfold toRat
  by_cases up : 0 ≤ exponent
  · simp [up, Rat.mkRat_one]
  · simp [up, Rat.mkRat_eq_div, neg_div]

theorem Dyadic.toRat_plus_nonneg (mantissa : Nat) (exponent : Int) :
    0 ≤ toRat ⟨false, mantissa, exponent⟩ := by
  unfold toRat
  dsimp only
  rw [if_neg Bool.false_ne_true, Int.one_mul, Int.one_mul]
  split
  · exact Rat.mkRat_nonneg (Int.natCast_nonneg _) _
  · exact Rat.mkRat_nonneg (Int.natCast_nonneg _) _

/-- What a number shows of itself when it is an integer. -/
theorem Dyadic.parts_of_toRat {value : Dyadic} {n : Int} (same : value.toRat = n) :
    value.isWhole = true ∧ value.wholePart = n.natAbs ∧
      (n ≠ 0 → value.negative = decide (n < 0)) := by
  obtain ⟨negative, mantissa, exponent⟩ := value
  have nonneg := toRat_plus_nonneg mantissa exponent
  -- Without its sign the number is a count.
  have ⟨size, sign⟩ : toRat ⟨false, mantissa, exponent⟩ = n.natAbs ∧
      (n ≠ 0 → negative = decide (n < 0)) := by
    cases negative with
    | false =>
        have nonneg' : 0 ≤ n := by exact_mod_cast same ▸ nonneg
        refine ⟨?_, fun _ => (decide_eq_false (by omega)).symm⟩
        rw [same, Nat.cast_natAbs, abs_of_nonneg nonneg']
    | true =>
        rw [toRat_minus] at same
        have opposite : toRat ⟨false, mantissa, exponent⟩ = -n := by rw [← same, neg_neg]
        have nonpos : n ≤ 0 := by
          rw [opposite] at nonneg
          exact_mod_cast neg_nonneg.mp nonneg
        refine ⟨?_, fun nonzero => (decide_eq_true (by omega)).symm⟩
        rw [opposite, Nat.cast_natAbs, abs_of_nonpos nonpos, Int.cast_neg]
  obtain ⟨whole, -⟩ := isWhole_of_toRat size
  have part : (wholePart ⟨false, mantissa, exponent⟩ : Rat) = n.natAbs := by
    rw [← toRat_of_isWhole whole (.inl rfl), size]
  exact ⟨whole, by exact_mod_cast part, sign⟩

theorem wholeDouble_isInteger (sign : Sign) {n : Nat} (small : n < 2 ^ 53) :
    IsInteger (wholeDouble sign n) (if isMinus sign then -n else n) := by
  rcases Nat.eq_zero_or_pos n with rfl | positive
  · cases sign
    · exact ⟨by decide +kernel, by decide +kernel⟩
    · exact ⟨by decide +kernel, by decide +kernel⟩
  · have read := decode_wholeDouble sign positive small
    have value : Dyadic.toRat ⟨false, n * 2 ^ roomOf n, -(roomOf n : Int)⟩ = n := by
      unfold Dyadic.toRat
      dsimp only
      rw [if_neg Bool.false_ne_true, Int.one_mul, Int.one_mul]
      split
      · next up =>
        have none : roomOf n = 0 := by omega
        rw [none]
        simp [Rat.mkRat_one]
      · rw [Rat.mkRat_eq_div, Int.neg_neg, Int.toNat_natCast]
        push_cast
        rw [mul_div_assoc]
        simp
    refine ⟨by rw [isFinite, read], ?_⟩
    rw [toRat, read]
    cases sign with
    | positive => simpa [isMinus] using value
    | negative => simpa [isMinus, Dyadic.toRat_minus] using value

end StrategyQubo.Number
