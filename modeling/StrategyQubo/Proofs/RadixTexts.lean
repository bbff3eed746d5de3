import Mathlib.Data.Nat.Digits.Defs
import StrategyQubo.Proofs.PlainNumbers
import StrategyQubo.Proofs.WholeDoubles
import StrategyQubo.Script.Builtin

namespace StrategyQubo.Script

open Number

/-! # Integers in any radix

An integer that a double holds with room to spare is written in a radix by
dividing, and read back by multiplying.  Every double on the way back is a whole
number that is not above the integer's magnitude, so that none of them is
rounded.
-/

/-! ## Digits -/

theorem digitValue?_radixDigit {radix digit : Nat} (greatest : radix ≤ 36) (below : digit < radix) :
    digitValue? radix (radixDigit digit) = some digit := by
  have every : ∀ radix : Fin 37, ∀ digit : Fin radix,
      digitValue? radix (radixDigit digit) = some digit.val := by
    decide +kernel
  exact every ⟨radix, by omega⟩ ⟨digit, below⟩

/-- A digit is no blank and no sign. -/
theorem radixDigit_visible {digit : Nat} (below : digit < 36) :
    Text.isBlank (radixDigit digit) = false ∧ radixDigit digit ≠ '-' ∧ radixDigit digit ≠ '+' := by
  have every : ∀ digit : Fin 36, Text.isBlank (radixDigit digit) = false ∧
      radixDigit digit ≠ '-' ∧ radixDigit digit ≠ '+' := by
    decide +kernel
  exact every ⟨digit, below⟩

/-- No digit of a hexadecimal number looks like its mark. -/
theorem radixDigit_unmarked {digit : Nat} (below : digit < 16) :
    radixDigit digit ≠ 'x' ∧ radixDigit digit ≠ 'X' := by
  have every : ∀ digit : Fin 16, radixDigit digit ≠ 'x' ∧ radixDigit digit ≠ 'X' := by
    decide +kernel
  exact every ⟨digit, below⟩

theorem radixDigit_of_isDigit {c : Char} (digit : c.isDigit = true) :
    radixDigit (c.toNat - '0'.toNat) = c := by
  have below := digit_lt_ten digit
  have above : '0'.toNat ≤ c.toNat := by
    simp only [Char.isDigit, Bool.and_eq_true, decide_eq_true_eq] at digit
    exact digit.1
  rw [radixDigit, if_pos below, Nat.add_sub_cancel' above, Char.ofNat_toNat]

/-- The number with these digits, the most significant one first. -/
def digitsTotal (radix : Nat) (digits : List Nat) : Nat :=
  digits.foldl (fun total digit => total * radix + digit) 0

theorem digitsTotal_reverse (radix : Nat) (digits : List Nat) :
    digitsTotal radix digits.reverse = Nat.ofDigits radix digits := by
  rw [digitsTotal, List.foldl_reverse, Nat.ofDigits_eq_foldr]
  simp only [Nat.cast_id, Nat.add_comm, Nat.mul_comm]

/-- The integer's digits, after a minus when it is negative. -/
inductive IsIntegerText (radix : Nat) (n : Int) : String → Prop where
  | digits {digits : List Nat} : digits ≠ [] → (∀ digit ∈ digits, digit < radix) →
      digitsTotal radix digits = n.natAbs →
      IsIntegerText radix n
        ((if n < 0 then "-" else "") ++ String.ofList (digits.map radixDigit))

/-! ## Writing -/

/-- Digits are taken off until none are left. -/
theorem integerDigits_eq {radix bound n : Nat} (least : 2 ≤ radix) (enough : n < radix ^ bound) :
    integerDigits radix bound n = (Nat.digits radix n).map radixDigit := by
  induction bound generalizing n with
  | zero =>
      obtain rfl : n = 0 := by simpa using enough
      simp [integerDigits]
  | succ bound ih =>
      unfold integerDigits
      split
      · next zero => simp [zero]
      · next nonzero =>
        have smaller : n / radix < radix ^ bound := by
          rw [Nat.div_lt_iff_lt_mul (by omega), ← Nat.pow_succ]
          exact enough
        rw [Nat.digits_def' (by omega) (Nat.pos_of_ne_zero nonzero), List.map_cons, ih smaller]

theorem isIntegerText_zero {radix : Nat} (least : 2 ≤ radix) : IsIntegerText radix 0 "0" :=
  .digits (List.cons_ne_nil 0 []) (by simp; omega) (by simp [digitsTotal])

theorem radixText_isIntegerText {radix : Nat} {x : Float} {n : Int} (least : 2 ≤ radix)
    (whole : IsInteger x n) (small : n.natAbs < 2 ^ 53) :
    IsIntegerText radix n (radixText radix x) := by
  obtain ⟨value, read, same⟩ := whole.read
  obtain ⟨-, part, sign⟩ := Dyadic.parts_of_toRat same
  have shown : min (pow2 64 - 1) n.natAbs = n.natAbs := by
    have room : 2 ^ 53 ≤ pow2 64 - 1 := by decide
    omega
  unfold radixText
  rw [read]
  dsimp only
  rw [part, shown]
  by_cases zero : n = 0
  · subst zero
    exact isIntegerText_zero least
  · have enough : n.natAbs < radix ^ 64 :=
      calc n.natAbs < 2 ^ 53 := small
        _ ≤ 2 ^ 64 := by decide
        _ ≤ radix ^ 64 := Nat.pow_le_pow_left least 64
    rw [if_neg (Int.natAbs_ne_zero.mpr zero), sign zero, integerDigits_eq least enough,
      ← List.map_reverse]
    simp only [decide_eq_true_eq]
    refine .digits ?_ ?_ ?_
    · exact List.reverse_ne_nil_iff.mpr
        (Nat.digits_ne_nil_iff_ne_zero.mpr (Int.natAbs_ne_zero.mpr zero))
    · intro digit member
      exact Nat.digits_lt_base least (List.mem_reverse.mp member)
    · rw [digitsTotal_reverse, Nat.ofDigits_digits]

theorem toString_isIntegerText (m : Nat) : ∃ digits : List Nat, digits ≠ [] ∧
    (∀ digit ∈ digits, digit < 10) ∧ digitsTotal 10 digits = m ∧
      toString m = String.ofList (digits.map radixDigit) := by
  have decimal (c : Char) (member : c ∈ (toString m).toList) : c.isDigit = true :=
    isDigit_of_mem_toString member
  refine ⟨(toString m).toList.map fun c => c.toNat - '0'.toNat, ?_, ?_, ?_, ?_⟩
  · exact fun none => toList_toString_ne_nil m (List.map_eq_nil_iff.mp none)
  · intro digit member
    obtain ⟨c, inside, rfl⟩ := List.mem_map.mp member
    exact digit_lt_ten (decimal c inside)
  · rw [digitsTotal, List.foldl_map]
    exact digitsValue_toString m
  · have same : (toString m).toList.map (radixDigit ∘ fun c => c.toNat - '0'.toNat) =
        (toString m).toList :=
      (List.map_congr_left fun c member => radixDigit_of_isDigit (decimal c member)).trans
        (List.map_id _)
    rw [List.map_map, same, String.ofList_toList]

/-- Script text writes whole numbers digit by digit. -/
theorem scriptText_isIntegerText {x : Float} {n : Int} (whole : IsInteger x n)
    (small : n.natAbs < 2 ^ 53) : IsIntegerText 10 n (scriptText x) := by
  obtain ⟨value, read, same⟩ := whole.read
  obtain ⟨straight, part, sign⟩ := Dyadic.parts_of_toRat same
  have below : value.wholePart < pow2 53 := part ▸ small
  unfold scriptText Spelling.write
  rw [read]
  dsimp only
  by_cases none : value.mantissa = 0
  · have zero : n = 0 := by
      have : value.wholePart = 0 := by simp [Dyadic.wholePart, none]
      omega
    subst zero
    rw [if_pos none]
    cases value.negative <;> exact isIntegerText_zero (by decide)
  · have nonzero : n ≠ 0 := by
      rintro rfl
      have scaled := Dyadic.scaled_of_toRat (n := 0) (by simpa using same)
      apply none
      cases minus : value.negative <;> simpa [minus] using scaled
    have written : magnitudeText value = toString n.natAbs := by
      unfold magnitudeText
      rw [straight, decide_eq_true below, part]
      rfl
    rw [if_neg none, written, sign nonzero]
    simp only [decide_eq_true_eq]
    obtain ⟨digits, filled, below, total, spelled⟩ := toString_isIntegerText n.natAbs
    rw [spelled]
    exact .digits filled below total

/-! ## Reading -/

theorem leadingDigits_map {radix : Nat} (greatest : radix ≤ 36) {digits : List Nat}
    (below : ∀ digit ∈ digits, digit < radix) :
    leadingDigits radix (digits.map radixDigit) = digits := by
  induction digits with
  | nil => rfl
  | cons digit rest ih =>
      obtain ⟨first, below⟩ := List.forall_mem_cons.mp below
      rw [List.map_cons, leadingDigits, digitValue?_radixDigit greatest first]
      exact congrArg (digit :: ·) (ih below)

theorem nearest_eq_wholeDouble {digit : Nat} (few : digit ≤ 36) :
    nearest digit 0 = wholeDouble .positive digit := by
  have every : ∀ digit : Fin 37, nearest digit 0 = wholeDouble .positive digit := by
    decide +kernel
  exact every ⟨digit, by omega⟩

theorem le_foldl_digits {radix : Nat} (least : 2 ≤ radix) (total : Nat) (digits : List Nat) :
    total ≤ digits.foldl (fun total digit => total * radix + digit) total := by
  induction digits generalizing total with
  | nil => exact Nat.le_refl _
  | cons digit rest ih =>
      have grown : total ≤ total * radix + digit :=
        Nat.le_trans (Nat.le_mul_of_pos_right total (by omega)) (Nat.le_add_right ..)
      exact Nat.le_trans grown (ih _)

/-- The doubles at hand are the whole numbers that they stand for, since none of
    them is above the last one. -/
theorem foldl_wholeDouble {radix : Nat} (least : 2 ≤ radix) (greatest : radix ≤ 36)
    {digits : List Nat} (below : ∀ digit ∈ digits, digit < radix) {total : Nat}
    (small : digits.foldl (fun total digit => total * radix + digit) total < 2 ^ 53) :
    digits.foldl (fun total digit => total * nearest radix 0 + nearest digit 0)
        (wholeDouble .positive total) =
      wholeDouble .positive (digits.foldl (fun total digit => total * radix + digit) total) := by
  induction digits generalizing total with
  | nil => rfl
  | cons digit rest ih =>
      obtain ⟨first, below⟩ := List.forall_mem_cons.mp below
      rw [List.foldl_cons] at small
      have next : total * radix + digit < 2 ^ 53 :=
        Nat.lt_of_le_of_lt (le_foldl_digits least _ rest) small
      have product : total * radix < 2 ^ 53 := by omega
      have held : total < 2 ^ 53 :=
        Nat.lt_of_le_of_lt (Nat.le_mul_of_pos_right total (by omega)) product
      rw [List.foldl_cons, List.foldl_cons, nearest_eq_wholeDouble greatest,
        nearest_eq_wholeDouble (by omega), wholeDouble_mul .positive .positive held (by omega) product]
      change List.foldl _ (wholeDouble .positive (total * radix) + _) rest = _
      rw [wholeDouble_add product (by omega) next, ← nearest_eq_wholeDouble greatest]
      exact ih below small

theorem trimStart_visible {c : Char} (visible : Text.isBlank c = false) (rest : List Char) :
    Text.trimStart (c :: rest) = c :: rest :=
  List.dropWhile_cons_of_neg (by simp [visible])

theorem spanSign_trimStart (n : Int) {c : Char} (visible : Text.isBlank c = false)
    (noMinus : c ≠ '-') (noPlus : c ≠ '+') (rest : List Char) :
    ∃ width, spanSign (Text.trimStart ((if n < 0 then "-" else "").toList ++ c :: rest)) =
      (decide (n < 0), width, c :: rest) := by
  by_cases negative : n < 0
  · rw [if_pos negative, decide_eq_true negative]
    refine ⟨1, ?_⟩
    change spanSign (Text.trimStart ('-' :: c :: rest)) = _
    rw [trimStart_visible (by decide +kernel)]
    rfl
  · rw [if_neg negative, decide_eq_false negative]
    refine ⟨0, ?_⟩
    change spanSign (Text.trimStart (c :: rest)) = _
    rw [trimStart_visible visible]
    simp [spanSign, noMinus, noPlus]

/-- What follows the sign is read in the given radix unless it is marked. -/
theorem parseInteger_unmarked {text : String} {radix width : Nat} {negative : Bool}
    {unsigned : List Char} {digits : List Nat} (least : 2 ≤ radix) (greatest : radix ≤ 36)
    (cut : spanSign (Text.trimStart text.toList) = (negative, width, unsigned))
    (unmarked : radix = 16 → ∀ rest, unsigned ≠ '0' :: 'x' :: rest ∧ unsigned ≠ '0' :: 'X' :: rest)
    (filled : digits ≠ []) (read : leadingDigits radix unsigned = digits) :
    parseInteger text radix =
      let magnitude :=
        digits.foldl (fun total d => total * nearest radix 0 + nearest d 0) 0.0
      if negative then -magnitude else magnitude := by
  have small : ¬(radix < 2 ∨ 36 < radix) := by omega
  have given : radix ≠ 0 := by omega
  obtain ⟨digit, rest, rfl⟩ := List.exists_cons_of_ne_nil filled
  unfold Script.parseInteger
  rw [cut]
  dsimp only
  by_cases sixteen : radix = 16
  · simp only [sixteen, or_true, if_true]
    split
    · next same => exact absurd rfl (unmarked sixteen _).1
    · next same => exact absurd rfl (unmarked sixteen _).2
    · simp only [← sixteen, given, if_false, small, read]
  · simp only [given, sixteen, or_self, if_false, small, read]

theorem wholeDouble_signed {n : Int} (small : n.natAbs < 2 ^ 53) :
    IsInteger (if n < 0 then -wholeDouble .positive n.natAbs else wholeDouble .positive n.natAbs)
      n := by
  by_cases negative : n < 0
  · rw [if_pos negative, wholeDouble_neg .positive small]
    have opposite : -(n.natAbs : Int) = n := by omega
    have held := wholeDouble_isInteger .negative small
    rwa [isMinus, if_pos rfl, opposite] at held
  · rw [if_neg negative]
    have same : (n.natAbs : Int) = n := by omega
    have held := wholeDouble_isInteger .positive small
    rwa [isMinus, if_neg Bool.false_ne_true, same] at held

theorem IsIntegerText.parseInteger {radix : Nat} {n : Int} {text : String}
    (shown : IsIntegerText radix n text) (least : 2 ≤ radix) (greatest : radix ≤ 36)
    (small : n.natAbs < 2 ^ 53) : IsInteger (parseInteger text radix) n := by
  obtain @⟨digits, filled, below, total⟩ := shown
  have fold := foldl_wholeDouble least greatest below (total.symm ▸ small : digitsTotal radix digits < 2 ^ 53)
  change _ = wholeDouble .positive (digitsTotal radix digits) at fold
  have zero : (0.0 : Float) = wholeDouble .positive 0 := by decide +kernel
  obtain ⟨digit, rest, rfl⟩ := List.exists_cons_of_ne_nil filled
  have first := below digit List.mem_cons_self
  obtain ⟨visible, noMinus, noPlus⟩ := radixDigit_visible (Nat.lt_of_lt_of_le first greatest)
  obtain ⟨width, cut⟩ := spanSign_trimStart n visible noMinus noPlus (rest.map radixDigit)
  have unmarked (sixteen : radix = 16) (more : List Char) :
      (digit :: rest).map radixDigit ≠ '0' :: 'x' :: more ∧
        (digit :: rest).map radixDigit ≠ '0' :: 'X' :: more := by
    have apart {c : Char} (member : c ∈ (digit :: rest).map radixDigit) : c ≠ 'x' ∧ c ≠ 'X' := by
      obtain ⟨digit', inside, rfl⟩ := List.mem_map.mp member
      exact radixDigit_unmarked (sixteen ▸ below digit' inside)
    constructor <;> intro same <;> rw [same] at apart
    · exact absurd rfl (apart (by simp : 'x' ∈ _)).1
    · exact absurd rfl (apart (by simp : 'X' ∈ _)).2
  have cut' : spanSign (Text.trimStart ((if n < 0 then "-" else "") ++
      String.ofList ((digit :: rest).map radixDigit)).toList) =
      (decide (n < 0), width, (digit :: rest).map radixDigit) := by
    rw [String.toList_append, String.toList_ofList]
    exact cut
  rw [parseInteger_unmarked least greatest cut' unmarked filled (leadingDigits_map greatest below),
    zero, fold, total]
  simp only [decide_eq_true_eq]
  exact wholeDouble_signed small

/-! ## There and back -/

/-- What the method of numbers checks of its radix. -/
theorem radix_accepted {radix : Nat} (least : 2 ≤ radix) (greatest : radix ≤ 36) :
    (nearest radix 0 == 10.0) = decide (radix = 10) ∧
      (2.0 ≤ nearest radix 0 ∧ nearest radix 0 ≤ 36.0 ∧ isWhole (nearest radix 0)) ∧
        toNatWithin 36 (nearest radix 0) = radix := by
  have every : ∀ radix : Fin 37, 2 ≤ radix.val →
      (nearest radix 0 == 10.0) = decide (radix.val = 10) ∧
        (2.0 ≤ nearest radix 0 ∧ nearest radix 0 ≤ 36.0 ∧ isWhole (nearest radix 0)) ∧
          toNatWithin 36 (nearest radix 0) = radix := by
    decide +kernel
  exact every ⟨radix, by omega⟩ least

theorem toStringText_isIntegerText (h : Heap) {radix : Nat} {x : Float} {n : Int}
    (least : 2 ≤ radix) (greatest : radix ≤ 36) (whole : IsInteger x n)
    (small : n.natAbs < 2 ^ 53) :
    ∃ text, NumberMethod.toString.apply h x (.number (nearest radix 0)) = .ok text ∧
      IsIntegerText radix n text := by
  obtain ⟨ten, allowed, same⟩ := radix_accepted least greatest
  unfold NumberMethod.apply NumberMethod.toStringText
  dsimp only
  have number : (Value.number (nearest radix 0)).toNumber h = nearest radix 0 := rfl
  rw [number, ten, if_pos allowed, same]
  by_cases decimal : radix = 10
  · subst decimal
    exact ⟨_, rfl, scriptText_isIntegerText whole small⟩
  · rw [decide_eq_false decimal, if_neg Bool.false_ne_true]
    exact ⟨_, rfl, radixText_isIntegerText least whole small⟩

/-- An integer of at most fifty-three bits has a double, and whichever of its
    doubles a script writes in a radix is read back as the integer. -/
theorem integer_texts_read_back (h : Heap) {n : Int} {radix : Nat} (small : n.natAbs ≤ 2 ^ 53 - 1)
    (least : 2 ≤ radix) (greatest : radix ≤ 36) :
    (∃ x, IsInteger x n) ∧
      ∀ x, IsInteger x n →
        ∃ text, NumberMethod.toString.apply h x (.number (nearest radix 0)) = .ok text ∧
          IsInteger (parseInteger text radix) n := by
  have below : n.natAbs < 2 ^ 53 := by omega
  refine ⟨⟨_, wholeDouble_signed below⟩, fun x whole => ?_⟩
  obtain ⟨text, written, shown⟩ := toStringText_isIntegerText h least greatest whole below
  exact ⟨text, written, shown.parseInteger least greatest below⟩

/-- The least integer in the greatest radix. -/
theorem integer_texts_read_back_least :
    ((-(2 ^ 53 - 1) : Int).natAbs ≤ 2 ^ 53 - 1 ∧ 2 ≤ 36 ∧ 36 ≤ 36) ∧
      ∃ x, IsInteger x (-(2 ^ 53 - 1)) ∧
        NumberMethod.toString.apply .empty x (.number (nearest 36 0)) = .ok "-2gosa7pa2gv" ∧
          IsInteger (parseInteger "-2gosa7pa2gv" 36) (-(2 ^ 53 - 1)) := by
  have small : (-(2 ^ 53 - 1) : Int).natAbs ≤ 2 ^ 53 - 1 := by decide
  refine ⟨⟨small, by decide, by decide⟩, ?_⟩
  obtain ⟨-, every⟩ := integer_texts_read_back .empty small (by decide : 2 ≤ 36) (by decide)
  have whole : IsInteger (-nearest (2 ^ 53 - 1) 0) (-(2 ^ 53 - 1)) :=
    ⟨by decide +kernel, by decide +kernel⟩
  have shown : (NumberMethod.toString.apply .empty (-nearest (2 ^ 53 - 1) 0)
      (.number (nearest 36 0))).toOption = some "-2gosa7pa2gv" := by
    decide +kernel
  obtain ⟨text, written, back⟩ := every _ whole
  rw [written] at shown
  cases shown
  exact ⟨_, whole, written, back⟩

end StrategyQubo.Script
