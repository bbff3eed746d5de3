import Mathlib.Data.List.TakeWhile
import StrategyQubo.Number.Layout
import StrategyQubo.Number.Literal

namespace StrategyQubo.Number

/-! # Plain numbers

The positional text of a decimal consists of digits with at most one point
among them, so it is a numeral to its end.
-/

/-- Digits, and maybe a point and more digits behind them. -/
inductive IsPlain : List Char → Prop where
  | whole {digits : List Char} :
      digits ≠ [] → (∀ c ∈ digits, c.isDigit = true) → IsPlain digits
  | fraction {whole fraction : List Char} :
      whole ≠ [] → (∀ c ∈ whole, c.isDigit = true) → (∀ c ∈ fraction, c.isDigit = true) →
      IsPlain (whole ++ '.' :: fraction)

theorem spanDigits_of_digits {digits rest : List Char} (decimal : ∀ c ∈ digits, c.isDigit = true)
    (ends : ∀ c ∈ rest.head?, c.isDigit = false) : spanDigits (digits ++ rest) = (digits, rest) := by
  rw [spanDigits, List.takeWhile_append_of_pos decimal, List.dropWhile_append_of_pos decimal]
  cases rest with
  | nil => simp
  | cons c more => simp [ends c rfl]

theorem spanDigits_of_all {digits : List Char} (decimal : ∀ c ∈ digits, c.isDigit = true) :
    spanDigits digits = (digits, []) := by
  have cut : spanDigits (digits ++ []) = (digits, []) :=
    spanDigits_of_digits decimal (by rintro c ⟨⟩)
  rwa [List.append_nil] at cut

/-- A hexadecimal prefix begins no numeral that ends with the text. -/
theorem numeral?_prefixed {mark : Char} (letter : mark = 'x' ∨ mark = 'X') (more : List Char) :
    numeral? ('0' :: mark :: more) = none := by
  rcases letter with rfl | rfl <;> simp [numeral?, spanNumeral?, spanDigits, spanExponent]

theorem IsPlain.numeral? {text : List Char} (plain : IsPlain text) :
    ∃ n, numeral? text = some n := by
  cases plain with
  | whole filled decimal =>
      have cut := spanDigits_of_all decimal
      simp [Number.numeral?, spanNumeral?, cut, filled, spanExponent]
  | @fraction whole fraction filled decimal decimal' =>
      have cut : spanDigits (whole ++ '.' :: fraction) = (whole, '.' :: fraction) :=
        spanDigits_of_digits decimal (by rintro c ⟨⟩; rfl)
      have cut' := spanDigits_of_all decimal'
      simp [Number.numeral?, spanNumeral?, cut, cut', filled, spanExponent]

theorem IsPlain.begins {text : List Char} (plain : IsPlain text) :
    ∃ c more, text = c :: more ∧ c.isDigit = true := by
  have first : ∀ {digits : List Char}, digits ≠ [] → (∀ c ∈ digits, c.isDigit = true) →
      ∀ rest, ∃ c more, digits ++ rest = c :: more ∧ c.isDigit = true := by
    intro digits filled decimal rest
    cases digits with
    | nil => exact absurd rfl filled
    | cons c digits => exact ⟨c, digits ++ rest, rfl, decimal c List.mem_cons_self⟩
  cases plain with
  | whole filled decimal => simpa using first filled decimal []
  | fraction filled decimal decimal' => exact first filled decimal _

theorem IsPlain.head_ne {text more : List Char} (plain : IsPlain text) : text ≠ '-' :: more := by
  obtain ⟨c, rest, same, digit⟩ := plain.begins
  rw [same]
  rintro ⟨⟩
  cases digit

/-! ## Texts -/

theorem isDigit_of_mem_toString {n : Nat} {c : Char} (member : c ∈ (toString n).toList) :
    c.isDigit = true := by
  rw [Nat.toString_eq_ofList_toDigits, String.toList_ofList] at member
  exact Nat.isDigit_of_mem_toDigits (by decide) (by decide) member

/-- The digits of a number are those of no other. -/
theorem digitsValue_toString (n : Nat) : digitsValue (toString n).toList = n := by
  have value : digitsValue (toString n).toList = Nat.ofDigitChars 10 (toString n).toList 0 := by
    simp only [digitsValue, Nat.ofDigitChars, Nat.mul_comm]
  rw [value, Nat.toString_eq_ofList_toDigits, String.toList_ofList]
  exact Nat.ofDigitChars_toDigits (by decide) (by decide)

theorem toString_injective {n m : Nat} (same : (toString n).toList = (toString m).toList) :
    n = m := by
  rw [← digitsValue_toString n, same, digitsValue_toString]

theorem toList_toString_ne_nil (n : Nat) : (toString n).toList ≠ [] := by
  rw [Nat.toString_eq_ofList_toDigits, String.toList_ofList]
  exact Nat.toDigits_ne_nil

theorem isDigit_of_mem_zeros {count : Nat} {c : Char} (member : c ∈ (zeros count).toList) :
    c.isDigit = true := by
  rw [zeros, String.toList_ofList] at member
  rw [List.eq_of_mem_replicate member]
  rfl

theorem isPlain_toString (n : Nat) : IsPlain (toString n).toList :=
  .whole (toList_toString_ne_nil n) fun _ => isDigit_of_mem_toString

theorem Decimal.isPlain_positional (d : Decimal) : IsPlain d.positional.toList := by
  obtain ⟨digits, exponent⟩ := d
  simp only [positional]
  split
  · split
    · exact isPlain_toString 0
    · rw [String.toList_append]
      refine .whole (List.append_ne_nil_of_left_ne_nil (toList_toString_ne_nil digits) _) ?_
      intro c member
      rcases List.mem_append.mp member with found | found
      · exact isDigit_of_mem_toString found
      · exact isDigit_of_mem_zeros found
  · split
    · have parts : ("0." ++ zeros ((-exponent).toNat - (toString digits).length) ++
          toString digits).toList = ['0'] ++ '.' ::
            ((zeros ((-exponent).toNat - (toString digits).length)).toList ++
              (toString digits).toList) := by
        simp
      rw [parts]
      refine .fraction (by simp) (by simp) fun c member => ?_
      rcases List.mem_append.mp member with found | found
      · exact isDigit_of_mem_zeros found
      · exact isDigit_of_mem_toString found
    · next long =>
      have parts : ∀ width, (String.ofList ((toString digits).toList.take width) ++ "." ++
          String.ofList ((toString digits).toList.drop width)).toList =
            (toString digits).toList.take width ++ '.' ::
              (toString digits).toList.drop width := by
        simp
      rw [parts]
      refine .fraction ?_ (fun c member => isDigit_of_mem_toString (List.mem_of_mem_take member))
        fun c member => isDigit_of_mem_toString (List.mem_of_mem_drop member)
      rw [Ne, List.take_eq_nil_iff, not_or]
      exact ⟨by omega, toList_toString_ne_nil digits⟩

theorem isPlain_magnitudeText (value : Dyadic) : IsPlain (magnitudeText value).toList := by
  unfold magnitudeText
  split
  · exact isPlain_toString _
  · exact Decimal.isPlain_positional _

end StrategyQubo.Number
