import Mathlib.Algebra.Group.Nat.Defs
import StrategyQubo.Proofs.PlainNumbers
import StrategyQubo.Proofs.ProperNumbers
import StrategyQubo.Script.Convert

namespace StrategyQubo.Number

/-! # Numeric texts

A text is converted to a number by cutting it in pieces, and its grammar is
given here without any cutting.  The two meet in the decimal literals.
Hexadecimal digits are left to a reader of machine words, which lets a plus
sign pass and refuses what a word does not hold.
-/

/-! ## The grammar -/

inductive IsSign : List Char → Prop where
  | none : IsSign []
  | plus : IsSign ['+']
  | minus : IsSign ['-']

inductive IsExponent : List Char → Prop where
  | none : IsExponent []
  | marked {mark : Char} {sign digits : List Char} :
      mark = 'e' ∨ mark = 'E' → IsSign sign → digits ≠ [] → (∀ c ∈ digits, c.isDigit = true) →
      IsExponent (mark :: (sign ++ digits))

/-- Digits with an optional point and more digits, or a point and digits, and
    an exponent behind them. -/
inductive IsDecimal : List Char → Prop where
  | plain {text exponent : List Char} :
      IsPlain text → IsExponent exponent → IsDecimal (text ++ exponent)
  | fraction {digits exponent : List Char} :
      digits ≠ [] → (∀ c ∈ digits, c.isDigit = true) → IsExponent exponent →
      IsDecimal ('.' :: (digits ++ exponent))

def IsHexadecimal (digits : List Char) : Prop :=
  digits ≠ [] ∧ ∀ c ∈ digits, isHexDigit c = true

def hexadecimalValue (digits : List Char) : Nat :=
  digits.foldl (fun total c => total * 16 + (hexDigitValue? c).getD 0) 0

/-- Complete numeric literals, with no blanks around them. -/
inductive IsNumeric : List Char → Prop where
  | empty : IsNumeric []
  | infinite {sign : List Char} : IsSign sign → IsNumeric (sign ++ "Infinity".toList)
  | hexadecimal {mark : Char} {digits : List Char} :
      mark = 'x' ∨ mark = 'X' → IsHexadecimal digits → IsNumeric ('0' :: mark :: digits)
  | decimal {sign text : List Char} : IsSign sign → IsDecimal text → IsNumeric (sign ++ text)

/-! ## Decimal literals -/

theorem spanDigits_whole {text : List Char} (whole : (spanDigits text).2 = []) :
    text = (spanDigits text).1 :=
  calc
    text = (spanDigits text).1 ++ (spanDigits text).2 := List.takeWhile_append_dropWhile.symm
    _ = (spanDigits text).1 := by rw [whole, List.append_nil]

theorem spanSign_split (text : List Char) :
    ∃ sign, IsSign sign ∧ text = sign ++ (spanSign text).2.2 ∧ sign.length = (spanSign text).2.1 := by
  unfold spanSign
  split
  · exact ⟨['-'], .minus, rfl, rfl⟩
  · exact ⟨['+'], .plus, rfl, rfl⟩
  · exact ⟨[], .none, rfl, rfl⟩

/-- A sign is split off from what does not begin with another one. -/
theorem spanSign_append_sign {sign text : List Char} (isSign : IsSign sign)
    (bare : ∀ c ∈ text.head?, c ≠ '-' ∧ c ≠ '+') : (spanSign (sign ++ text)).2.2 = text := by
  cases isSign with
  | plus | minus => rfl
  | none =>
      cases text with
      | nil => rfl
      | cons c more =>
          obtain ⟨noMinus, noPlus⟩ := bare c rfl
          simp [spanSign, noMinus, noPlus]

theorem spanExponent_eq_nil_iff {text : List Char} :
    (spanExponent text).2.2 = [] ↔ IsExponent text := by
  constructor
  · intro whole
    unfold spanExponent at whole
    split at whole
    · next mark rest =>
      split at whole
      · next letter =>
        dsimp only at whole
        split at whole
        · cases whole
        · next filled =>
          obtain ⟨sign, isSign, split, -⟩ := spanSign_split rest
          rw [split, spanDigits_whole whole]
          exact .marked letter isSign (by simpa using filled) fun _ => List.mem_takeWhile_imp
      · cases whole
    · exact .none
  · intro exponent
    cases exponent with
    | none => rfl
    | @marked mark sign digits letter isSign filled decimal =>
        have unsigned : (spanSign (sign ++ digits)).2.2 = digits := by
          refine spanSign_append_sign isSign fun c first => ?_
          have digit := decimal c (List.mem_of_mem_head? first)
          constructor <;> rintro rfl <;> cases digit
        simp [spanExponent, letter, unsigned, spanDigits_of_all decimal, filled]

/-- Neither a digit nor a point begins an exponent. -/
theorem IsExponent.head_apart {text : List Char} (isExponent : IsExponent text) :
    ∀ c ∈ text.head?, c.isDigit = false ∧ c ≠ '.' := by
  cases isExponent with
  | none => rintro c ⟨⟩
  | marked letter =>
      rintro c ⟨⟩
      rcases letter with rfl | rfl <;> exact ⟨rfl, by decide⟩

theorem spanDigits_exponent {digits exponent : List Char}
    (decimal : ∀ c ∈ digits, c.isDigit = true) (isExponent : IsExponent exponent) :
    spanDigits (digits ++ exponent) = (digits, exponent) :=
  spanDigits_of_digits decimal fun c first => (isExponent.head_apart c first).1

theorem numeral?_of_isDecimal {text : List Char} (decimal : IsDecimal text) :
    ∃ n, numeral? text = some n := by
  have ends {exponent : List Char} (isExponent : IsExponent exponent) :
      ∃ power width, spanExponent exponent = (power, width, []) :=
    ⟨_, _, Prod.ext rfl (Prod.ext rfl (spanExponent_eq_nil_iff.mpr isExponent))⟩
  cases decimal with
  | @plain body exponent plain isExponent =>
      obtain ⟨power, width, read⟩ := ends isExponent
      cases plain with
      | whole filled digits =>
          have cut := spanDigits_exponent digits isExponent
          have pointless : ∀ more, exponent ≠ '.' :: more := by
            rintro more rfl
            exact (isExponent.head_apart '.' rfl).2 rfl
          simp [numeral?, spanNumeral?, cut, filled, read]
      | @fraction whole fraction filled digits digits' =>
          have cut : spanDigits (whole ++ '.' :: (fraction ++ exponent)) =
              (whole, '.' :: (fraction ++ exponent)) :=
            spanDigits_of_digits digits (by rintro c ⟨⟩; rfl)
          have cut' := spanDigits_exponent digits' isExponent
          simp [numeral?, spanNumeral?, cut, cut', filled, read]
  | @fraction digits exponent filled digits' isExponent =>
      obtain ⟨power, width, read⟩ := ends isExponent
      have cut : spanDigits ('.' :: (digits ++ exponent)) = ([], '.' :: (digits ++ exponent)) := rfl
      have cut' := spanDigits_exponent digits' isExponent
      simp [numeral?, spanNumeral?, cut, cut', filled, read]

theorem isDecimal_of_numeral? {text : List Char} {n : Numeral} (found : numeral? text = some n) :
    IsDecimal text := by
  have digits (text : List Char) : ∀ c ∈ (spanDigits text).1, c.isDigit = true :=
    fun _ => List.mem_takeWhile_imp
  have split (text : List Char) : (spanDigits text).1 ++ (spanDigits text).2 = text :=
    List.takeWhile_append_dropWhile
  have ends : spanNumeral? text = some (n, []) := by
    unfold numeral? at found
    split at found
    · next read => rw [read, Option.some.inj found]
    · cases found
  unfold spanNumeral? at ends
  dsimp only at ends
  split at ends
  · next behind point =>
    split at ends
    · cases ends
    · next filled =>
      have isExponent := spanExponent_eq_nil_iff.mp (Prod.mk.inj (Option.some.inj ends)).2
      rw [← split text, point, ← split behind]
      cases whole : (spanDigits text).1 with
      | nil => exact .fraction (by simpa [whole] using filled) (digits behind) isExponent
      | cons c more =>
          rw [← List.cons_append, ← List.append_assoc]
          refine .plain (.fraction (List.cons_ne_nil c more) ?_ (digits behind)) isExponent
          rw [← whole]
          exact digits text
  · split at ends
    · cases ends
    · next filled =>
      have isExponent := spanExponent_eq_nil_iff.mp (Prod.mk.inj (Option.some.inj ends)).2
      rw [← split text]
      exact .plain (.whole (by simpa using filled) (digits text)) isExponent

theorem numeral?_isSome_iff {text : List Char} : (numeral? text).isSome = true ↔ IsDecimal text := by
  rw [Option.isSome_iff_exists]
  exact ⟨fun ⟨_, found⟩ => isDecimal_of_numeral? found, numeral?_of_isDecimal⟩

/-! ## Hexadecimal digits -/

theorem mapM_hexDigitValue? {digits : List Char} :
    digits.mapM hexDigitValue? =
      if digits.all isHexDigit then
        some (digits.map fun c => (hexDigitValue? c).getD 0)
      else
        none := by
  induction digits with
  | nil => rfl
  | cons c digits ih =>
      rw [List.mapM_cons, ih]
      have head : isHexDigit c = (hexDigitValue? c).isSome := rfl
      rw [List.all_cons, head]
      cases first : hexDigitValue? c with
      | none => rfl
      | some value =>
          rw [Option.isSome_some, Bool.true_and]
          split <;> simp [first]

/-- What the reader of words takes for the digits: a plus sign is skipped. -/
def afterPlus (text : List Char) : List Char :=
  match text with
  | '+' :: rest => rest
  | _ => text

/-- Hexadecimal digits and nothing else, of a number below the bound. -/
def hexDigits? (bound : Nat) (digits : List Char) : Option Nat :=
  if digits.isEmpty then
    none
  else
    match digits.mapM hexDigitValue? with
    | some values =>
        let total := values.foldl (fun total d => total * 16 + d) 0
        if total < bound then some total else none
    | none => none

theorem afterPlus_of_isHexadecimal {digits : List Char} (hexadecimal : IsHexadecimal digits) :
    afterPlus digits = digits := by
  unfold afterPlus
  split
  · exact absurd (hexadecimal.2 '+' List.mem_cons_self) (by decide)
  · rfl

theorem hexNumber?_eq (bound : Nat) (text : List Char) :
    hexNumber? bound text = hexDigits? bound (afterPlus text) := rfl

theorem hexDigits?_isSome_iff {bound : Nat} {digits : List Char} :
    (hexDigits? bound digits).isSome = true ↔
      IsHexadecimal digits ∧ hexadecimalValue digits < bound := by
  unfold hexDigits? IsHexadecimal hexadecimalValue
  rw [mapM_hexDigitValue?, ← List.all_eq_true]
  cases digits with
  | nil => simp
  | cons c digits =>
      cases (c :: digits).all isHexDigit with
      | true => simp [List.foldl_map]
      | false => simp

/-! ## Cutting numeric texts -/

theorem IsDecimal.bare {text : List Char} (decimal : IsDecimal text) :
    ∀ c ∈ text.head?, c ≠ '-' ∧ c ≠ '+' := by
  cases decimal with
  | plain plain =>
      obtain ⟨c, more, rfl, digit⟩ := plain.begins
      rintro _ ⟨⟩
      constructor <;> rintro rfl <;> cases digit
  | fraction =>
      rintro _ ⟨⟩
      decide

theorem not_isDecimal_prefixed {mark : Char} (letter : mark = 'x' ∨ mark = 'X')
    (digits : List Char) : ¬ IsDecimal ('0' :: mark :: digits) := by
  rw [← numeral?_isSome_iff, numeral?_prefixed letter digits]
  exact Bool.false_ne_true

/-- What a numeric text is, by what is left of it without a sign. -/
theorem isNumeric_iff {text : List Char} :
    IsNumeric text ↔
      text = [] ∨ (spanSign text).2.2 = "Infinity".toList ∨ IsDecimal (spanSign text).2.2 ∨
        ∃ mark digits, (mark = 'x' ∨ mark = 'X') ∧ IsHexadecimal digits ∧
          text = '0' :: mark :: digits := by
  constructor
  · intro numeric
    cases numeric with
    | empty => exact .inl rfl
    | infinite isSign =>
        exact .inr (.inl (spanSign_append_sign isSign (by rintro c ⟨⟩; decide)))
    | hexadecimal letter digits => exact .inr (.inr (.inr ⟨_, _, letter, digits, rfl⟩))
    | decimal isSign decimal =>
        rw [spanSign_append_sign isSign decimal.bare]
        exact .inr (.inr (.inl decimal))
  · obtain ⟨sign, isSign, split, -⟩ := spanSign_split text
    rintro (rfl | infinite | decimal | ⟨mark, digits, letter, hexadecimal, rfl⟩)
    · exact .empty
    · rw [split, infinite]
      exact .infinite isSign
    · rw [split]
      exact .decimal isSign decimal
    · exact .hexadecimal letter hexadecimal

theorem isNumeric_unprefixed {text : List Char}
    (begins : ∀ mark digits, mark = 'x' ∨ mark = 'X' → text ≠ '0' :: mark :: digits) :
    IsNumeric text ↔
      text = [] ∨ (spanSign text).2.2 = "Infinity".toList ∨ IsDecimal (spanSign text).2.2 := by
  have none : ¬ ∃ mark digits, (mark = 'x' ∨ mark = 'X') ∧ IsHexadecimal digits ∧
      text = '0' :: mark :: digits :=
    fun ⟨mark, digits, letter, _, same⟩ => begins mark digits letter same
  rw [isNumeric_iff, or_iff_left none]

theorem isNumeric_prefixed {mark : Char} (letter : mark = 'x' ∨ mark = 'X') {digits : List Char} :
    IsNumeric ('0' :: mark :: digits) ↔ IsHexadecimal digits := by
  constructor
  · intro numeric
    rcases isNumeric_iff.mp numeric with empty | infinite | decimal | ⟨_, _, _, hexadecimal, same⟩
    · cases empty
    · cases infinite
    · exact absurd decimal (not_isDecimal_prefixed letter digits)
    · cases same
      exact hexadecimal
  · exact .hexadecimal letter

end StrategyQubo.Number

namespace StrategyQubo.Script

open Number

/-! ## Conversion -/

section

variable {text : String} {trimmed : List Char} (cut : (Text.trim text).toList = trimmed)

include cut

theorem textToNumber_prefixed_eq {mark : Char} (letter : mark = 'x' ∨ mark = 'X')
    {digits : List Char} (begins : trimmed = '0' :: mark :: digits) :
    textToNumber text = match hexNumber? (2 ^ 64) digits with
      | some value => nearest value 0
      | none => notANumber := by
  rw [Text.trim, String.toList_ofList] at cut
  unfold textToNumber
  rw [cut, begins]
  rcases letter with rfl | rfl <;> rfl

theorem textToNumber_prefixed {mark : Char} (letter : mark = 'x' ∨ mark = 'X') {digits : List Char}
    (begins : trimmed = '0' :: mark :: digits) :
    (textToNumber text).isNaN = false ↔ (hexNumber? (2 ^ 64) digits).isSome = true := by
  rw [textToNumber_prefixed_eq cut letter begins]
  cases hexNumber? (2 ^ 64) digits with
  | some value => exact iff_of_true (isNaN_nearest value 0) rfl
  | none => exact iff_of_false (by decide +kernel) Bool.false_ne_true

theorem textToNumber_unprefixed
    (begins : ∀ mark digits, mark = 'x' ∨ mark = 'X' → trimmed ≠ '0' :: mark :: digits) :
    (textToNumber text).isNaN = false ↔ IsNumeric trimmed := by
  rw [Text.trim, String.toList_ofList] at cut
  rw [isNumeric_unprefixed begins]
  unfold textToNumber
  rw [cut]
  have nan : notANumber.isNaN ≠ false := by decide +kernel
  obtain ⟨sign, -, split, width⟩ := spanSign_split trimmed
  rcases parts : spanSign trimmed with ⟨negative, signWidth, unsigned⟩
  rw [parts] at split width
  dsimp only at split width
  -- A prefix there would have a sign before it, and a hexadecimal number has none.
  have signed : ∀ mark digits, mark = 'x' ∨ mark = 'X' → unsigned = '0' :: mark :: digits →
      signWidth ≠ 0 ∧ ¬ IsDecimal unsigned := by
    rintro mark digits letter rfl
    refine ⟨fun none => ?_, not_isDecimal_prefixed letter digits⟩
    obtain rfl := List.length_eq_zero_iff.mp (width.trans none)
    exact begins mark digits letter split
  by_cases empty : trimmed = []
  · subst empty
    exact iff_of_true (isNaN_ofScientific 0 true 1) (.inl rfl)
  · simp only [parts, List.isEmpty_iff, if_neg empty, or_iff_right empty]
    by_cases infinite : unsigned = "Infinity".toList
    · subst infinite
      refine iff_of_true ?_ (.inl rfl)
      rw [if_pos rfl]
      cases negative <;> decide +kernel
    · rw [if_neg infinite, or_iff_right infinite]
      split
      · next digits =>
        obtain ⟨filled, other⟩ := signed 'x' digits (.inl rfl) rfl
        rw [if_neg filled]
        exact iff_of_false nan other
      · next digits =>
        obtain ⟨filled, other⟩ := signed 'X' digits (.inr rfl) rfl
        rw [if_neg filled]
        exact iff_of_false nan other
      · rw [← numeral?_isSome_iff]
        cases numeral? unsigned with
        | some n =>
            have number : n.toFloat.isNaN = false := isNaN_nearest _ _
            refine iff_of_true ?_ rfl
            cases negative with
            | true => exact (isNaN_neg _).trans number
            | false => exact number
        | none => exact iff_of_false nan Bool.false_ne_true

end

/-- Texts behind a hexadecimal prefix that are misread: digits of a number that
    a machine word does not hold, and digits behind a plus sign. -/
inductive Misread : List Char → Prop where
  | wide {mark : Char} {digits : List Char} :
      mark = 'x' ∨ mark = 'X' → IsHexadecimal digits → 2 ^ 64 ≤ hexadecimalValue digits →
      Misread ('0' :: mark :: digits)
  | plus {mark : Char} {digits : List Char} :
      mark = 'x' ∨ mark = 'X' → IsHexadecimal digits → hexadecimalValue digits < 2 ^ 64 →
      Misread ('0' :: mark :: '+' :: digits)

/-- Exactly the texts that are misread are converted to a number without being
    numeric, or to NaN while being numeric. -/
theorem textToNumber_isNumeric (text : String) :
    ((textToNumber text).isNaN = false ↔ IsNumeric (Text.trim text).toList) ↔
      ¬ Misread (Text.trim text).toList := by
  generalize cut : (Text.trim text).toList = trimmed
  by_cases begins : ∃ mark digits, (mark = 'x' ∨ mark = 'X') ∧ trimmed = '0' :: mark :: digits
  · obtain ⟨mark, digits, letter, rfl⟩ := begins
    rw [textToNumber_prefixed cut letter rfl, isNumeric_prefixed letter, hexNumber?_eq,
      hexDigits?_isSome_iff]
    constructor
    · rintro same (⟨_, hexadecimal, wide⟩ | ⟨_, hexadecimal, small⟩)
      · have small := (same.mpr hexadecimal).2
        rw [afterPlus_of_isHexadecimal hexadecimal] at small
        exact absurd wide (Nat.not_le.mpr small)
      · have signed := same.mp ⟨hexadecimal, small⟩
        exact absurd (signed.2 '+' List.mem_cons_self) (by decide)
    · intro faithful
      constructor
      · rintro ⟨hexadecimal, small⟩
        unfold afterPlus at hexadecimal small
        split at hexadecimal
        · exact absurd (.plus letter hexadecimal small) faithful
        · exact hexadecimal
      · intro hexadecimal
        rw [afterPlus_of_isHexadecimal hexadecimal]
        exact ⟨hexadecimal, Nat.lt_of_not_le fun wide => faithful (.wide letter hexadecimal wide)⟩
  · have other : ∀ mark digits, mark = 'x' ∨ mark = 'X' → trimmed ≠ '0' :: mark :: digits :=
      fun mark digits letter same => begins ⟨mark, digits, letter, same⟩
    refine iff_of_true (textToNumber_unprefixed cut other) ?_
    rintro (⟨letter, -⟩ | ⟨letter, -⟩) <;> exact other _ _ letter rfl

/-- A plus sign behind the prefix is let pass, and a seventeenth digit is not. -/
theorem hexadecimal_texts_misread :
    ((textToNumber "0x+1f").isNaN = false ∧ ¬ IsNumeric (Text.trim "0x+1f").toList) ∧
      (textToNumber "0x10000000000000000").isNaN = true ∧
        IsNumeric (Text.trim "0x10000000000000000").toList := by
  have plus : (Text.trim "0x+1f").toList = ['0', 'x', '+', '1', 'f'] := by decide +kernel
  have wide : (Text.trim "0x10000000000000000").toList = '0' :: 'x' :: "10000000000000000".toList := by
    decide +kernel
  rw [plus, wide, isNumeric_prefixed (.inl rfl), isNumeric_prefixed (.inl rfl)]
  refine ⟨⟨by decide +kernel, fun signed => ?_⟩, by decide +kernel, by decide, ?_⟩
  · exact absurd (signed.2 '+' List.mem_cons_self) (by decide)
  · exact List.all_eq_true.mp (by decide)

end StrategyQubo.Script
