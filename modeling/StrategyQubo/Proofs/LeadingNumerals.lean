import StrategyQubo.Proofs.NumericTexts
import StrategyQubo.Proofs.SteadyScans

namespace StrategyQubo.Number

/-! # The number at the front of a text

A decimal number is read from as much of a text as can belong to one.  What is
taken is the longest front that the grammar of numbers allows, and that front by
itself is converted to the same number.
-/

/-! ## Fronts -/

/-- A number with a sign or without one. -/
inductive IsSigned : List Char → Prop where
  | infinite {sign : List Char} : IsSign sign → IsSigned (sign ++ "Infinity".toList)
  | decimal {sign text : List Char} : IsSign sign → IsDecimal text → IsSigned (sign ++ text)

/-- The longest front of the text that is as wanted. -/
structure IsLongest (wanted : List Char → Prop) (text front : List Char) : Prop where
  begins : front <+: text
  good : wanted front
  longest : ∀ other, other <+: text → wanted other → other.length ≤ front.length

/-- Digits at the front reach no further than all digits there do. -/
theorem length_le_spanDigits {digits text : List Char} (begins : digits <+: text)
    (decimal : ∀ c ∈ digits, c.isDigit = true) : digits.length ≤ (spanDigits text).1.length := by
  obtain ⟨more, rfl⟩ := begins
  unfold spanDigits
  rw [List.takeWhile_append_of_pos decimal, List.length_append]
  exact Nat.le_add_right ..

theorem spanDigits_ne_nil {digits text : List Char} (begins : digits <+: text)
    (decimal : ∀ c ∈ digits, c.isDigit = true) (filled : digits ≠ []) : (spanDigits text).1 ≠ [] := by
  intro blank
  have shorter := length_le_spanDigits begins decimal
  rw [blank, List.length_nil] at shorter
  exact filled (List.length_eq_zero_iff.mp (Nat.le_zero.mp shorter))

/-- A sign is cut off by itself, whatever follows it. -/
theorem spanSign_signed (text : List Char) :
    ∃ sign, IsSign sign ∧ text = sign ++ (spanSign text).2.2 ∧ sign.length = (spanSign text).2.1 ∧
      ∀ other : List Char, (∀ c ∈ other.head?, c ≠ '-' ∧ c ≠ '+') →
        spanSign (sign ++ other) = ((spanSign text).1, (spanSign text).2.1, other) := by
  unfold spanSign
  split
  · exact ⟨['-'], .minus, rfl, rfl, fun _ _ => rfl⟩
  · exact ⟨['+'], .plus, rfl, rfl, fun _ _ => rfl⟩
  · refine ⟨[], .none, rfl, rfl, fun other bare => ?_⟩
    cases other with
    | nil => rfl
    | cons c more =>
        obtain ⟨noMinus, noPlus⟩ := bare c rfl
        simp [noMinus, noPlus]

theorem digits_bare {digits : List Char} (more : List Char) (filled : digits ≠ [])
    (decimal : ∀ c ∈ digits, c.isDigit = true) :
    ∀ c ∈ (digits ++ more).head?, c ≠ '-' ∧ c ≠ '+' := by
  intro c first
  rw [List.head?_append_of_ne_nil _ filled] at first
  have digit := decimal c (List.mem_of_mem_head? first)
  constructor <;> rintro rfl <;> cases digit

/-! ## Exponents -/

/-- An exponent that is read is read by itself as well. -/
theorem spanExponent_alone (text : List Char) :
    ∃ used, IsExponent used ∧ text = used ++ (spanExponent text).2.2 ∧
      used.length = (spanExponent text).2.1 ∧
      spanExponent used = ((spanExponent text).1, (spanExponent text).2.1, []) := by
  have nothing : ∃ used, IsExponent used ∧ text = used ++ text ∧ used.length = 0 ∧
      spanExponent used = (0, 0, []) := ⟨[], .none, rfl, rfl, rfl⟩
  generalize read : spanExponent text = found
  unfold spanExponent at read
  split at read
  · next mark rest =>
    split at read
    · next letter =>
      dsimp only at read
      split at read
      · subst read
        exact nothing
      · next filled =>
        subst read
        obtain ⟨sign, isSign, split, width, cut⟩ := spanSign_signed rest
        generalize (spanSign rest).2.2 = unsigned at *
        have digit : (spanDigits unsigned).1 ≠ [] := by simpa using filled
        have decimal : ∀ c ∈ (spanDigits unsigned).1, c.isDigit = true :=
          fun _ => List.mem_takeWhile_imp
        refine ⟨mark :: (sign ++ (spanDigits unsigned).1), .marked letter isSign digit decimal, ?_, ?_, ?_⟩
        · rw [split, List.cons_append, List.append_assoc]
          exact congrArg (mark :: sign ++ ·) List.takeWhile_append_dropWhile.symm
        · rw [List.length_cons, List.length_append, width]
          change _ = 1 + (spanSign rest).2.1 + (spanDigits unsigned).1.length
          omega
        · have bare := digits_bare [] digit decimal
          rw [List.append_nil] at bare
          simp [spanExponent, letter, cut _ bare, spanDigits_of_all decimal, digit]
    · subst read
      exact nothing
  · subst read
    exact nothing

/-- No exponent at the front is longer than the one that is read. -/
theorem length_le_spanExponent {exponent text : List Char} (begins : exponent <+: text)
    (isExponent : IsExponent exponent) : exponent.length ≤ (spanExponent text).2.1 := by
  obtain ⟨more, rfl⟩ := begins
  cases isExponent with
  | none => exact Nat.zero_le _
  | @marked mark sign digits letter isSign filled decimal =>
      have bare := digits_bare more filled decimal
      obtain ⟨sign', isSign', split, width, -⟩ := spanSign_signed (sign ++ (digits ++ more))
      have unsigned := spanSign_append_sign isSign bare
      rw [unsigned] at split
      obtain rfl := List.append_cancel_right split
      have further := length_le_spanDigits (List.prefix_append digits more) decimal
      have digit : ((spanDigits (digits ++ more)).1).isEmpty = false :=
        List.isEmpty_eq_false_iff.mpr (spanDigits_ne_nil (List.prefix_append digits more) decimal filled)
      simp only [List.cons_append, List.append_assoc, spanExponent, if_pos letter, unsigned, digit,
        Bool.false_eq_true, if_false, List.length_cons, List.length_append, ← width]
      omega

/-! ## Decimal literals -/

/-- Digits and an exponent at the front are no longer than those that are read. -/
theorem length_le_digits_exponent {digits exponent text : List Char}
    (begins : digits ++ exponent <+: text) (decimal : ∀ c ∈ digits, c.isDigit = true)
    (isExponent : IsExponent exponent) :
    digits.length + exponent.length ≤
      (spanDigits text).1.length + (spanExponent (spanDigits text).2).2.1 := by
  cases exponent with
  | nil =>
      rw [List.append_nil] at begins
      exact Nat.le_trans (length_le_spanDigits begins decimal) (Nat.le_add_right ..)
  | cons mark exponent =>
      obtain ⟨more, rfl⟩ := begins
      have cut : spanDigits (digits ++ (mark :: exponent ++ more)) =
          (digits, mark :: exponent ++ more) :=
        spanDigits_of_digits decimal (by rintro c ⟨⟩; exact (isExponent.head_apart mark rfl).1)
      rw [List.append_assoc, cut]
      exact Nat.add_le_add_left (length_le_spanExponent (List.prefix_append ..) isExponent) _

/-- What is read of a text with a point behind the first digits. -/
theorem spanNumeral?_point {whole : List Char} (behind : List Char) (decimal : ∀ c ∈ whole, c.isDigit = true)
    (digit : whole = [] → (spanDigits behind).1 ≠ []) :
    spanNumeral? (whole ++ '.' :: behind) =
      some (⟨whole, (spanDigits behind).1, (spanExponent (spanDigits behind).2).1,
        whole.length + 1 + (spanDigits behind).1.length + (spanExponent (spanDigits behind).2).2.1⟩,
        (spanExponent (spanDigits behind).2).2.2) := by
  have cut : spanDigits (whole ++ '.' :: behind) = (whole, '.' :: behind) :=
    spanDigits_of_digits decimal (by rintro c ⟨⟩; rfl)
  simp only [spanNumeral?, cut, Bool.and_eq_true, List.isEmpty_iff]
  rw [if_neg fun none => digit none.1 none.2]

/-- What is read of a text without one. -/
theorem spanNumeral?_whole {text : List Char} (filled : (spanDigits text).1 ≠ [])
    (pointless : ∀ behind, (spanDigits text).2 ≠ '.' :: behind) :
    spanNumeral? text =
      some (⟨(spanDigits text).1, [], (spanExponent (spanDigits text).2).1,
        (spanDigits text).1.length + (spanExponent (spanDigits text).2).2.1⟩,
        (spanExponent (spanDigits text).2).2.2) := by
  unfold spanNumeral?
  dsimp only
  split
  · next behind point => exact absurd point (pointless behind)
  · simp [filled]

/-- A literal that is read is read by itself as well. -/
theorem spanNumeral?_alone {text rest : List Char} {n : Numeral}
    (found : spanNumeral? text = some (n, rest)) :
    ∃ used, text = used ++ rest ∧ used.length = n.width ∧ numeral? used = some n := by
  have decimal (text : List Char) : ∀ c ∈ (spanDigits text).1, c.isDigit = true :=
    fun _ => List.mem_takeWhile_imp
  have split (text : List Char) : text = (spanDigits text).1 ++ (spanDigits text).2 :=
    List.takeWhile_append_dropWhile.symm
  by_cases point : ∃ behind, (spanDigits text).2 = '.' :: behind
  · obtain ⟨behind, point⟩ := point
    have digit : (spanDigits text).1 = [] → (spanDigits behind).1 ≠ [] := by
      intro blank blank'
      simp [spanNumeral?, point, blank, blank'] at found
    have whole := split text
    rw [point] at whole
    rw [whole, spanNumeral?_point _ (decimal text) digit] at found
    obtain ⟨rfl, rfl⟩ := Prod.mk.inj (Option.some.inj found)
    obtain ⟨power, isExponent, split', width, alone⟩ := spanExponent_alone (spanDigits behind).2
    have cut := spanDigits_exponent (decimal behind) isExponent
    refine ⟨(spanDigits text).1 ++ '.' :: ((spanDigits behind).1 ++ power), ?_, ?_, ?_⟩
    · rw [List.append_assoc, List.cons_append, List.append_assoc, ← split', ← split behind]
      exact whole
    · rw [List.length_append, List.length_cons, List.length_append, width]
      dsimp only
      omega
    · rw [numeral?, spanNumeral?_point _ (decimal text) (by rwa [cut]), cut, alone]
  · have pointless : ∀ behind, (spanDigits text).2 ≠ '.' :: behind :=
      fun behind same => point ⟨behind, same⟩
    have filled : (spanDigits text).1 ≠ [] := by
      intro blank
      unfold spanNumeral? at found
      dsimp only at found
      split at found
      · next behind same => exact pointless behind same
      · simp [blank] at found
    rw [spanNumeral?_whole filled pointless] at found
    obtain ⟨rfl, rfl⟩ := Prod.mk.inj (Option.some.inj found)
    obtain ⟨power, isExponent, split', width, alone⟩ := spanExponent_alone (spanDigits text).2
    have cut := spanDigits_exponent (decimal text) isExponent
    refine ⟨(spanDigits text).1 ++ power, ?_, ?_, ?_⟩
    · rw [List.append_assoc, ← split', ← split text]
    · rw [List.length_append, width]
    · have pointless : ∀ behind, power ≠ '.' :: behind := by
        rintro behind rfl
        exact (isExponent.head_apart '.' rfl).2 rfl
      rw [numeral?, spanNumeral?_whole (by rwa [cut]) (by rwa [cut]), cut, alone]

/-- A literal with a point at the front is no longer than the one that is read. -/
theorem length_le_spanNumeral?_point {whole fraction exponent behind : List Char}
    (digits : ∀ c ∈ whole, c.isDigit = true) (digits' : ∀ c ∈ fraction, c.isDigit = true)
    (digit : whole = [] → fraction ≠ []) (isExponent : IsExponent exponent)
    (begins : fraction ++ exponent <+: behind) :
    ∃ n rest, spanNumeral? (whole ++ '.' :: behind) = some (n, rest) ∧
      whole.length + 1 + fraction.length + exponent.length ≤ n.width := by
  have further := length_le_digits_exponent begins digits' isExponent
  refine ⟨_, _, spanNumeral?_point _ digits fun blank =>
    spanDigits_ne_nil ((List.prefix_append ..).trans begins) digits' (digit blank), ?_⟩
  dsimp only
  omega

/-- A literal without a point at the front is no longer than the one that is read. -/
theorem length_le_spanNumeral?_whole {whole exponent text : List Char} (filled : whole ≠ [])
    (digits : ∀ c ∈ whole, c.isDigit = true) (isExponent : IsExponent exponent)
    (begins : whole ++ exponent <+: text) :
    ∃ n rest, spanNumeral? text = some (n, rest) ∧ whole.length + exponent.length ≤ n.width := by
  have further := length_le_digits_exponent begins digits isExponent
  have digit := spanDigits_ne_nil ((List.prefix_append ..).trans begins) digits filled
  by_cases point : ∃ behind, (spanDigits text).2 = '.' :: behind
  · -- Then there is no exponent behind the digits.
    obtain ⟨behind, point⟩ := point
    rw [point] at further
    have none : (spanExponent ('.' :: behind)).2.1 = 0 := by simp [spanExponent]
    have all : text = (spanDigits text).1 ++ '.' :: behind := by
      rw [← point]
      exact List.takeWhile_append_dropWhile.symm
    have digits' : ∀ c ∈ (spanDigits text).1, c.isDigit = true := fun _ => List.mem_takeWhile_imp
    have read := spanNumeral?_point behind digits' fun blank => absurd blank digit
    rw [← all] at read
    refine ⟨_, _, read, ?_⟩
    dsimp only
    omega
  · exact ⟨_, _, spanNumeral?_whole digit fun behind same => point ⟨behind, same⟩, further⟩

/-- No literal at the front is longer than the one that is read. -/
theorem length_le_spanNumeral? {literal text : List Char} (begins : literal <+: text)
    (decimal : IsDecimal literal) :
    ∃ n rest, spanNumeral? text = some (n, rest) ∧ literal.length ≤ n.width := by
  cases decimal with
  | @plain body exponent plain isExponent =>
      cases plain with
      | whole filled digits =>
          rw [List.length_append]
          exact length_le_spanNumeral?_whole filled digits isExponent begins
      | @fraction whole fraction filled digits digits' =>
          obtain ⟨more, rfl⟩ := begins
          obtain ⟨n, rest, found, wide⟩ := length_le_spanNumeral?_point digits digits'
            (absurd · filled) isExponent (List.prefix_append (fraction ++ exponent) more)
          refine ⟨n, rest, by simpa using found, ?_⟩
          simp only [List.length_append, List.length_cons]
          omega
  | @fraction digits exponent filled digits' isExponent =>
      obtain ⟨more, rfl⟩ := begins
      obtain ⟨n, rest, found, wide⟩ := length_le_spanNumeral?_point (List.forall_mem_nil _) digits'
        (fun _ => filled) isExponent (List.prefix_append (digits ++ exponent) more)
      refine ⟨n, rest, by simpa using found, ?_⟩
      simp only [List.length_append, List.length_cons, List.length_nil] at wide ⊢
      omega

/-! ## Characters of numbers -/

/-- A character of one byte that is no blank. -/
def Visible (c : Char) : Prop :=
  32 < c.toNat ∧ c.toNat < 127

instance (c : Char) : Decidable (Visible c) :=
  inferInstanceAs (Decidable (32 < c.toNat ∧ c.toNat < 127))

theorem visible_infinity : ∀ c ∈ "Infinity".toList, Visible c := by
  have all : "Infinity".toList.all (fun c => decide (Visible c)) = true := by decide
  exact fun c member => of_decide_eq_true (List.all_eq_true.mp all c member)

theorem IsSign.visible {sign : List Char} (isSign : IsSign sign) : ∀ c ∈ sign, Visible c := by
  cases isSign with
  | none => exact List.forall_mem_nil _
  | plus | minus => exact List.forall_mem_singleton.mpr (by decide)

theorem visible_of_numerical {c : Char} (numerical : Script.Scan.Numerical c) : Visible c := by
  rcases numerical with digit | mark
  · obtain ⟨low, high⟩ := Char.isDigit_iff_toNat.mp digit
    exact ⟨Nat.lt_of_lt_of_le (by decide) low, Nat.lt_of_le_of_lt high (by decide)⟩
  · simp only [List.mem_cons, List.not_mem_nil, or_false] at mark
    rcases mark with rfl | rfl | rfl | rfl | rfl <;> decide

theorem IsDecimal.visible {text : List Char} (decimal : IsDecimal text) : ∀ c ∈ text, Visible c := by
  obtain ⟨n, found⟩ := numeral?_of_isDecimal decimal
  have whole : spanNumeral? text = some (n, []) := by
    unfold numeral? at found
    split at found
    · next read => rw [read, Option.some.inj found]
    · cases found
  obtain ⟨used, -, spans⟩ := Script.Scan.spanNumeral?_spans whole
  rw [spans.split, List.append_nil]
  exact fun c member => visible_of_numerical (spans.numerical c member)

theorem IsSigned.visible {text : List Char} (signed : IsSigned text) : ∀ c ∈ text, Visible c := by
  cases signed with
  | infinite isSign => exact List.forall_mem_append.mpr ⟨isSign.visible, visible_infinity⟩
  | decimal isSign decimal => exact List.forall_mem_append.mpr ⟨isSign.visible, decimal.visible⟩

theorem IsDecimal.ne_nil {text : List Char} (decimal : IsDecimal text) : text ≠ [] := by
  rintro rfl
  have none := numeral?_isSome_iff.mpr decimal
  cases none

end StrategyQubo.Number

namespace StrategyQubo.Script

open Number

/-! ## Conversion of a front -/

theorem trim_of_visible {text : List Char} (visible : ∀ c ∈ text, Visible c) :
    Text.trimEnd (Text.trimStart text) = text := by
  have solid : ∀ c ∈ text, Text.isBlank c = false := fun c member =>
    Scan.isBlank_of_ascii (visible c member).1 (visible c member).2
  have kept {text : List Char} (solid : ∀ c ∈ text, Text.isBlank c = false) :
      text.dropWhile Text.isBlank = text := by
    cases text with
    | nil => rfl
    | cons c rest => rw [List.dropWhile_cons_of_neg (by rw [solid c List.mem_cons_self]; decide)]
  unfold Text.trimEnd Text.trimStart
  rw [kept solid, kept fun c member => solid c (List.mem_reverse.mp member), List.reverse_reverse]

section

variable {sign body : List Char} {negative : Bool} {width : Nat} (isSign : IsSign sign)
  (cut : spanSign (sign ++ body) = (negative, width, body))

include isSign cut

theorem textToNumber_infinite (infinite : body = "Infinity".toList) :
    textToNumber (String.ofList (sign ++ body)) =
      if negative then -infinity else infinity := by
  have visible : ∀ c ∈ sign ++ body, Visible c :=
    List.forall_mem_append.mpr ⟨isSign.visible, infinite ▸ visible_infinity⟩
  have filled : (sign ++ body).isEmpty = false := by
    rw [infinite]
    cases sign <;> rfl
  unfold textToNumber
  rw [String.toList_ofList, trim_of_visible visible]
  simp only [cut, filled, if_pos infinite, Bool.false_eq_true, if_false]

theorem textToNumber_decimal (decimal : IsDecimal body) {n : Numeral}
    (found : numeral? body = some n) :
    textToNumber (String.ofList (sign ++ body)) = if negative then -n.toFloat else n.toFloat := by
  have visible : ∀ c ∈ sign ++ body, Visible c :=
    List.forall_mem_append.mpr ⟨isSign.visible, decimal.visible⟩
  have filled : (sign ++ body).isEmpty = false := by
    rw [Bool.eq_false_iff]
    simp [decimal.ne_nil]
  have finite : body ≠ "Infinity".toList := by
    rintro rfl
    cases found
  unfold textToNumber
  rw [String.toList_ofList, trim_of_visible visible]
  simp only [cut, filled, Bool.false_eq_true, if_false, if_neg finite]
  split
  · next digits => exact absurd decimal (not_isDecimal_prefixed (.inl rfl) digits)
  · next digits => exact absurd decimal (not_isDecimal_prefixed (.inr rfl) digits)
  · rw [found]

end

/-! ## The front that is read -/

theorem infinity_bare (rest : List Char) :
    ∀ c ∈ ("Infinity".toList ++ rest).head?, c ≠ '-' ∧ c ≠ '+' := by
  rintro c ⟨⟩
  decide

theorem isDecimal_bare {text : List Char} (decimal : IsDecimal text) (rest : List Char) :
    ∀ c ∈ (text ++ rest).head?, c ≠ '-' ∧ c ≠ '+' := by
  rw [List.head?_append_of_ne_nil _ decimal.ne_nil]
  exact decimal.bare

/-- No decimal literal begins as infinity does. -/
theorem not_isDecimal_of_infinity {text literal : List Char} (infinite : "Infinity".toList <+: text)
    (begins : literal <+: text) : ¬ IsDecimal literal := by
  intro decimal
  obtain ⟨n, rest, found, -⟩ := length_le_spanNumeral? begins decimal
  obtain ⟨more, rfl⟩ := infinite
  cases found

/-- What a signed number at the front is, behind the sign that is cut off. -/
theorem signed_front {trimmed sign unsigned front : List Char} (isSign : IsSign sign)
    (split : trimmed = sign ++ unsigned) (cut : (spanSign trimmed).2.2 = unsigned)
    (begins : front <+: trimmed) (signed : IsSigned front) :
    ∃ body, front = sign ++ body ∧ body <+: unsigned ∧
      (body = "Infinity".toList ∨ IsDecimal body) := by
  obtain ⟨rest, whole⟩ := begins
  have behind {sign' body : List Char} (isSign' : IsSign sign') (same : front = sign' ++ body)
      (bare : ∀ c ∈ (body ++ rest).head?, c ≠ '-' ∧ c ≠ '+') :
      front = sign ++ body ∧ body <+: unsigned := by
    rw [same, List.append_assoc] at whole
    have left : unsigned = body ++ rest := by
      rw [← cut, ← whole, spanSign_append_sign isSign' bare]
    rw [split, left] at whole
    obtain rfl := List.append_cancel_right whole
    exact ⟨same, rest, left.symm⟩
  cases signed with
  | infinite isSign' =>
      obtain ⟨same, within⟩ := behind isSign' rfl (infinity_bare rest)
      exact ⟨_, same, within, .inl rfl⟩
  | decimal isSign' decimal =>
      obtain ⟨same, within⟩ := behind isSign' rfl (isDecimal_bare decimal rest)
      exact ⟨_, same, within, .inr decimal⟩

/-- A number is the longest one when it is so behind the sign. -/
theorem isLongest_signed {trimmed sign unsigned body : List Char} (isSign : IsSign sign)
    (split : trimmed = sign ++ unsigned) (cut : (spanSign trimmed).2.2 = unsigned)
    (begins : body <+: unsigned) (signed : IsSigned (sign ++ body))
    (longest : ∀ other, other <+: unsigned → other = "Infinity".toList ∨ IsDecimal other →
      other.length ≤ body.length) : IsLongest IsSigned trimmed (sign ++ body) where
  begins := split ▸ (List.prefix_append_right_inj sign).mpr begins
  good := signed
  longest other within signed := by
    obtain ⟨body', rfl, within, kind⟩ := signed_front isSign split cut within signed
    rw [List.length_append, List.length_append]
    exact Nat.add_le_add_left (longest body' within kind) _

/-- Behind visible characters a text is cut between two characters, though it is
    cut at a number of bytes. -/
def CutsBetween (text : List Char) : Prop :=
  ∀ front, front <+: text → (∀ c ∈ front, Visible c) →
    (⟨front.length⟩ : String.Pos.Raw).IsValid (String.ofList text)

theorem cutsBetween (text : List Char) : CutsBetween text := by
  rintro front ⟨rest, rfl⟩ visible
  have size : ∀ {front : List Char}, (∀ c ∈ front, Visible c) →
      (String.ofList front).utf8ByteSize = front.length := by
    intro front visible
    induction front with
    | nil => rfl
    | cons c front ih =>
        obtain ⟨⟨-, low⟩, later⟩ := List.forall_mem_cons.mp visible
        have one : c.utf8Size = 1 := Char.utf8Size_eq_one_iff.mpr (Nat.le_of_lt low)
        rw [← List.singleton_append, String.ofList_append, String.utf8ByteSize_append, ih later,
          ← String.singleton_eq_ofList, String.utf8ByteSize_singleton, one]
        exact Nat.add_comm ..
  refine String.Pos.Raw.isValid_iff_exists_append.mpr
    ⟨String.ofList front, String.ofList rest, String.ofList_append, ?_⟩
  rw [String.rawEndPos, size visible]

/-- The decimal number at the front of a text is what the longest front that is
    a number by itself stands for, which is a number.  If there is no such
    front, it is NaN.  The front is cut off between two characters. -/
theorem parseDecimal_longest (text : String) :
    ((∃ front, IsLongest IsSigned (Text.trimStart text.toList) front ∧ (∀ c ∈ front, Visible c) ∧
        parseDecimal text = textToNumber (String.ofList front) ∧
        (textToNumber (String.ofList front)).isNaN = false) ∨
      (∀ front, front <+: Text.trimStart text.toList → ¬ IsSigned front) ∧
        parseDecimal text = notANumber) ∧
      CutsBetween (Text.trimStart text.toList) := by
  refine ⟨?_, cutsBetween _⟩
  unfold parseDecimal
  generalize Text.trimStart text.toList = trimmed
  obtain ⟨sign, isSign, split, -, alone⟩ := spanSign_signed trimmed
  rcases parts : spanSign trimmed with ⟨negative, width, unsigned⟩
  have cut : (spanSign trimmed).2.2 = unsigned := by rw [parts]
  rw [parts] at split alone
  dsimp only at split alone ⊢
  by_cases infinite : "Infinity".toList <+: unsigned
  · rw [if_pos (List.isPrefixOf_iff_prefix.mpr infinite)]
    have read := textToNumber_infinite isSign (alone "Infinity".toList (infinity_bare [])) rfl
    refine .inl ⟨sign ++ "Infinity".toList, isLongest_signed isSign split cut infinite
      (.infinite isSign) ?_, IsSigned.visible (.infinite isSign), read.symm, ?_⟩
    · rintro other within (rfl | decimal)
      · exact Nat.le_refl _
      · exact absurd decimal (not_isDecimal_of_infinity infinite within)
    · rw [read]
      cases negative <;> decide +kernel
  · rw [if_neg (mt List.isPrefixOf_iff_prefix.mp infinite)]
    cases found : spanNumeral? unsigned with
    | some numeral =>
        obtain ⟨n, rest⟩ := numeral
        obtain ⟨used, left, wide, whole⟩ := spanNumeral?_alone found
        have decimal : IsDecimal used := numeral?_isSome_iff.mp (by rw [whole]; rfl)
        have read := textToNumber_decimal isSign (alone _ decimal.bare) decimal whole
        refine .inl ⟨sign ++ used, isLongest_signed isSign split cut (left ▸ List.prefix_append ..)
          (.decimal isSign decimal) ?_, IsSigned.visible (.decimal isSign decimal), read.symm, ?_⟩
        · rintro other within (rfl | shorter)
          · exact absurd within infinite
          · obtain ⟨_, _, found', bound⟩ := length_le_spanNumeral? within shorter
            cases found.symm.trans found'
            exact wide ▸ bound
        · have number : n.toFloat.isNaN = false := isNaN_nearest _ _
          rw [read]
          cases negative with
          | true => exact (isNaN_neg _).trans number
          | false => exact number
    | none =>
        refine .inr ⟨fun front begins signed => ?_, rfl⟩
        obtain ⟨body, rfl, within, rfl | decimal⟩ := signed_front isSign split cut begins signed
        · exact infinite within
        · obtain ⟨_, _, found', -⟩ := length_le_spanNumeral? within decimal
          cases found.symm.trans found'

/-- An exponent without digits is no part of the number. -/
example : parseDecimal " 1.5e+x" = textToNumber "1.5" := by decide +kernel

end StrategyQubo.Script
