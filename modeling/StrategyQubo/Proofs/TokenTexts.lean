import StrategyQubo.Proofs.PlainNumbers
import StrategyQubo.Script.Token.Scan

namespace StrategyQubo

open StrategyQubo.Script

/-! # How written numbers, words and marks are cut -/

theorem StateT.bind_ok {σ ε α β : Type} {first : StateT σ (Except ε) α}
    {next : α → StateT σ (Except ε) β} {s s' : σ} {a : α} (ran : first s = .ok (a, s')) :
    (first >>= next) s = next a s' := by
  change (first s >>= fun after => next after.1 after.2) = _
  rw [ran]
  rfl

/-- What is answered in the end was answered on the way. -/
theorem StateT.exists_of_bind_ok {σ ε α β : Type} {first : StateT σ (Except ε) α}
    {next : α → StateT σ (Except ε) β} {s s'' : σ} {b : β}
    (ran : (first >>= next) s = .ok (b, s'')) :
    ∃ a s', first s = .ok (a, s') ∧ next a s' = .ok (b, s'') := by
  change (first s >>= fun after => next after.1 after.2) = _ at ran
  cases reached : first s with
  | error error =>
      rw [reached] at ran
      cases ran
  | ok after =>
      rw [reached] at ran
      exact ⟨after.1, after.2, rfl, ran⟩

theorem Script.Scan.continuesIdentifier_of_isAlpha {c : Char} (letter : c.isAlpha = true) :
    Scan.continuesIdentifier c = true := by
  simp [Scan.continuesIdentifier, Text.isLetterOrNumeral, Text.isLetter, letter]

/-- No number and no word goes on with the character. -/
structure Breaker (c : Char) : Prop where
  noDigit : c.isDigit = false
  noPoint : c ≠ '.'
  noSign : c ≠ '-' ∧ c ≠ '+'
  noWord : Scan.continuesIdentifier c = false

theorem breaker_of_mem {c : Char} (member : c ∈ [' ', '(', ')', ',', ';', ']', '}']) :
    Breaker c := by
  simp only [List.mem_cons, List.not_mem_nil, or_false] at member
  rcases member with rfl | rfl | rfl | rfl | rfl | rfl | rfl <;> constructor <;> decide

theorem Breaker.noLetter {c letter : Char} (breaker : Breaker c) (alpha : letter.isAlpha = true) :
    c ≠ letter := by
  rintro rfl
  exact Bool.false_ne_true
    (breaker.noWord.symm.trans (Scan.continuesIdentifier_of_isAlpha alpha))

theorem Breaker.startsIdentifier_eq {c : Char} (breaker : Breaker c) :
    Scan.startsIdentifier c = false := by
  have noWord := breaker.noWord
  simp only [Scan.continuesIdentifier, Text.isLetterOrNumeral, Bool.or_eq_false_iff] at noWord
  simp only [Scan.startsIdentifier, noWord, Bool.or_false]

/-- Nothing follows, or a character that breaks numbers and words off. -/
def Breaks (rest : List Char) : Prop :=
  ∀ c ∈ rest.head?, Breaker c

theorem Breaks.nil : Breaks [] := by
  rintro c ⟨⟩

theorem Breaks.cons {c : Char} (member : c ∈ [' ', '(', ')', ',', ';', ']', '}'])
    (more : List Char) : Breaks (c :: more) := by
  rintro d ⟨⟩
  exact breaker_of_mem member

theorem Breaks.takeWhile_append {rest : List Char} (breaks : Breaks rest) {keep : Char → Bool}
    (ends : ∀ c, Breaker c → keep c = false) (text : List Char) :
    (text ++ rest).takeWhile keep = text.takeWhile keep ∧
      (text ++ rest).dropWhile keep = text.dropWhile keep ++ rest := by
  induction text with
  | nil =>
      cases rest with
      | nil => exact ⟨rfl, rfl⟩
      | cons c more => simp [ends c (breaks c rfl)]
  | cons c text ih =>
      simp only [List.cons_append, List.takeWhile_cons, List.dropWhile_cons]
      split
      · exact ⟨by rw [ih.1], ih.2⟩
      · exact ⟨rfl, rfl⟩

namespace Number

variable {rest : List Char}

theorem spanDigits_append (breaks : Breaks rest) (text : List Char) :
    spanDigits (text ++ rest) = ((spanDigits text).1, (spanDigits text).2 ++ rest) := by
  obtain ⟨taken, left⟩ := breaks.takeWhile_append (fun c => Breaker.noDigit) text
  rw [spanDigits, taken, left]
  rfl

theorem spanSign_append (breaks : Breaks rest) (text : List Char) :
    spanSign (text ++ rest) =
      ((spanSign text).1, (spanSign text).2.1, (spanSign text).2.2 ++ rest) := by
  cases text with
  | nil =>
      cases rest with
      | nil => rfl
      | cons c more =>
          obtain ⟨noMinus, noPlus⟩ := (breaks c rfl).noSign
          simp [spanSign, noMinus, noPlus]
  | cons c text =>
      rw [List.cons_append]
      unfold spanSign
      split <;> simp_all

theorem spanExponent_append (breaks : Breaks rest) (text : List Char) :
    spanExponent (text ++ rest) =
      ((spanExponent text).1, (spanExponent text).2.1, (spanExponent text).2.2 ++ rest) := by
  cases text with
  | nil =>
      cases rest with
      | nil => rfl
      | cons c more =>
          have noMark : ¬ (c = 'e' ∨ c = 'E') := not_or.mpr
            ⟨(breaks c rfl).noLetter (by decide), (breaks c rfl).noLetter (by decide)⟩
          simp [spanExponent, noMark]
  | cons c text =>
      simp only [List.cons_append, spanExponent, spanSign_append breaks, spanDigits_append breaks]
      split
      · split <;> rfl
      · rfl

theorem spanNumeral?_append (breaks : Breaks rest) (text : List Char) :
    spanNumeral? (text ++ rest) =
      (spanNumeral? text).map fun (n, after) => (n, after ++ rest) := by
  unfold spanNumeral?
  rw [spanDigits_append breaks]
  cases spanDigits text with
  | mk whole left =>
      cases left with
      | nil =>
          have exponent := spanExponent_append breaks []
          cases rest with
          | nil => simp [spanExponent]
          | cons c more =>
              have noPoint := (breaks c rfl).noPoint
              rw [List.nil_append] at exponent
              cases empty : whole.isEmpty <;> simp [exponent, noPoint, empty]
      | cons c left =>
          by_cases point : c = '.'
          · subst point
            simp only [List.cons_append, spanDigits_append breaks, spanExponent_append breaks]
            split <;> rfl
          · have exponent := spanExponent_append breaks (c :: left)
            rw [List.cons_append] at exponent
            have other : ∀ tail more : List Char, c :: tail ≠ '.' :: more :=
              fun tail more same => point (List.cons.inj same).1
            cases empty : whole.isEmpty <;> simp [other, exponent, empty]

theorem spanNumeral?_of_numeral? {text : List Char} {n : Numeral}
    (found : numeral? text = some n) (breaks : Breaks rest) :
    spanNumeral? (text ++ rest) = some (n, rest) := by
  unfold numeral? at found
  split at found
  · next whole =>
    obtain rfl := Option.some.inj found
    rw [spanNumeral?_append breaks, whole]
    rfl
  · cases found

theorem startsNumber_of_spanNumeral? {text after : List Char} {n : Numeral}
    (found : spanNumeral? text = some (n, after)) : Scan.startsNumber text = true := by
  cases text with
  | nil => cases found
  | cons c text =>
      cases digit : c.isDigit with
      | true =>
          have other : c ≠ '.' := by
            rintro rfl
            cases digit
          simp [Scan.startsNumber, other, digit]
      | false =>
          by_cases point : c = '.'
          · subst point
            cases text with
            | nil => cases found
            | cons d text =>
                cases behind : d.isDigit with
                | true => simpa [Scan.startsNumber] using behind
                | false => simp [spanNumeral?, spanDigits, behind] at found
          · simp [spanNumeral?, spanDigits, digit, point] at found

theorem not_hex_of_numeral? {text : List Char} {n : Numeral} (found : numeral? text = some n)
    (breaks : Breaks rest) (more : List Char) :
    text ++ rest ≠ '0' :: 'x' :: more ∧ text ++ rest ≠ '0' :: 'X' :: more := by
  suffices apart : ∀ mark, mark = 'x' ∨ mark = 'X' → text ++ rest ≠ '0' :: mark :: more from
    ⟨apart 'x' (.inl rfl), apart 'X' (.inr rfl)⟩
  intro mark letter same
  match text, found with
  | [], found => cases found
  | [c], found =>
      cases rest with
      | nil => cases same
      | cons d behind =>
          have second : d = mark := (List.cons.inj (List.cons.inj same).2).1
          rcases letter with rfl | rfl
          · exact (breaks d rfl).noLetter (by decide) second
          · exact (breaks d rfl).noLetter (by decide) second
  | c :: d :: text, found =>
      have zero : c = '0' := (List.cons.inj same).1
      have second : d = mark := (List.cons.inj (List.cons.inj same).2).1
      subst zero second
      rw [numeral?_prefixed letter text] at found
      cases found

end Number

namespace Script.Scan

/-! ## Single lexemes -/

variable {rest : List Char} {bound : Nat} {position : Position}

theorem decimalLiteral_eq {text : List Char} {n : Number.Numeral}
    (found : Number.numeral? text = some n) (breaks : Breaks rest) :
    ∃ position', decimalLiteral ⟨text ++ rest, position⟩ =
      .ok (.number n.toFloat, ⟨rest, position'⟩) := by
  have looked : ahead ⟨text ++ rest, position⟩ = .ok (text ++ rest, ⟨text ++ rest, position⟩) := rfl
  refine ⟨⟨position.line, position.column + n.width⟩, ?_⟩
  unfold decimalLiteral
  rw [StateT.bind_ok looked, Number.spanNumeral?_of_numeral? found breaks]
  cases rest with
  | nil => rfl
  | cons c more =>
      have noName := (breaks c rfl).startsIdentifier_eq
      simp only [noName, if_neg Bool.false_ne_true]
      rfl

theorem match_of_not_hex {α : Type} (text : List Char) (lower upper other : α) :
    (∀ more, text ≠ '0' :: 'x' :: more ∧ text ≠ '0' :: 'X' :: more) →
      (match text with
        | '0' :: 'x' :: _ => lower
        | '0' :: 'X' :: _ => upper
        | _ => other) = other := by
  intro apart
  split
  · exact absurd rfl (apart _).1
  · exact absurd rfl (apart _).2
  · rfl

theorem numberLiteral_eq {text : List Char}
    (apart : ∀ more, text ≠ '0' :: 'x' :: more ∧ text ≠ '0' :: 'X' :: more) :
    numberLiteral ⟨text, position⟩ = decimalLiteral ⟨text, position⟩ := by
  have looked : ahead ⟨text, position⟩ = .ok (text, ⟨text, position⟩) := rfl
  unfold numberLiteral
  rw [StateT.bind_ok looked]
  exact congrFun (match_of_not_hex text _ _ _ apart) _

theorem lexeme_number {text : List Char} {n : Number.Numeral}
    (found : Number.numeral? text = some n) (breaks : Breaks rest) (c : Char) :
    ∃ position', lexeme bound c ⟨text ++ rest, position⟩ =
      .ok (.number n.toFloat, ⟨rest, position'⟩) := by
  have looked : ahead ⟨text ++ rest, position⟩ = .ok (text ++ rest, ⟨text ++ rest, position⟩) := rfl
  have starts := Number.startsNumber_of_spanNumeral? (Number.spanNumeral?_of_numeral? found breaks)
  unfold lexeme
  rw [StateT.bind_ok looked, if_pos starts,
    numberLiteral_eq (Number.not_hex_of_numeral? found breaks)]
  exact decimalLiteral_eq found breaks

/-- What a word is cut into. -/
def wordOf (word : String) : Lexeme :=
  match Keyword.ofSpelling? word with
  | some keyword => .keyword keyword
  | none => .identifier word

/-- The character begins neither a number nor a string. -/
structure Unquoted (c : Char) : Prop where
  noDigit : c.isDigit = false
  noPoint : c ≠ '.'
  noString : ¬ (c = '\x22' ∨ c = '\x27')
  noTemplate : c ≠ '\x60'

theorem isAlpha_bounds {c : Char} (letter : c.isAlpha = true) :
    65 ≤ c.toNat ∧ c.toNat ≤ 90 ∨ 97 ≤ c.toNat ∧ c.toNat ≤ 122 := by
  unfold Char.isAlpha Char.isUpper Char.isLower at letter
  simp only [Bool.or_eq_true, Bool.and_eq_true, decide_eq_true_eq, ge_iff_le,
    UInt32.le_iff_toNat_le] at letter
  exact letter

theorem unquoted_of_isAlpha {c : Char} (letter : c.isAlpha = true) : Unquoted c := by
  refine ⟨?_, ?_, ?_, ?_⟩
  · refine Bool.eq_false_iff.mpr fun digit => ?_
    have bounds := isAlpha_bounds letter
    obtain ⟨-, high⟩ := Char.isDigit_iff_toNat.mp digit
    have : c.toNat ≤ 57 := high
    omega
  · rintro rfl
    cases letter
  · rintro (rfl | rfl) <;> cases letter
  · rintro rfl
    cases letter

/-- Marks of one character, with their characters. -/
def plainMarks : List (Char × Mark) :=
  [('+', .plus), ('-', .minus), ('*', .star), ('(', .openParen), (')', .closeParen),
    (',', .comma), (':', .colon), (';', .semicolon), ('[', .openBracket), (']', .closeBracket),
    ('\x7b', .openBrace), ('\x7d', .closeBrace)]

theorem plainMarks_plain {c : Char} {mark : Mark} (plain : (c, mark) ∈ plainMarks) :
    Unquoted c ∧ startsIdentifier c = false ∧ mark.spelling.toList = [c] ∧
      32 < c.toNat ∧ c.toNat < 127 ∧ c ≠ '/' := by
  simp only [plainMarks, List.mem_cons, Prod.mk.injEq, List.not_mem_nil, or_false] at plain
  rcases plain with ⟨rfl, rfl⟩ | ⟨rfl, rfl⟩ | ⟨rfl, rfl⟩ | ⟨rfl, rfl⟩ | ⟨rfl, rfl⟩ | ⟨rfl, rfl⟩ |
      ⟨rfl, rfl⟩ | ⟨rfl, rfl⟩ | ⟨rfl, rfl⟩ | ⟨rfl, rfl⟩ | ⟨rfl, rfl⟩ | ⟨rfl, rfl⟩ <;>
    exact ⟨⟨by decide, by decide, by decide, by decide⟩, by decide, by decide, by decide,
      by decide, by decide⟩

theorem lexeme_unquoted {c : Char} (unquoted : Unquoted c) (text : List Char) :
    lexeme bound c ⟨c :: text, position⟩ =
      if startsIdentifier c then wordLexeme ⟨c :: text, position⟩
      else markLexeme ⟨c :: text, position⟩ := by
  obtain ⟨digit, point, quote, template⟩ := unquoted
  have looked : ahead ⟨c :: text, position⟩ = .ok (c :: text, ⟨c :: text, position⟩) := rfl
  have noNumber : ¬ startsNumber (c :: text) = true := by
    simp [startsNumber, digit, point]
  unfold lexeme
  rw [StateT.bind_ok looked, if_neg noNumber, if_neg quote, if_neg template]
  split <;> rfl

theorem lexeme_word {c : Char} {word : List Char} (letter : c.isAlpha = true)
    (continues : ∀ d ∈ word, continuesIdentifier d = true) (breaks : Breaks rest) :
    ∃ position', lexeme bound c ⟨c :: word ++ rest, position⟩ =
      .ok (wordOf (String.ofList (c :: word)), ⟨rest, position'⟩) := by
  have whole : ∀ d ∈ c :: word, continuesIdentifier d = true :=
    List.forall_mem_cons.mpr ⟨continuesIdentifier_of_isAlpha letter, continues⟩
  have starts : startsIdentifier c = true := by
    simp [startsIdentifier, Text.isLetter, letter]
  obtain ⟨taken, left⟩ := breaks.takeWhile_append (fun _ => Breaker.noWord) (c :: word)
  rw [List.takeWhile_eq_self_iff.mpr whole] at taken
  rw [List.dropWhile_eq_nil_iff.mpr whole] at left
  refine ⟨position.after (c :: word), ?_⟩
  have run : Scan.takeWhile continuesIdentifier ⟨c :: word ++ rest, position⟩ =
      .ok (c :: word, ⟨rest, position.after (c :: word)⟩) := by
    unfold Scan.takeWhile
    rw [taken, left]
    rfl
  refine (lexeme_unquoted (unquoted_of_isAlpha letter) _).trans ?_
  rw [if_pos starts]
  unfold wordLexeme wordOf
  refine (StateT.bind_ok run).trans ?_
  cases Keyword.ofSpelling? (String.ofList (c :: word)) <;> rfl

theorem lexeme_mark {c : Char} {mark : Mark} (plain : (c, mark) ∈ plainMarks)
    (found : markAt? (c :: rest) = some mark) :
    ∃ position', lexeme bound c ⟨c :: rest, position⟩ =
      .ok (.mark mark, ⟨rest, position'⟩) := by
  obtain ⟨unquoted, noWord, single, -⟩ := plainMarks_plain plain
  have looked : ahead ⟨c :: rest, position⟩ = .ok (c :: rest, ⟨c :: rest, position⟩) := rfl
  have width : mark.spelling.length = 1 := by
    rw [← String.length_toList, single]
    rfl
  refine ⟨position.after mark.spelling.toList, ?_⟩
  rw [lexeme_unquoted unquoted, noWord, if_neg Bool.false_ne_true]
  unfold markLexeme
  rw [StateT.bind_ok looked, found]
  change Except.ok (Lexeme.mark mark,
    (⟨(c :: rest).drop mark.spelling.length, position.after mark.spelling.toList⟩ : Source)) = _
  rw [width]
  rfl

theorem ofSpelling?_name (digits : List Char) :
    Keyword.ofSpelling? (String.ofList ('x' :: digits)) = none := by
  have heads : ∀ word ∈ Keyword.all, word.spelling.toList.head? ≠ some 'x' := by decide
  refine List.find?_eq_none.mpr fun word member same => heads word member ?_
  rw [beq_iff_eq.mp same, String.toList_ofList]
  rfl

/-! ## Blanks -/

/-- The text does not begin with a blank or a comment. -/
def Solid (text : List Char) : Prop :=
  ∀ c ∈ text.head?, Text.isBlank c = false ∧ c ≠ '/'

theorem match_of_no_comment {α : Type} (c : Char) (text : List Char) (line block stop : α)
    (other : Char → α) :
    c ≠ '/' →
      (match c :: text with
        | '/' :: '/' :: _ => line
        | '/' :: '*' :: _ => block
        | c :: _ => other c
        | [] => stop) = other c := by
  intro plain
  split
  · next same => exact absurd (List.cons.inj same).1 plain
  · next same => exact absurd (List.cons.inj same).1 plain
  · next same => rw [(List.cons.inj same).1]
  · next same => cases same

theorem skipTrivia_cons {c : Char} (noComment : c ≠ '/') (text : List Char) (bound : Nat)
    (newline : Bool) :
    skipTrivia (bound + 1) newline ⟨c :: text, position⟩ =
      if Text.isBlank c then
        skipTrivia bound (newline || c == '\n') ⟨text, position.step c⟩
      else .ok (newline, ⟨c :: text, position⟩) := by
  have looked : ahead ⟨c :: text, position⟩ = .ok (c :: text, ⟨c :: text, position⟩) := rfl
  rw [skipTrivia, StateT.bind_ok looked]
  refine (congrFun (match_of_no_comment c text _ _ _ _ noComment) _).trans ?_
  split
  · rfl
  · rfl

theorem skipTrivia_solid {text : List Char} (solid : Solid text) (bound : Nat) (newline : Bool) :
    skipTrivia bound newline ⟨text, position⟩ = .ok (newline, ⟨text, position⟩) := by
  cases bound with
  | zero => rfl
  | succ bound =>
      cases text with
      | nil => rfl
      | cons c text =>
          obtain ⟨visible, noComment⟩ := solid c rfl
          rw [skipTrivia_cons noComment, if_neg (by simp [visible])]

/-- A blank before the text changes only places. -/
theorem tokens_blank {text : List Char} (solid : Solid text) (bound : Nat) (found : List Token) :
    tokens (bound + 1) found ⟨' ' :: text, position⟩ =
      tokens (bound + 1) found ⟨text, position.step ' '⟩ := by
  have blank : Text.isBlank ' ' = true := by
    simp [Text.isBlank, Text.inRanges, Text.blankRanges]
  have skipped : skipTrivia (bound + 1) false ⟨' ' :: text, position⟩ =
      .ok (false, ⟨text, position.step ' '⟩) := by
    rw [skipTrivia_cons (by decide), if_pos blank]
    exact skipTrivia_solid solid bound false
  unfold tokens
  rw [StateT.bind_ok skipped, StateT.bind_ok (skipTrivia_solid solid _ false)]

theorem isBlank_of_ascii {c : Char} (low : 32 < c.toNat) (high : c.toNat < 127) :
    Text.isBlank c = false := by
  simp [Text.isBlank, Text.inRanges, Text.blankRanges]
  omega

theorem isBlank_of_isDigit {c : Char} (digit : c.isDigit = true) : Text.isBlank c = false := by
  obtain ⟨low, high⟩ := Char.isDigit_iff_toNat.mp digit
  exact isBlank_of_ascii (lt_of_lt_of_le (by decide) low) (lt_of_le_of_lt high (by decide))

theorem solid_of_startsNumber {text : List Char} (starts : startsNumber text = true) :
    Solid text := by
  cases text with
  | nil => cases starts
  | cons c more =>
      intro d first
      obtain rfl := Option.some.inj first
      by_cases point : c = '.'
      · subst point
        simp [Text.isBlank, Text.inRanges, Text.blankRanges]
      · have digit : c.isDigit = true := by simpa [startsNumber, point] using starts
        refine ⟨isBlank_of_isDigit digit, ?_⟩
        rintro rfl
        cases digit

theorem solid_cons {c : Char} (low : 32 < c.toNat) (high : c.toNat < 127) (noComment : c ≠ '/')
    (text : List Char) : Solid (c :: text) := by
  rintro d ⟨⟩
  exact ⟨isBlank_of_ascii low high, noComment⟩

theorem solid_letter {c : Char} (letter : c.isAlpha = true) (text : List Char) :
    Solid (c :: text) := by
  have bounds := isAlpha_bounds letter
  refine solid_cons (by omega) (by omega) ?_ text
  rintro rfl
  cases letter

theorem solid_mark {c : Char} {mark : Mark} (plain : (c, mark) ∈ plainMarks) (text : List Char) :
    Solid (c :: text) := by
  obtain ⟨-, -, -, low, high, noComment⟩ := plainMarks_plain plain
  exact solid_cons low high noComment text

/-! ## Whole texts -/

/-- The first lexeme of a text and what it leaves.  Some lexemes need as many
    turns as they have characters. -/
structure Begins (text : List Char) (read : Lexeme) (rest : List Char) : Prop where
  solid : Solid text
  shorter : rest.length < text.length
  cut : ∀ c ∈ text.head?, ∀ bound position, text.length < bound → ∃ position',
    lexeme bound c ⟨text, position⟩ = .ok (read, ⟨rest, position'⟩)

/-- Texts and the lexemes that they are cut into, the end mark last. -/
inductive Cuts : List Char → List Lexeme → Prop where
  | done : Cuts [] [.endOfInput]
  | blank {text : List Char} {lexemes : List Lexeme} :
      Solid text → Cuts text lexemes → Cuts (' ' :: text) lexemes
  | lexeme {text rest : List Char} {read : Lexeme} {lexemes : List Lexeme} :
      Begins text read rest → Cuts rest lexemes → Cuts text (read :: lexemes)

theorem Cuts.number {text : List Char} {n : Number.Numeral} {lexemes : List Lexeme}
    (found : Number.numeral? text = some n) (breaks : Breaks rest) (cuts : Cuts rest lexemes) :
    Cuts (text ++ rest) (.number n.toFloat :: lexemes) := by
  have starts := Number.startsNumber_of_spanNumeral? (Number.spanNumeral?_of_numeral? found breaks)
  have nonempty : text ≠ [] := by
    rintro rfl
    cases found
  refine .lexeme ⟨solid_of_startsNumber starts, ?_, ?_⟩ cuts
  · rw [List.length_append]
    have positive := List.length_pos_iff.mpr nonempty
    omega
  · exact fun c _ bound position _ => lexeme_number found breaks c

theorem Cuts.word {c : Char} {word : List Char} {lexemes : List Lexeme}
    (letter : c.isAlpha = true) (continues : ∀ d ∈ word, continuesIdentifier d = true)
    (breaks : Breaks rest) (cuts : Cuts rest lexemes) :
    Cuts (c :: word ++ rest) (wordOf (String.ofList (c :: word)) :: lexemes) := by
  refine .lexeme ⟨solid_letter letter _, ?_, ?_⟩ cuts
  · rw [List.length_append, List.length_cons]
    omega
  · rintro d ⟨⟩ bound position -
    exact lexeme_word letter continues breaks

theorem Cuts.name {digits : List Char} {lexemes : List Lexeme}
    (decimal : ∀ c ∈ digits, c.isDigit = true) (breaks : Breaks rest) (cuts : Cuts rest lexemes) :
    Cuts ('x' :: digits ++ rest) (.identifier (String.ofList ('x' :: digits)) :: lexemes) := by
  have continues : ∀ c ∈ digits, continuesIdentifier c = true := by
    intro c member
    simp [continuesIdentifier, Text.isLetterOrNumeral, Text.isNumeral, decimal c member]
  have cut := Cuts.word (c := 'x') (by decide) continues breaks cuts
  rwa [wordOf, ofSpelling?_name] at cut

theorem Cuts.mark {c : Char} {mark : Mark} (plain : (c, mark) ∈ plainMarks)
    (found : markAt? (c :: rest) = some mark) {lexemes : List Lexeme}
    (cuts : Cuts rest lexemes) : Cuts (c :: rest) (.mark mark :: lexemes) := by
  refine .lexeme ⟨solid_mark plain _, Nat.lt_succ_self _, ?_⟩ cuts
  rintro d ⟨⟩ bound position -
  exact lexeme_mark plain found

theorem tokens_step {c : Char} {text : List Char} {read : Lexeme} {position' : Position}
    (solid : Solid (c :: text)) (found : List Token)
    (cut : lexeme (bound + 1) c ⟨c :: text, position⟩ = .ok (read, ⟨rest, position'⟩)) :
    tokens (bound + 1) found ⟨c :: text, position⟩ =
      tokens bound (⟨read, position, false⟩ :: found) ⟨rest, position'⟩ := by
  have place : (get : Scan Source) ⟨c :: text, position⟩ =
      .ok (⟨c :: text, position⟩, ⟨c :: text, position⟩) := rfl
  rw [tokens, StateT.bind_ok (skipTrivia_solid solid _ false), StateT.bind_ok place]
  exact StateT.bind_ok cut

theorem tokens_done (bound : Nat) (found : List Token) :
    tokens (bound + 1) found ⟨[], position⟩ =
      .ok (found.reverse ++ [⟨.endOfInput, position, false⟩], ⟨[], position⟩) := by
  have solid : Solid [] := by
    rintro c ⟨⟩
  rw [tokens, StateT.bind_ok (skipTrivia_solid solid _ false), ← List.reverse_cons]
  rfl

/-- Every turn takes a character, so a bound above the length suffices.  No
    line ends between the tokens. -/
theorem Cuts.tokens_eq {text : List Char} {lexemes : List Lexeme} (cuts : Cuts text lexemes) :
    ∀ bound position found, text.length < bound → ∃ tokens s',
      Scan.tokens bound found ⟨text, position⟩ = .ok (found.reverse ++ tokens, s') ∧
        tokens.map Token.lexeme = lexemes ∧ ∀ token ∈ tokens, token.newlineBefore = false := by
  intro bound position found enough
  obtain ⟨bound, rfl⟩ := Nat.exists_eq_add_one_of_ne_zero (Nat.ne_zero_of_lt enough)
  induction cuts generalizing bound position found with
  | done => exact ⟨_, _, tokens_done bound found, rfl, by simp⟩
  | blank solid cuts ih =>
      rw [tokens_blank solid]
      exact ih _ _ _ (Nat.lt_of_succ_lt enough)
  | @lexeme text rest read lexemes begins cuts ih =>
      obtain ⟨solid, shorter, cut⟩ := begins
      cases text with
      | nil => cases shorter
      | cons c text =>
          obtain ⟨position', cut⟩ := cut c rfl (bound + 1) position enough
          have step := tokens_step solid found cut
          obtain ⟨bound, rfl⟩ := Nat.exists_eq_add_one_of_ne_zero (n := bound) (by omega)
          obtain ⟨later, s', finished, shape, inLine⟩ :=
            ih position' (⟨read, position, false⟩ :: found) bound (by omega)
          refine ⟨⟨read, position, false⟩ :: later, s', ?_, by simp [shape], ?_⟩
          · rw [step, finished]
            simp
          · exact List.forall_mem_cons.mpr ⟨rfl, inLine⟩

end Script.Scan

open Script.Scan in
theorem Script.tokenize_of_cuts {text : String} {lexemes : List Lexeme}
    (cuts : Cuts text.toList lexemes) :
    ∃ tokens, tokenize text = .ok tokens ∧ tokens.map Token.lexeme = lexemes ∧
      ∀ token ∈ tokens, token.newlineBefore = false := by
  obtain ⟨tokens, s', finished, shape, inLine⟩ :=
    cuts.tokens_eq (text.toList.length + 1) .start [] (Nat.lt_succ_self _)
  refine ⟨tokens, ?_, shape, inLine⟩
  rw [tokenize, tokenizeAt]
  change (Scan.tokens (text.toList.length + 1) [] ⟨text.toList, .start⟩ >>=
    fun ran => pure ran.1) = _
  rw [finished]
  rfl

end StrategyQubo
