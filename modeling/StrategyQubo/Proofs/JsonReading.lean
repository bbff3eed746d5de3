import Mathlib.Data.List.TakeWhile
import StrategyQubo.Json.Parse
import StrategyQubo.Proofs.QuotedTexts

namespace StrategyQubo

open StrategyQubo.Script

/-! # JSON texts that are read back

Whatever its texts and keys, a value that is written is read again, from the
compact form and from the one with line breaks.  Its numbers become what their
own texts are read as.
-/

namespace Json.Read

open Scan (escaped toList_quoted length_le_escaped)

variable {bound room : Nat} {rest : List Char}

/-! ## Strings -/

theorem codeUnit?_control {n : Nat} (control : n < 32) (rest : List Char) :
    codeUnit? ('0' :: '0' :: hexDigit (n / 16) :: hexDigit (n % 16) :: rest) = some (n, rest) := by
  have digits : ∀ n < 32, ['0', '0', hexDigit (n / 16), hexDigit (n % 16)].mapM
      Number.hexDigitValue? = some [0, 0, n / 16, n % 16] := by
    decide
  have value : n / 16 * 16 + n % 16 = n := by omega
  simp [codeUnit?, digits n control, value]

theorem stringBody?_plain {c : Char} (noQuote : c ≠ '\x22') (noEscape : c ≠ '\\')
    (visible : ¬ c.toNat < 32) (bound : Nat) (text : String) (rest : List Char) :
    stringBody? (bound + 1) (some text) (c :: rest) =
      stringBody? bound (some (text.push c)) rest := by
  rw [stringBody?, if_neg visible]
  · rfl
  · exact noQuote
  · exact noEscape

theorem stringBody?_control {c : Char} (control : c.toNat < 32) (bound : Nat) (text : String)
    (rest : List Char) :
    stringBody? (bound + 1) (some text)
        ('\\' :: 'u' :: '0' :: '0' :: hexDigit (c.toNat / 16) :: hexDigit (c.toNat % 16) :: rest) =
      stringBody? bound (some (text.push c)) rest := by
  have low : ¬ (0xD800 ≤ c.toNat ∧ c.toNat < 0xDC00) := by omega
  have high : ¬ (0xDC00 ≤ c.toNat ∧ c.toNat < 0xE000) := by omega
  simp only [stringBody?, escape?, codeUnit?_control control, if_neg low, if_neg high,
    Char.ofNat_toNat]
  rfl

theorem stringBody?_escapeChar (c : Char) (bound : Nat) (text : String) (rest : List Char) :
    stringBody? (bound + 1) (some text) ((escapeChar c).toList ++ rest) =
      stringBody? bound (some (text.push c)) rest := by
  unfold escapeChar
  split_ifs with quote backslash lineEnd lineStart tab back feed control
  · rw [quote]
    rfl
  · rw [backslash]
    rfl
  · rw [lineEnd]
    rfl
  · rw [lineStart]
    rfl
  · rw [tab]
    rfl
  · rw [back]
    rfl
  · rw [feed]
    rfl
  · rw [String.toList_append, String.toList_ofList, String.toList_ofList]
    exact stringBody?_control control bound text rest
  · have alone : c.toString.toList = [c] := by simp [Char.toString]
    rw [alone]
    exact stringBody?_plain quote backslash control bound text rest

theorem stringBody?_escaped {chars : List Char} (enough : chars.length < bound) (text : String)
    (rest : List Char) :
    stringBody? bound (some text) (escaped chars ++ '\x22' :: rest) =
      some (some (String.ofList (text.toList ++ chars)), rest) := by
  induction chars generalizing bound text with
  | nil =>
      obtain ⟨bound, rfl⟩ := Nat.exists_eq_add_one_of_ne_zero (Nat.ne_zero_of_lt enough)
      rw [List.append_nil, String.ofList_toList]
      rfl
  | cons c chars ih =>
      obtain ⟨bound, rfl⟩ := Nat.exists_eq_add_one_of_ne_zero (Nat.ne_zero_of_lt enough)
      have turned := stringBody?_escapeChar c bound text (escaped chars ++ '\x22' :: rest)
      rw [escaped, List.flatMap_cons, List.append_assoc]
      refine turned.trans ((ih (Nat.lt_of_succ_lt_succ enough) (text.push c)).trans ?_)
      rw [String.toList_push, List.append_assoc]
      rfl

/-- A quoted text behind its opening quote. -/
theorem stringBody?_quoted (text : String) (enough : (quoted text).toList.length ≤ bound)
    (rest : List Char) :
    stringBody? bound (some "") (escaped text.toList ++ '\x22' :: rest) =
      some (some text, rest) := by
  have room := length_le_escaped text.toList
  rw [toList_quoted] at enough
  simp only [List.length_cons, List.length_append] at enough
  rw [stringBody?_escaped (by omega) "" rest, String.toList_empty, List.nil_append,
    String.ofList_toList]

/-! ## Numbers -/

theorem whole_le {text after : List Char} {n : Number.Numeral}
    (cut : Number.spanNumeral? text = some (n, after)) : n.whole.length ≤ text.length := by
  unfold Number.spanNumeral? at cut
  rw [Option.ite_none_left_eq_some] at cut
  obtain ⟨-, same⟩ := cut
  cases same
  exact (List.takeWhile_sublist _).length_le

theorem point_append {text : List Char} {width : Nat} (within : width ≤ text.length)
    (breaks : Breaks rest) :
    ((text ++ rest).drop width).head?.any (· == '.') =
      (text.drop width).head?.any (· == '.') := by
  rw [List.drop_append_of_le_length within]
  cases text.drop width with
  | cons c more => rfl
  | nil =>
      cases rest with
      | nil => rfl
      | cons c more => simpa using (breaks c rfl).noPoint

theorem unsignedNumber?_append {text : List Char} {n : Number.Numeral} {plain : Bool}
    (found : unsignedNumber? text = some (n, plain, [])) (breaks : Breaks rest) :
    unsignedNumber? (text ++ rest) = some (n, plain, rest) := by
  unfold unsignedNumber? at found ⊢
  rw [Number.spanNumeral?_append breaks]
  cases cut : Number.spanNumeral? text with
  | none =>
      rw [cut] at found
      cases found
  | some span =>
      obtain ⟨numeral, after⟩ := span
      rw [cut] at found
      simp only [Option.map_some, point_append (whole_le cut) breaks,
        Option.ite_none_left_eq_some] at found ⊢
      obtain ⟨well, lead, same⟩ := found
      cases same
      rw [List.nil_append]
      refine ⟨?_, lead, rfl⟩
      -- What ends the text is no exponent mark that lacks its digits.
      split
      · exact absurd rfl ((breaks _ rfl).noLetter (by decide))
      · exact absurd rfl ((breaks _ rfl).noLetter (by decide))
      · exact well

/-- A number begins with a digit, maybe behind a minus sign. -/
theorem unsignedNumber?_begins {text : List Char} {n : Number.Numeral} {plain : Bool}
    (found : unsignedNumber? text = some (n, plain, rest)) :
    ∃ c more, text = c :: more ∧ c.isDigit = true := by
  cases text with
  | nil => cases found
  | cons c more =>
      refine ⟨c, more, rfl, ?_⟩
      by_contra digit
      have none : ∀ {numeral after}, Number.spanNumeral? (c :: more) = some (numeral, after) →
          numeral.whole = [] := by
        intro numeral after cut
        unfold Number.spanNumeral? at cut
        rw [Option.ite_none_left_eq_some] at cut
        obtain ⟨-, same⟩ := cut
        cases same
        exact List.takeWhile_cons_of_neg digit
      unfold unsignedNumber? at found
      cases cut : Number.spanNumeral? (c :: more) with
      | none =>
          rw [cut] at found
          cases found
      | some span =>
          rw [cut] at found
          simp [none cut] at found

/-- A minus sign, if there is one, and an unsigned number. -/
theorem number?_eq (text : List Char) : ∃ negative unsigned,
    (∀ rest, text ≠ [] → number? (text ++ rest) =
      (unsignedNumber? (unsigned ++ rest)).map fun (numeral, plain, rest) =>
        (numberValue negative plain numeral, rest)) ∧
    (text = '-' :: unsigned ∨ text = unsigned) := by
  cases text with
  | nil => exact ⟨false, [], fun rest filled => absurd rfl filled, .inr rfl⟩
  | cons c more =>
      by_cases minus : c = '-'
      · subst minus
        exact ⟨true, more, fun rest _ => rfl, .inl rfl⟩
      · refine ⟨false, c :: more, fun rest _ => ?_, .inr rfl⟩
        rw [List.cons_append]
        unfold number?
        split
        next negative unsigned sign =>
        split at sign
        · next same => exact absurd (List.cons.inj same).1 minus
        · cases sign
          rfl

theorem number?_begins {text : List Char} {value : Json}
    (found : number? text = some (value, rest)) :
    ∃ c more, text = c :: more ∧ (c = '-' ∨ c.isDigit = true) := by
  have filled : text ≠ [] := by
    rintro rfl
    cases found
  obtain ⟨negative, unsigned, read, signed⟩ := number?_eq text
  have whole := read [] filled
  rw [List.append_nil, List.append_nil, found] at whole
  obtain ⟨⟨numeral, plain, after⟩, cut, -⟩ := Option.map_eq_some_iff.mp whole.symm
  obtain rfl | rfl := signed
  · exact ⟨'-', unsigned, rfl, .inl rfl⟩
  · obtain ⟨c, more, same, digit⟩ := unsignedNumber?_begins cut
    exact ⟨c, more, same, .inr digit⟩

theorem number?_append {text : List Char} {value : Json} (found : number? text = some (value, []))
    (breaks : Breaks rest) : number? (text ++ rest) = some (value, rest) := by
  obtain ⟨c, more, same, -⟩ := number?_begins found
  have filled : text ≠ [] := by
    rw [same]
    exact List.cons_ne_nil c more
  obtain ⟨negative, unsigned, read, -⟩ := number?_eq text
  have whole := read [] filled
  rw [List.append_nil, List.append_nil, found] at whole
  obtain ⟨⟨numeral, plain, after⟩, cut, same⟩ := Option.map_eq_some_iff.mp whole.symm
  cases same
  rw [read rest filled, unsignedNumber?_append cut breaks]
  rfl

/-! ## Blanks -/

def Blanks (text : List Char) : Prop :=
  ∀ c ∈ text, isBlank c = true

theorem blanks_nil : Blanks [] := by
  rintro c ⟨⟩

theorem breaker_of_isBlank {c : Char} (blank : isBlank c = true) : Breaker c := by
  simp only [isBlank, Bool.or_eq_true, beq_iff_eq] at blank
  obtain ((rfl | rfl) | rfl) | rfl := blank
  · exact breaker_of_mem (by decide)
  · exact ⟨by decide, by decide, by decide, by decide⟩
  · exact ⟨by decide, by decide, by decide, by decide⟩
  · exact ⟨by decide, by decide, by decide, by decide⟩

theorem skipBlanks_append {blanks : List Char} (blank : Blanks blanks) (text : List Char) :
    skipBlanks (blanks ++ text) = skipBlanks text :=
  List.dropWhile_append_of_pos blank

theorem skipBlanks_cons {c : Char} (visible : isBlank c = false) (text : List Char) :
    skipBlanks (c :: text) = c :: text :=
  List.dropWhile_cons_of_neg (by simp [visible])

/-! ## What is taken off the front of a text -/

/-- The text is read as a value, whatever breaks it off.  It begins with no
    blank and closes no container. -/
structure Taken {α : Type} (read : Nat → Nat → List Char → Option (α × List Char))
    (text : List Char) (value : α) : Prop where
  begins : ∃ c more, text = c :: more ∧ isBlank c = false ∧ c ≠ ']' ∧ c ≠ '}'
  reads : ∀ {bound room rest}, text.length < bound → text.length ≤ room → Breaks rest →
    read bound room (text ++ rest) = some (value, rest)

/-- Blanks may stand before what is read. -/
def Spaced {α : Type} (read : Nat → Nat → List Char → Option (α × List Char))
    (text : List Char) (value : α) : Prop :=
  ∃ blanks body, text = blanks ++ body ∧ Blanks blanks ∧ Taken read body value

theorem Taken.spaced {α : Type} {read : Nat → Nat → List Char → Option (α × List Char)}
    {blanks body : List Char} {value : α} (taken : Taken read body value)
    (blank : Blanks blanks) : Spaced read (blanks ++ body) value :=
  ⟨blanks, body, rfl, blank, taken⟩

/-- Texts with a comma before each. -/
def later {α : Type} (pieces : List (List Char × α)) : List Char :=
  pieces.flatMap fun piece => ',' :: piece.1

/-- Texts with a comma between each two. -/
def joined {α : Type} : List (List Char × α) → List Char
  | [] => []
  | first :: rest => first.1 ++ later rest

section

variable {α : Type} {read : Nat → Nat → List Char → Option (α × List Char)} {text close : List Char}
  {value : α} {pieces : List (List Char × α)}

theorem Spaced.skips (spaced : Spaced read text value) (bound room : Nat)
    (short : text.length < bound) (fits : text.length ≤ room) (breaks : Breaks rest) :
    ∃ c more, skipBlanks (text ++ rest) = c :: more ∧ c ≠ ']' ∧ c ≠ '}' ∧
      read bound room (c :: more) = some (value, rest) := by
  obtain ⟨blanks, body, rfl, blank, ⟨c, more, rfl, visible, noBracket, noBrace⟩, reads⟩ := spaced
  rw [List.length_append] at short fits
  refine ⟨c, more ++ rest, ?_, noBracket, noBrace, reads (by omega) (by omega) breaks⟩
  rw [List.append_assoc, skipBlanks_append blank, List.cons_append, skipBlanks_cons visible]

theorem later_cons (piece : List Char × α) :
    later (piece :: pieces) = ',' :: (piece.1 ++ later pieces) := rfl

theorem length_le_length_later (pieces : List (List Char × α)) :
    pieces.length ≤ (later pieces).length := by
  induction pieces with
  | nil => exact Nat.zero_le _
  | cons piece rest ih =>
      rw [later_cons, List.length_cons, List.length_cons, List.length_append]
      omega

/-- Behind every item and field comes a comma, a blank or the closing mark. -/
theorem breaks_later {closer : Char} (closes : Breaker closer) (blank : Blanks close)
    (pieces : List (List Char × α)) (rest : List Char) :
    Breaks (later pieces ++ (close ++ closer :: rest)) := by
  cases pieces with
  | cons piece others => exact .cons (by decide) _
  | nil =>
      cases close with
      | nil =>
          rintro c ⟨⟩
          exact closes
      | cons c more =>
          rintro c ⟨⟩
          exact breaker_of_isBlank (blank c List.mem_cons_self)

end

/-! ## Containers -/

/-- A container is read by a first turn and by later ones, until the closing
    mark. -/
structure Container {α : Type} (bound room : Nat)
    (read : Nat → Nat → List Char → Option (α × List Char)) (closer : Char)
    (made : List α → Json) (first : Reader) (loop : Nat → List α → Reader) : Prop where
  closes : closer = ']' ∨ closer = '}'
  empty : ∀ {text rest}, skipBlanks text = closer :: rest → first text = some (made [], rest)
  starts : ∀ {text c more value rest}, skipBlanks text = c :: more → c ≠ closer →
    read bound room (c :: more) = some (value, rest) → first text = loop bound [value] rest
  done : ∀ {turns found text rest}, skipBlanks text = closer :: rest →
    loop (turns + 1) found text = some (made found.reverse, rest)
  goesOn : ∀ {turns found text more value rest}, skipBlanks text = ',' :: more →
    read bound room (skipBlanks more) = some (value, rest) →
      loop (turns + 1) found text = loop turns (value :: found) rest

section

variable {α : Type} {read : Nat → Nat → List Char → Option (α × List Char)} {closer : Char}
  {made : List α → Json} {first : Reader} {loop : Nat → List α → Reader}
  {pieces : List (List Char × α)} {close : List Char}

theorem Container.breaker (container : Container bound room read closer made first loop) :
    Breaker closer := by
  obtain rfl | rfl := container.closes
  · exact breaker_of_mem (by decide)
  · exact breaker_of_mem (by decide)

theorem Container.skipBlanks_closer (container : Container bound room read closer made first loop)
    (blank : Blanks close) (rest : List Char) :
    skipBlanks (close ++ closer :: rest) = closer :: rest := by
  rw [skipBlanks_append blank]
  obtain rfl | rfl := container.closes
  · exact skipBlanks_cons rfl rest
  · exact skipBlanks_cons rfl rest

/-- Every turn reads a piece, so a turn more than there are pieces suffices. -/
theorem Container.loop_eq (container : Container bound room read closer made first loop)
    (spaced : ∀ piece ∈ pieces, Spaced read piece.1 piece.2) (blank : Blanks close)
    (short : (later pieces).length ≤ bound) (fits : (later pieces).length ≤ room) {turns : Nat}
    (enough : pieces.length < turns) (found : List α) (rest : List Char) :
    loop turns found (later pieces ++ (close ++ closer :: rest)) =
      some (made (found.reverse ++ pieces.map (·.2)), rest) := by
  obtain ⟨turns, rfl⟩ := Nat.exists_eq_add_one_of_ne_zero (Nat.ne_zero_of_lt enough)
  induction pieces generalizing turns found with
  | nil =>
      rw [List.map_nil, List.append_nil]
      exact container.done (container.skipBlanks_closer blank rest)
  | cons piece others ih =>
      obtain ⟨own, spaced⟩ := List.forall_mem_cons.mp spaced
      obtain ⟨turns, rfl⟩ := Nat.exists_eq_add_one_of_ne_zero (n := turns) (by
        rintro rfl
        simp at enough)
      rw [later_cons, List.length_cons, List.length_append] at short fits
      obtain ⟨c, more, skipped, -, -, reads⟩ := own.skips bound room (by omega) (by omega)
        (breaks_later container.breaker blank others rest)
      rw [← skipped] at reads
      have comma : skipBlanks (later (piece :: others) ++ (close ++ closer :: rest)) =
          ',' :: (piece.1 ++ (later others ++ (close ++ closer :: rest))) := by
        rw [later_cons, List.cons_append, List.append_assoc]
        exact skipBlanks_cons rfl _
      rw [container.goesOn comma reads, ih spaced (by omega) (by omega) (piece.2 :: found) turns
        (Nat.lt_of_succ_lt_succ enough), List.reverse_cons, List.append_assoc]
      rfl

theorem Container.first_eq (container : Container bound room read closer made first loop)
    (spaced : ∀ piece ∈ pieces, Spaced read piece.1 piece.2) (blank : Blanks close)
    (short : (joined pieces).length < bound) (fits : (joined pieces).length ≤ room)
    (rest : List Char) :
    first (joined pieces ++ (close ++ closer :: rest)) =
      some (made (pieces.map (·.2)), rest) := by
  cases pieces with
  | nil => exact container.empty (container.skipBlanks_closer blank rest)
  | cons piece others =>
      obtain ⟨own, spaced⟩ := List.forall_mem_cons.mp spaced
      have few := length_le_length_later others
      rw [joined, List.length_append] at short fits
      obtain ⟨c, more, skipped, noBracket, noBrace, reads⟩ :=
        own.skips bound room (by omega) (by omega)
          (breaks_later container.breaker blank others rest)
      have opens : c ≠ closer := by
        obtain rfl | rfl := container.closes
        · exact noBracket
        · exact noBrace
      rw [joined, List.append_assoc, container.starts skipped opens reads,
        container.loop_eq spaced blank (by omega) (by omega) (by omega)]
      rfl

end

def fieldOf? (bound room : Nat) (text : List Char) :
    Option ((Option String × Json) × List Char) :=
  field? (value? bound room) bound text

theorem container_items (bound room : Nat) :
    Container bound room value? ']' array (items? (value? bound room) bound)
      (laterItems? (value? bound room)) where
  closes := .inl rfl
  empty := by
    intro text rest skipped
    rw [items?, skipped]
    rfl
  starts := by
    intro text c more value rest skipped opens reads
    rw [items?, skipped]
    split
    · next same => exact absurd (List.cons.inj same).1 opens
    · rw [reads]
  done := by
    intro turns found text rest skipped
    rw [laterItems?, skipped]
    rfl
  goesOn := by
    intro turns found text more value rest skipped reads
    rw [laterItems?, skipped]
    simp only [reads]

theorem container_fields (bound room : Nat) :
    Container bound room fieldOf? '}' object (fields? (value? bound room) bound)
      (laterFields? (value? bound room) bound) where
  closes := .inr rfl
  empty := by
    intro text rest skipped
    rw [fields?, skipped]
    rfl
  starts := by
    intro text c more value rest skipped opens reads
    rw [fieldOf?] at reads
    rw [fields?, skipped]
    split
    · next same => exact absurd (List.cons.inj same).1 opens
    · rw [reads]
  done := by
    intro turns found text rest skipped
    rw [laterFields?, skipped]
    rfl
  goesOn := by
    intro turns found text more value rest skipped reads
    rw [fieldOf?] at reads
    rw [laterFields?, skipped]
    simp only [reads]

/-! ## Values -/

/-- The text is read as the value. -/
abbrev Spells : List Char → Json → Prop :=
  Taken value?

theorem value?_eq (bound room : Nat) :
    ∃ openArray openObject, value? bound room = valueWith? bound openArray openObject := by
  cases room with
  | zero => exact ⟨_, _, rfl⟩
  | succ room => exact ⟨_, _, rfl⟩

theorem spells_word {word : List Char} {j : Json} {c : Char} {more : List Char}
    (begins : word = c :: more ∧ isBlank c = false ∧ c ≠ ']' ∧ c ≠ '}')
    (reads : ∀ bound openArray openObject rest,
      valueWith? bound openArray openObject (word ++ rest) = some (j, rest)) : Spells word j where
  begins := ⟨c, more, begins⟩
  reads := by
    intro bound room rest short fits breaks
    obtain ⟨openArray, openObject, same⟩ := value?_eq bound room
    rw [same, reads]

theorem spells_null : Spells "null".toList null :=
  spells_word ⟨rfl, rfl, by decide, by decide⟩ fun bound openArray openObject rest => rfl

theorem spells_true : Spells "true".toList (bool true) :=
  spells_word ⟨rfl, rfl, by decide, by decide⟩ fun bound openArray openObject rest => rfl

theorem spells_false : Spells "false".toList (bool false) :=
  spells_word ⟨rfl, rfl, by decide, by decide⟩ fun bound openArray openObject rest => rfl

theorem spells_quoted (text : String) : Spells (quoted text).toList (string text) where
  begins := ⟨'\x22', _, toList_quoted text, rfl, by decide, by decide⟩
  reads := by
    intro bound room rest short fits breaks
    obtain ⟨openArray, openObject, same⟩ := value?_eq bound room
    have body := stringBody?_quoted text (Nat.le_of_lt short) rest
    rw [same, toList_quoted, List.cons_append, List.append_assoc, List.singleton_append, valueWith?,
      body]

theorem valueWith?_number {c : Char} (lead : c = '-' ∨ c.isDigit = true)
    (openArray openObject : Reader) (text : List Char) :
    valueWith? bound openArray openObject (c :: text) = number? (c :: text) := by
  have other : ∀ {d : Char}, d ≠ '-' → d.isDigit = false → c ≠ d := by
    rintro d noSign noDigit rfl
    obtain rfl | digit := lead
    · exact noSign rfl
    · rw [digit] at noDigit
      cases noDigit
  unfold valueWith?
  split
  · next same => exact absurd (List.cons.inj same).1 (other (by decide) (by decide))
  · next same => exact absurd (List.cons.inj same).1 (other (by decide) (by decide))
  · next same => exact absurd (List.cons.inj same).1 (other (by decide) (by decide))
  · next same => exact absurd (List.cons.inj same).1 (other (by decide) (by decide))
  · next same => exact absurd (List.cons.inj same).1 (other (by decide) (by decide))
  · next same => exact absurd (List.cons.inj same).1 (other (by decide) (by decide))
  · rfl

theorem spells_number {text : List Char} {j : Json} (found : number? text = some (j, [])) :
    Spells text j := by
  obtain ⟨c, more, rfl, lead⟩ := number?_begins found
  refine ⟨⟨c, more, rfl, ?_⟩, ?_⟩
  · obtain rfl | digit := lead
    · exact ⟨rfl, by decide, by decide⟩
    · refine ⟨?_, ?_, ?_⟩
      · by_contra blank
        have none := (breaker_of_isBlank (Bool.not_eq_false _ ▸ blank)).noDigit
        rw [digit] at none
        cases none
      · rintro rfl
        cases digit
      · rintro rfl
        cases digit
  · intro bound room rest short fits breaks
    obtain ⟨openArray, openObject, same⟩ := value?_eq bound room
    rw [same, List.cons_append, valueWith?_number lead]
    exact number?_append found breaks

theorem spells_array {pieces : List (List Char × Json)} {close : List Char}
    (spaced : ∀ piece ∈ pieces, Spaced value? piece.1 piece.2) (blank : Blanks close) :
    Spells ('[' :: (joined pieces ++ (close ++ [']']))) (array (pieces.map (·.2))) where
  begins := ⟨'[', _, rfl, rfl, by decide, by decide⟩
  reads := by
    intro bound room rest short fits breaks
    simp only [List.length_cons, List.length_append, List.length_nil] at short fits
    obtain ⟨room, rfl⟩ := Nat.exists_eq_add_one_of_ne_zero (n := room) (by omega)
    have contents := (container_items bound room).first_eq spaced blank (by omega) (by omega) rest
    rw [List.cons_append, List.append_assoc, List.append_assoc, List.singleton_append]
    exact contents

theorem spells_object {pieces : List (List Char × (Option String × Json))} {close : List Char}
    (spaced : ∀ piece ∈ pieces, Spaced fieldOf? piece.1 piece.2) (blank : Blanks close) :
    Spells ('\x7b' :: (joined pieces ++ (close ++ ['\x7d']))) (object (pieces.map (·.2))) where
  begins := ⟨'\x7b', _, rfl, rfl, by decide, by decide⟩
  reads := by
    intro bound room rest short fits breaks
    simp only [List.length_cons, List.length_append, List.length_nil] at short fits
    obtain ⟨room, rfl⟩ := Nat.exists_eq_add_one_of_ne_zero (n := room) (by omega)
    have contents := (container_fields bound room).first_eq spaced blank (by omega) (by omega) rest
    rw [List.cons_append, List.append_assoc, List.append_assoc, List.singleton_append]
    exact contents

theorem taken_field (key : String) {text : List Char} {j : Json}
    (spaced : Spaced value? text j) :
    Taken fieldOf? ((quoted key).toList ++ ':' :: text) (some key, j) where
  begins := ⟨'\x22', _, by rw [toList_quoted]; rfl, rfl, by decide, by decide⟩
  reads := by
    intro bound room rest short fits breaks
    rw [List.length_append, List.length_cons] at short fits
    have body : stringBody? bound (some "") (escaped key.toList ++ '\x22' :: ':' :: (text ++ rest)) =
        some (some key, ':' :: (text ++ rest)) := stringBody?_quoted key (by omega) _
    obtain ⟨c, more, skipped, -, -, reads⟩ :=
      spaced.skips bound room (by omega) (by omega) breaks
    have whole : (quoted key).toList ++ ':' :: text ++ rest =
        '\x22' :: (escaped key.toList ++ '\x22' :: ':' :: (text ++ rest)) := by
      simp [toList_quoted]
    have colon : skipBlanks (':' :: (text ++ rest)) = ':' :: (text ++ rest) :=
      skipBlanks_cons rfl _
    rw [fieldOf?, whole, field?]
    simp only [body, colon, skipped, reads, Option.map_some]

end Json.Read

namespace Json

open Read

/-! ## Written values -/

/-- What a written value is read as: itself, but for its numbers. -/
inductive Heard : Json → Json → Prop where
  | null : Heard null null
  | bool (value : Bool) : Heard (bool value) (bool value)
  | integer {value : Int} {j : Json} :
      Read.number? (toString value).toList = some (j, []) → Heard (integer value) j
  | double {value : Float} {j : Json} :
      Read.number? (doubleText value).toList = some (j, []) → Heard (double value) j
  | string (text : String) : Heard (string text) (string text)
  | array {items : List (Json × Json)} :
      (∀ item ∈ items, Heard item.1 item.2) →
      Heard (array (items.map (·.1))) (array (items.map (·.2)))
  | record {fields : List (String × Json × Json)} :
      (∀ field ∈ fields, Heard field.2.1 field.2.2) →
      Heard (record (fields.map fun field => (field.1, field.2.1)))
        (record (fields.map fun field => (field.1, field.2.2)))

/-- How the forms put the texts of items together, and those of fields. -/
structure Commas {α : Type} (whole : List α → String) (piece : α → String) : Prop where
  nil : whole [] = ""
  single : ∀ item, whole [item] = piece item
  cons : ∀ item next rest, whole (item :: next :: rest) =
    piece item ++ "," ++ whole (next :: rest)

theorem Commas.toList_eq {α β : Type} {whole : List α → String} {piece : α → String}
    (commas : Commas whole piece) (value : α → β) (items : List α) :
    (whole items).toList = joined (items.map fun item => ((piece item).toList, value item)) := by
  cases items with
  | nil =>
      rw [commas.nil]
      rfl
  | cons first rest =>
      rw [List.map_cons, joined]
      induction rest generalizing first with
      | nil =>
          rw [commas.single]
          exact (List.append_nil _).symm
      | cons second rest ih =>
          rw [commas.cons, String.toList_append, String.toList_append, ih, List.append_assoc]
          rfl

theorem commas_compactItems :
    Commas (fun items : List (Json × Json) => compactItems (items.map (·.1)))
      (fun item => item.1.compact) :=
  ⟨rfl, fun _ => rfl, fun _ _ _ => rfl⟩

theorem commas_indentedItems (level : Nat) :
    Commas (fun items : List (Json × Json) => indentedItems level (items.map (·.1)))
      (fun item => lineBreak level ++ item.1.indented level) :=
  ⟨rfl, fun _ => rfl, fun _ _ _ => rfl⟩

/-- The fields as they are written. -/
def writtenFields (fields : List (String × Json × Json)) : List (Option String × Json) :=
  fields.map fun field => (some field.1, field.2.1)

theorem commas_compactFields :
    Commas (fun fields => compactFields (writtenFields fields))
      (fun field => quoted field.1 ++ ":" ++ field.2.1.compact) :=
  ⟨rfl, fun _ => rfl, fun _ _ _ => rfl⟩

theorem commas_indentedFields (level : Nat) :
    Commas (fun fields => indentedFields level (writtenFields fields))
      (fun field => lineBreak level ++ quoted field.1 ++ ": " ++ field.2.1.indented level) :=
  ⟨rfl, fun _ => rfl, fun _ _ _ => rfl⟩

theorem blanks_lineBreak (level : Nat) : Blanks (lineBreak level).toList := by
  intro c member
  rw [lineBreak, String.toList_append, String.toList_join] at member
  rcases List.mem_append.mp member with first | indent
  · rw [List.mem_singleton.mp first]
    rfl
  · obtain ⟨pair, found, among⟩ := List.mem_flatMap.mp indent
    rw [List.eq_of_mem_replicate found] at among
    rcases List.mem_cons.mp among with rfl | second
    · rfl
    · rw [List.mem_singleton.mp second]
      rfl

theorem spells_items {α : Type} {whole : List α → String} {piece : α → String}
    (commas : Commas whole piece) {value : α → Json} {items : List α} {close : List Char}
    (spaced : ∀ item ∈ items, Spaced value? (piece item).toList (value item))
    (blank : Blanks close) :
    Spells ('[' :: ((whole items).toList ++ (close ++ [']']))) (array (items.map value)) := by
  have pieces : ∀ part ∈ items.map fun item => ((piece item).toList, value item),
      Spaced value? part.1 part.2 := by
    intro part member
    obtain ⟨item, found, rfl⟩ := List.mem_map.mp member
    exact spaced item found
  have spelled := spells_array pieces blank
  rw [List.map_map] at spelled
  rw [commas.toList_eq value]
  exact spelled

theorem spells_fields {α : Type} {whole : List α → String} {piece : α → String}
    (commas : Commas whole piece) {value : α → Option String × Json} {fields : List α}
    {close : List Char}
    (spaced : ∀ field ∈ fields, Spaced fieldOf? (piece field).toList (value field))
    (blank : Blanks close) :
    Spells ('\x7b' :: ((whole fields).toList ++ (close ++ ['\x7d'])))
      (object (fields.map value)) := by
  have pieces : ∀ part ∈ fields.map fun field => ((piece field).toList, value field),
      Spaced fieldOf? part.1 part.2 := by
    intro part member
    obtain ⟨field, found, rfl⟩ := List.mem_map.mp member
    exact spaced field found
  have spelled := spells_object pieces blank
  rw [List.map_map] at spelled
  rw [commas.toList_eq value]
  exact spelled

theorem spells_noItems : Spells "[]".toList (array []) :=
  spells_array (List.forall_mem_nil _) blanks_nil

theorem spells_noFields : Spells "\x7b\x7d".toList (object []) :=
  spells_object (List.forall_mem_nil _) blanks_nil

/-! ## Both forms -/

variable {j j' : Json}

theorem record_map (fields : List (String × Json × Json)) :
    record (fields.map fun field => (field.1, field.2.1)) = object (writtenFields fields) := by
  rw [record, List.map_map]
  rfl

theorem record_heard (fields : List (String × Json × Json)) :
    record (fields.map fun field => (field.1, field.2.2)) =
      object (fields.map fun field => (some field.1, field.2.2)) := by
  rw [record, List.map_map]
  rfl

theorem Heard.compact (heard : Heard j j') : Spells j.compact.toList j' := by
  induction heard with
  | null => exact spells_null
  | bool value =>
      cases value with
      | false => exact spells_false
      | true => exact spells_true
  | integer found => exact spells_number found
  | double found => exact spells_number found
  | string text => exact spells_quoted text
  | @array items heard ih =>
      have spelled := spells_items commas_compactItems
        (fun item found => (ih item found).spaced blanks_nil) blanks_nil
      have text : (Json.array (items.map (·.1))).compact.toList =
          '[' :: ((compactItems (items.map (·.1))).toList ++ ([] ++ [']'])) := by
        rw [Json.compact]
        simp
      rw [text]
      exact spelled
  | @record fields heard ih =>
      have spaced : ∀ field ∈ fields, Spaced fieldOf?
          (quoted field.1 ++ ":" ++ field.2.1.compact).toList (some field.1, field.2.2) := by
        intro field found
        have taken := taken_field field.1 ((ih field found).spaced blanks_nil)
        simpa using taken.spaced blanks_nil
      have spelled := spells_fields commas_compactFields spaced blanks_nil
      have text : (object (writtenFields fields)).compact.toList =
          '\x7b' :: ((compactFields (writtenFields fields)).toList ++ ([] ++ ['\x7d'])) := by
        rw [Json.compact]
        simp
      rw [record_map, record_heard, text]
      exact spelled

theorem Heard.indented (heard : Heard j j') (level : Nat) :
    Spells (j.indented level).toList j' := by
  induction heard generalizing level with
  | null => exact spells_null
  | bool value =>
      cases value with
      | false => exact spells_false
      | true => exact spells_true
  | integer found => exact spells_number found
  | double found => exact spells_number found
  | string text => exact spells_quoted text
  | @array items heard ih =>
      have spaced : ∀ item ∈ items, Spaced value?
          (lineBreak (level + 1) ++ item.1.indented (level + 1)).toList item.2 := by
        intro item found
        rw [String.toList_append]
        exact (ih item found (level + 1)).spaced (blanks_lineBreak (level + 1))
      cases items with
      | nil => exact spells_noItems
      | cons first rest =>
          have spelled := spells_items (commas_indentedItems (level + 1)) spaced
            (blanks_lineBreak level)
          have text : ((Json.array ((first :: rest).map (·.1))).indented level).toList = '[' ::
              ((indentedItems (level + 1) ((first :: rest).map (·.1))).toList ++
                ((lineBreak level).toList ++ [']'])) := by
            rw [List.map_cons, Json.indented]
            · simp
            · exact fun none => List.cons_ne_nil _ _ none
          rw [text]
          exact spelled
  | @record fields heard ih =>
      have spaced : ∀ field ∈ fields, Spaced fieldOf?
          (lineBreak (level + 1) ++ quoted field.1 ++ ": " ++
            field.2.1.indented (level + 1)).toList (some field.1, field.2.2) := by
        intro field found
        have blank : Blanks [' '] := by
          intro c member
          rw [List.mem_singleton.mp member]
          rfl
        have taken := taken_field field.1 ((ih field found (level + 1)).spaced blank)
        simpa using taken.spaced (blanks_lineBreak (level + 1))
      rw [record_map, record_heard]
      cases fields with
      | nil => exact spells_noFields
      | cons first rest =>
          have spelled := spells_fields (commas_indentedFields (level + 1)) spaced
            (blanks_lineBreak level)
          have text : ((object (writtenFields (first :: rest))).indented level).toList = '\x7b' ::
              ((indentedFields (level + 1) (writtenFields (first :: rest))).toList ++
                ((lineBreak level).toList ++ ['\x7d'])) := by
            rw [Json.indented]
            · simp
            · exact fun none => List.cons_ne_nil _ _ none
          rw [text]
          exact spelled

theorem parse?_of_spells {text : String} (spells : Spells text.toList j) :
    parse? text = some j := by
  obtain ⟨c, more, begins, visible, -⟩ := spells.begins
  have trimmed : skipBlanks text.toList = text.toList := by
    rw [begins, skipBlanks_cons visible]
  have read := spells.reads (Nat.lt_succ_self _) (le_refl text.toList.length) .nil
  rw [List.append_nil] at read
  rw [parse?, parseWithin?, trimmed, ← String.length_toList, read]
  rfl

end Json

end StrategyQubo
