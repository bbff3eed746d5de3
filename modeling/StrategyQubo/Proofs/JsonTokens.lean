import StrategyQubo.Proofs.QuotedTexts
import StrategyQubo.Proofs.WrittenSums

namespace StrategyQubo

open StrategyQubo.Script

/-! # JSON texts as source texts

A JSON text is also a text of the strategy language.  Its numbers have to be
numbers there; everything else is cut where it was put together.
-/

/-! ## Numbers with a sign -/

namespace Number

/-- An unsigned numeral to the end of the text, and whether a minus sign stands
    before it. -/
def signedNumeral? : List Char → Option (Bool × Numeral)
  | '-' :: digits => (numeral? digits).map fun n => (true, n)
  | text => (numeral? text).map fun n => (false, n)

/-- The number that the text is to a reader of the strategy language. -/
def literal? (text : String) : Option Float :=
  (signedNumeral? text.toList).map fun (negative, n) =>
    if negative then -n.toFloat else n.toFloat

def signedLexemes (negative : Bool) (n : Numeral) : List Lexeme :=
  if negative then [.mark .minus, .number n.toFloat] else [.number n.toFloat]

def signedTree (negative : Bool) (n : Numeral) : Expr :=
  if negative then .unary .negate (.number n.toFloat) else .number n.toFloat

theorem factor_of_signedNumeral? {text : List Char} {negative : Bool} {n : Numeral}
    (found : signedNumeral? text = some (negative, n)) :
    Factor text (signedLexemes negative n) (signedTree negative n) := by
  unfold signedNumeral? at found
  split at found
  · next digits =>
    obtain ⟨n', read, same⟩ := Option.map_eq_some_iff.mp found
    cases same
    exact .negative read
  · obtain ⟨n', read, same⟩ := Option.map_eq_some_iff.mp found
    cases same
    exact .operand (.number read)

end Number

namespace Json

/-! ## Readable values -/

/-- The numbers are numbers of the strategy language, no array is longer than
    the limit, and no object has a key twice. -/
inductive Readable (limit : Nat) : Json → Prop where
  | null : Readable limit null
  | bool (value : Bool) : Readable limit (bool value)
  | integer {value : Int} {negative : Bool} {n : Number.Numeral} :
      Number.signedNumeral? (toString value).toList = some (negative, n) →
      Readable limit (integer value)
  | double {value : Float} {negative : Bool} {n : Number.Numeral} :
      Number.signedNumeral? (doubleText value).toList = some (negative, n) →
      Readable limit (double value)
  | string (text : String) : Readable limit (string text)
  | array {items : List Json} :
      items.length ≤ limit → (∀ item ∈ items, Readable limit item) → Readable limit (array items)
  | record {fields : List (String × Json)} :
      (fields.map (·.1)).Nodup → (∀ field ∈ fields, Readable limit field.2) →
      Readable limit (record fields)

/-! ## Lexemes -/

def numberLexemes (text : String) : List Lexeme :=
  match Number.signedNumeral? text.toList with
  | some (negative, n) => Number.signedLexemes negative n
  | none => []

theorem numberLexemes_eq {text : String} {negative : Bool} {n : Number.Numeral}
    (read : Number.signedNumeral? text.toList = some (negative, n)) :
    numberLexemes text = Number.signedLexemes negative n := by
  rw [numberLexemes, read]

/-- Groups of lexemes with a comma between each two. -/
def separated : List (List Lexeme) → List Lexeme
  | [] => []
  | [group] => group
  | group :: next :: rest => group ++ .mark .comma :: separated (next :: rest)

mutual

/-- What the text of a readable value is cut into. -/
def lexemes : Json → List Lexeme
  | null => [.keyword .nullWord]
  | bool value => [.keyword (if value then .trueWord else .falseWord)]
  | integer value => numberLexemes (toString value)
  | double value => numberLexemes (doubleText value)
  | string text => [.string text]
  | array items => .mark .openBracket :: separated (itemLexemes items) ++ [.mark .closeBracket]
  | object fields => .mark .openBrace :: separated (fieldLexemes fields) ++ [.mark .closeBrace]
  | meaningless => [.keyword .nullWord]

def itemLexemes : List Json → List (List Lexeme)
  | [] => []
  | item :: rest => item.lexemes :: itemLexemes rest

def fieldLexemes : List (Option String × Json) → List (List Lexeme)
  | [] => []
  | (key, value) :: rest =>
      (.string (key.getD "") :: .mark .colon :: value.lexemes) :: fieldLexemes rest

end

/-! ## Cutting -/

open Scan

/-- Whatever follows that breaks numbers and words off, the text is cut into
    these lexemes. -/
def CutsOff (text : String) (lexemes : List Lexeme) : Prop :=
  ∀ rest later, Breaks rest → Cuts rest later → Cuts (text.toList ++ rest) (lexemes ++ later)

theorem cutsOff_number {text : String} {negative : Bool} {n : Number.Numeral}
    (read : Number.signedNumeral? text.toList = some (negative, n)) :
    CutsOff text (numberLexemes text) := by
  intro rest later breaks cuts
  rw [numberLexemes_eq read]
  exact (Number.factor_of_signedNumeral? read).cuts breaks cuts

theorem cutsOff_word (text : String) (nonempty : text.toList ≠ [])
    (letters : text.toList.all Char.isAlpha = true) : CutsOff text [wordOf text] := by
  intro rest later breaks cuts
  cases spelled : text.toList with
  | nil => exact absurd spelled nonempty
  | cons c word =>
      rw [spelled, List.all_cons, Bool.and_eq_true] at letters
      have continues : ∀ d ∈ word, continuesIdentifier d = true := fun d member =>
        continuesIdentifier_of_isAlpha (List.all_eq_true.mp letters.2 d member)
      rw [← String.ofList_toList (s := text), spelled]
      exact .word letters.1 continues breaks cuts

theorem cutsOff_quoted (text : String) : CutsOff (quoted text) [.string text] := by
  intro rest later breaks cuts
  exact .quoted text cuts

theorem CutsOff.comma {first second : String} {lexemes lexemes' : List Lexeme}
    (head : CutsOff first lexemes) (tail : CutsOff second lexemes') :
    CutsOff (first ++ "," ++ second) (lexemes ++ .mark .comma :: lexemes') := by
  intro rest later breaks cuts
  have behind := Cuts.mark (by decide : (',', Mark.comma) ∈ plainMarks) rfl
    (tail rest later breaks cuts)
  have cut := head _ _ (.cons (by decide) _) behind
  rw [String.toList_append, String.toList_append, List.append_assoc, List.append_assoc,
    List.append_assoc]
  exact cut

theorem CutsOff.entry {key text : String} {lexemes : List Lexeme} (value : CutsOff text lexemes) :
    CutsOff (quoted key ++ ":" ++ text) (.string key :: .mark .colon :: lexemes) := by
  intro rest later breaks cuts
  have behind := Cuts.mark (by decide : (':', Mark.colon) ∈ plainMarks) rfl
    (value rest later breaks cuts)
  rw [String.toList_append, String.toList_append, List.append_assoc, List.append_assoc]
  exact .quoted key behind

theorem cutsOff_items {items : List Json}
    (each : ∀ item ∈ items, CutsOff item.compact item.lexemes) :
    CutsOff (compactItems items) (separated (itemLexemes items)) := by
  induction items with
  | nil => exact fun rest later breaks cuts => cuts
  | cons item more ih =>
      obtain ⟨first, others⟩ := List.forall_mem_cons.mp each
      cases more with
      | nil => exact first
      | cons next more => exact first.comma (ih others)

theorem cutsOff_fields {fields : List (Option String × Json)}
    (each : ∀ field ∈ fields, CutsOff field.2.compact field.2.lexemes) :
    CutsOff (compactFields fields) (separated (fieldLexemes fields)) := by
  induction fields with
  | nil => exact fun rest later breaks cuts => cuts
  | cons field more ih =>
      obtain ⟨first, others⟩ := List.forall_mem_cons.mp each
      cases more with
      | nil => exact first.entry
      | cons next more => exact first.entry.comma (ih others)

/-- Brackets around a text. -/
theorem CutsOff.enclosed {text left right : String} {lexemes : List Lexeme}
    (inner : CutsOff text lexemes) {c d : Char} {opening closing : Mark}
    (before : left.toList = [c]) (behind : right.toList = [d])
    (opens : (c, opening) ∈ plainMarks) (closes : (d, closing) ∈ plainMarks)
    (breaker : Breaker d) (opened : ∀ text, markAt? (c :: text) = some opening)
    (closed : ∀ text, markAt? (d :: text) = some closing) :
    CutsOff (left ++ text ++ right) (.mark opening :: lexemes ++ [.mark closing]) := by
  intro rest later _ cuts
  have ended := Cuts.mark closes (closed rest) cuts
  have breaks : Breaks (d :: rest) := by
    intro e first
    rwa [← Option.some.inj first]
  have inside := inner _ _ breaks ended
  have cut := Cuts.mark opens (opened _) inside
  rw [String.toList_append, String.toList_append, before, behind]
  simpa using cut

theorem Readable.cuts {limit : Nat} {j : Json} (readable : j.Readable limit) :
    CutsOff j.compact j.lexemes := by
  induction readable with
  | null => exact cutsOff_word _ (by decide) (by decide)
  | bool value => cases value <;> exact cutsOff_word _ (by decide) (by decide)
  | integer read => exact cutsOff_number read
  | double read => exact cutsOff_number read
  | string text => exact cutsOff_quoted text
  | array _ _ ih =>
      rw [compact]
      exact (cutsOff_items ih).enclosed rfl rfl (by decide) (by decide)
        (breaker_of_mem (by decide)) (fun _ => rfl) (fun _ => rfl)
  | record _ _ ih =>
      rw [Json.record, compact]
      refine (cutsOff_fields ?_).enclosed rfl rfl (by decide) (by decide)
        (breaker_of_mem (by decide)) (fun _ => rfl) (fun _ => rfl)
      intro field member
      obtain ⟨entry, found, rfl⟩ := List.mem_map.mp member
      exact ih entry found

/-- The text begins with a lexeme, also when something stands before it. -/
theorem Readable.solid {limit : Nat} {j : Json} (readable : j.Readable limit) {rest : List Char}
    (breaks : Breaks rest) : Solid (j.compact.toList ++ rest) := by
  cases readable with
  | null => exact solid_letter (by decide) _
  | bool value => cases value <;> exact solid_letter (by decide) _
  | integer read => exact (Number.factor_of_signedNumeral? read).solid breaks
  | double read => exact (Number.factor_of_signedNumeral? read).solid breaks
  | string text =>
      rw [compact, quoted, String.toList_append, String.toList_append]
      exact solid_cons (by decide) (by decide) (by decide) _
  | array =>
      rw [compact, String.toList_append, String.toList_append]
      exact solid_mark (by decide : ('[', Mark.openBracket) ∈ plainMarks) _
  | record =>
      rw [Json.record, compact, String.toList_append, String.toList_append]
      exact solid_mark (by decide : ('\x7b', Mark.openBrace) ∈ plainMarks) _

end Json

end StrategyQubo
