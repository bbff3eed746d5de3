import Mathlib.Data.List.Find
import Mathlib.Data.List.Forall2
import StrategyQubo.Proofs.TokenTexts

namespace StrategyQubo.Script

/-! # Scanning a text at another place

A scanner answers the same wherever its text begins, except that the places in
the answer move along, and also where more text stands behind a semicolon.
-/

/-! ## Answers up to places -/

/-- The same stretch of a template, the place of a hole apart. -/
inductive Chunk.Alike : Chunk → Chunk → Prop where
  | text (content : String) : Chunk.Alike (.text content) (.text content)
  | code (source : String) (start start' : Position) :
      Chunk.Alike (.code source start) (.code source start')

theorem Chunk.Alike.refl : ∀ chunk : Chunk, Chunk.Alike chunk chunk
  | .text content => .text content
  | .code source start => .code source start start

/-- The same lexeme, the places of holes apart. -/
inductive Lexeme.Alike : Lexeme → Lexeme → Prop where
  | refl (lexeme : Lexeme) : Lexeme.Alike lexeme lexeme
  | template {chunks chunks' : List Chunk} : List.Forall₂ Chunk.Alike chunks chunks' →
      Lexeme.Alike (.template chunks) (.template chunks')

/-- The same lexeme, behind a line end or not alike. -/
structure Token.Alike (token token' : Token) : Prop where
  lexeme : token.lexeme.Alike token'.lexeme
  newline : token.newlineBefore = token'.newlineBefore

theorem Token.Alike.refl (token : Token) : Token.Alike token token :=
  ⟨.refl _, rfl⟩

namespace Scan

variable {α β : Type} {tail : List Char} {same : α → α → Prop} {same' : β → β → Prop}

/-! ## Steady scanners -/

/-- Nothing stands behind the text, or the text ends in a semicolon. -/
def Parted (text tail : List Char) : Prop :=
  tail = [] ∨ text.getLast? = some ';'

theorem Parted.append {text : List Char} (parted : Parted text tail) (used : List Char) :
    Parted (used ++ text) tail :=
  parted.imp_right fun last => by rw [List.getLast?_append, last]; rfl

theorem not_parted_nil {c : Char} {more : List Char} : ¬ Parted [] (c :: more) := by
  rintro (none | none) <;> cases none

/-- The scanner takes characters from the front of a text.  At any other place,
    and with the tail behind the text, the second scanner takes the same
    characters for the same answer. -/
def Steady (tail : List Char) (same : α → α → Prop) (scan scan' : Scan α) : Prop :=
  ∀ text place a t, scan ⟨text, place⟩ = .ok (a, t) →
    ∃ used, text = used ++ t.rest ∧ t.position = place.after used ∧
      (Parted t.rest tail → ∀ place', ∃ a',
        scan' ⟨text ++ tail, place'⟩ = .ok (a', ⟨t.rest ++ tail, place'.after used⟩) ∧
          same a a')

theorem Steady.pure {a a' : α} (alike : same a a') :
    Steady tail same (pure a) (pure a') := by
  rintro text place _ _ ⟨⟩
  exact ⟨[], rfl, rfl, fun _ place' => ⟨a', rfl, alike⟩⟩

theorem fail_steady (fault : SyntaxFault) {scan' : Scan α} : Steady tail same (fail fault) scan' :=
  fun _ _ _ _ ran => nomatch ran

theorem Steady.bind {first first' : Scan α} {next next' : α → Scan β}
    (refl : ∀ a, same a a) (steady : Steady tail same first first')
    (later : ∀ a a', same a a' → Steady tail same' (next a) (next' a')) :
    Steady tail same' (first >>= next) (first' >>= next') := by
  intro text place b t ran
  obtain ⟨a, s, reached, ended⟩ := StateT.exists_of_bind_ok ran
  obtain ⟨used, rfl, position, follows⟩ := steady text place a s reached
  obtain ⟨rest, reachedPlace⟩ := s
  obtain rfl : reachedPlace = place.after used := position
  obtain ⟨more, split, position, -⟩ := later a a (refl a) _ _ b t ended
  refine ⟨used ++ more, ?_, ?_, fun parted place' => ?_⟩
  · rw [List.append_assoc, ← split]
  · exact position.trans (Position.after_append ..).symm
  · obtain ⟨a', reached', alike⟩ := follows (split ▸ parted.append more) place'
    obtain ⟨more', split', -, follows'⟩ := later a a' alike _ _ b t ended
    obtain rfl := List.append_cancel_right (split.symm.trans split')
    rw [StateT.bind_ok reached', Position.after_append]
    exact follows' parted _

/-- What the first scanner answers is the same in both runs. -/
theorem Steady.behind {first first' : Scan α} {next next' : α → Scan β}
    (steady : Steady tail Eq first first') (later : ∀ a, Steady tail same' (next a) (next' a)) :
    Steady tail same' (first >>= next) (first' >>= next') :=
  steady.bind (fun _ => rfl) fun a _ alike => alike ▸ later a

theorem take?_steady : Steady tail Eq take? take? := by
  rintro (_ | ⟨c, text⟩) place _ _ ⟨⟩
  · refine ⟨[], rfl, rfl, fun parted place' => ⟨none, ?_, rfl⟩⟩
    cases tail with
    | nil => rfl
    | cons c more => exact absurd parted not_parted_nil
  · exact ⟨[c], rfl, rfl, fun _ _ => ⟨some c, rfl, rfl⟩⟩

theorem skip_steady : Steady tail Eq skip skip :=
  take?_steady.behind fun _ => .pure rfl

theorem takeWhile_append_of_dropWhile_ne_nil {keep : Char → Bool} {text : List Char}
    (stops : text.dropWhile keep ≠ []) (tail : List Char) :
    (text ++ tail).takeWhile keep = text.takeWhile keep ∧
      (text ++ tail).dropWhile keep = text.dropWhile keep ++ tail := by
  induction text with
  | nil => exact absurd rfl stops
  | cons c text ih =>
      simp only [List.cons_append, List.takeWhile_cons, List.dropWhile_cons] at stops ⊢
      split at stops
      · next kept =>
        rw [if_pos kept, if_pos kept, if_pos kept, if_pos kept]
        exact ⟨congrArg _ (ih stops).1, (ih stops).2⟩
      · next stop =>
        rw [if_neg stop, if_neg stop, if_neg stop, if_neg stop]
        exact ⟨rfl, rfl⟩

theorem takeWhile_steady (keep : Char → Bool) :
    Steady tail Eq (takeWhile keep) (takeWhile keep) := by
  rintro text place _ _ ⟨⟩
  refine ⟨text.takeWhile keep, List.takeWhile_append_dropWhile.symm, rfl, fun parted place' => ?_⟩
  refine ⟨text.takeWhile keep, ?_, rfl⟩
  dsimp only at parted
  unfold takeWhile
  cases tail with
  | nil => simp only [List.append_nil]
  | cons c more =>
      have stops : text.dropWhile keep ≠ [] := by
        intro none
        rw [none] at parted
        exact not_parted_nil parted
      obtain ⟨taken, left⟩ := takeWhile_append_of_dropWhile_ne_nil stops (c :: more)
      rw [taken, left]

/-- What a scanner sees ahead in the two runs. -/
def Seen (tail text text' : List Char) : Prop :=
  text' = text ∨ Parted text tail ∧ text' = text ++ tail

theorem Seen.cases {text text' : List Char} (seen : Seen tail text text') :
    text' = text ∨ ∃ c rest, text = c :: rest ∧ text' = c :: (rest ++ tail) ∧
      (rest = [] → c = ';') := by
  rcases seen with same | ⟨none | last, rfl⟩
  · exact .inl same
  · exact .inl (by rw [none, List.append_nil])
  · cases text with
    | nil => cases last
    | cons c rest =>
        refine .inr ⟨c, rest, rfl, rfl, ?_⟩
        rintro rfl
        exact Option.some.inj last

/-- A scanner that looks at the state before it goes on. -/
theorem observe_steady {γ : Type} {look : Scan γ} {seen : Source → γ}
    (looks : ∀ s, look s = .ok (seen s, s)) {next next' : γ → Scan β}
    (later : ∀ text text' place place', Seen tail text text' →
      Steady tail same' (next (seen ⟨text, place⟩)) (next' (seen ⟨text', place'⟩))) :
    Steady tail same' (look >>= next) (look >>= next') := by
  intro text place b t ran
  rw [StateT.bind_ok (looks _)] at ran
  obtain ⟨used, split, position, -⟩ := later text text place place (.inl rfl) _ _ b t ran
  refine ⟨used, split, position, fun parted place' => ?_⟩
  have seen : Seen tail text (text ++ tail) := .inr ⟨split ▸ parted.append used, rfl⟩
  obtain ⟨used', split', -, follows⟩ := later text _ place place' seen _ _ b t ran
  obtain rfl := List.append_cancel_right (split.symm.trans split')
  rw [StateT.bind_ok (looks _)]
  exact follows parted place'

theorem ahead_steady {next next' : List Char → Scan β}
    (later : ∀ text text', Seen tail text text' → Steady tail same' (next text) (next' text')) :
    Steady tail same' (ahead >>= next) (ahead >>= next') :=
  observe_steady (show ∀ s, ahead s = .ok (s.rest, s) from fun _ => rfl) fun text text' _ _ =>
    later text text'

/-! ## Numbers -/

theorem hexNumberLiteral_steady : Steady tail Eq hexNumberLiteral hexNumberLiteral := by
  unfold hexNumberLiteral
  refine skip_steady.behind fun _ => skip_steady.behind fun _ =>
    (takeWhile_steady _).behind fun digits => ?_
  split
  · exact .pure rfl
  · exact fail_steady _

/-! ## Strings -/

theorem takeHexDigits_steady (width : Nat) (digits : List Char) :
    Steady tail Eq (takeHexDigits width digits) (takeHexDigits width digits) := by
  induction width generalizing digits with
  | zero => exact .pure rfl
  | succ width ih =>
      unfold takeHexDigits
      refine take?_steady.behind fun c? => ?_
      cases c? with
      | none => exact fail_steady _
      | some c =>
          dsimp only
          split
          · exact ih _
          · exact fail_steady _

theorem fixedEscape_steady (width : Nat) :
    Steady tail Eq (fixedEscape width) (fixedEscape width) := by
  unfold fixedEscape
  refine (takeHexDigits_steady width []).behind fun digits => ?_
  split
  · exact .pure rfl
  · exact fail_steady _

theorem bracedEscape_steady : Steady tail Eq bracedEscape bracedEscape := by
  unfold bracedEscape
  refine skip_steady.behind fun _ => (takeWhile_steady _).behind fun digits =>
    skip_steady.behind fun _ => ?_
  split
  · exact .pure rfl
  · exact fail_steady _

theorem escape_steady : Steady tail Eq escape escape := by
  unfold escape
  refine take?_steady.behind fun c? => ?_
  split
  · exact fail_steady _
  · exact .pure rfl
  · exact .pure rfl
  · exact .pure rfl
  · exact .pure rfl
  · exact .pure rfl
  · exact .pure rfl
  · exact .pure rfl
  · exact fixedEscape_steady 2
  · refine ahead_steady fun text text' seen => ?_
    rcases seen.cases with rfl | ⟨c, rest, rfl, rfl, -⟩
    · split
      · exact bracedEscape_steady
      · exact fixedEscape_steady 4
    · by_cases brace : c = '{'
      · subst brace
        exact bracedEscape_steady
      · simp only [List.cons.injEq, brace, false_and, imp_false, not_false_eq_true, implies_true]
        exact fixedEscape_steady 4
  · exact .pure rfl

theorem exists_pred {bound bound' : Nat} (enough : bound + 1 ≤ bound') :
    ∃ fewer, bound' = fewer + 1 ∧ bound ≤ fewer :=
  ⟨bound' - 1, by omega, by omega⟩

theorem stringBody_steady (quote : Char) {bound bound' : Nat} (enough : bound ≤ bound')
    (text : String) :
    Steady tail Eq (stringBody quote bound text) (stringBody quote bound' text) := by
  induction bound generalizing bound' text with
  | zero => exact fail_steady _
  | succ bound ih =>
      obtain ⟨bound', rfl, fewer⟩ := exists_pred enough
      unfold stringBody
      refine take?_steady.behind fun c? => ?_
      cases c? with
      | none => exact fail_steady _
      | some c =>
          dsimp only
          split
          · exact .pure rfl
          · split
            · refine ahead_steady fun next next' seen => ?_
              rcases seen.cases with rfl | ⟨d, rest, rfl, rfl, -⟩
              · split
                · exact skip_steady.behind fun _ => ih fewer _
                · exact escape_steady.behind fun decoded => ih fewer _
              · by_cases line : d = '\n'
                · subst line
                  exact skip_steady.behind fun _ => ih fewer _
                · simp only [List.cons.injEq, line, false_and, imp_false, not_false_eq_true,
                    implies_true]
                  exact escape_steady.behind fun decoded => ih fewer _
            · split
              · exact fail_steady _
              · exact ih fewer _

theorem holeString_steady (quote : Char) {bound bound' : Nat} (enough : bound ≤ bound')
    (source : String) :
    Steady tail Eq (holeString quote bound source) (holeString quote bound' source) := by
  induction bound generalizing bound' source with
  | zero => exact fail_steady _
  | succ bound ih =>
      obtain ⟨bound', rfl, fewer⟩ := exists_pred enough
      unfold holeString
      refine take?_steady.behind fun c? => ?_
      cases c? with
      | none => exact fail_steady _
      | some c =>
          dsimp only
          split
          · refine take?_steady.behind fun escaped? => ?_
            cases escaped? with
            | none => exact ih fewer _
            | some escaped => exact ih fewer _
          · split
            · exact .pure rfl
            · exact ih fewer _

theorem holeBody_steady {bound bound' : Nat} (enough : bound ≤ bound') (depth : Nat)
    (source : String) :
    Steady tail Eq (holeBody bound depth source) (holeBody bound' depth source) := by
  induction bound generalizing bound' depth source with
  | zero => exact fail_steady _
  | succ bound ih =>
      obtain ⟨bound', rfl, fewer⟩ := exists_pred enough
      unfold holeBody
      refine take?_steady.behind fun c? => ?_
      cases c? with
      | none => exact fail_steady _
      | some c =>
          dsimp only
          split
          · exact ih fewer _ _
          · split
            · split
              · exact .pure rfl
              · exact ih fewer _ _
            · split
              · exact (holeString_steady c fewer _).behind fun inner => ih fewer _ _
              · exact ih fewer _ _

/-! ## Templates -/

theorem flushText_alike {chunks chunks' : List Chunk}
    (alike : List.Forall₂ Chunk.Alike chunks chunks') (text : String) :
    List.Forall₂ Chunk.Alike (flushText chunks text) (flushText chunks' text) := by
  unfold flushText
  split
  · exact alike
  · exact .cons (.text text) alike

theorem chunks_refl (chunks : List Chunk) : List.Forall₂ Chunk.Alike chunks chunks :=
  List.forall₂_same.mpr fun chunk _ => .refl chunk

theorem templateBody_steady {bound bound' : Nat} (enough : bound ≤ bound')
    {chunks chunks' : List Chunk} (alike : List.Forall₂ Chunk.Alike chunks chunks')
    (text : String) :
    Steady tail (List.Forall₂ Chunk.Alike) (templateBody bound chunks text)
      (templateBody bound' chunks' text) := by
  induction bound generalizing bound' chunks chunks' text with
  | zero => exact fail_steady _
  | succ bound ih =>
      obtain ⟨bound', rfl, fewer⟩ := exists_pred enough
      have flushed := flushText_alike alike text
      unfold templateBody
      refine take?_steady.behind fun c? => ?_
      cases c? with
      | none => exact fail_steady _
      | some c =>
          dsimp only
          split
          · exact .pure (List.rel_reverse flushed)
          · split
            · exact escape_steady.behind fun decoded => ih fewer alike _
            · have hole : Steady tail (List.Forall₂ Chunk.Alike)
                  (do
                    skip
                    let start := (← get).position
                    let source ← holeBody bound 0 ""
                    templateBody bound (.code source start :: flushText chunks text) "")
                  (do
                    skip
                    let start := (← get).position
                    let source ← holeBody bound' 0 ""
                    templateBody bound' (.code source start :: flushText chunks' text) "") :=
                skip_steady.behind fun _ => observe_steady (fun _ => rfl) fun _ _ _ _ _ =>
                  (holeBody_steady fewer 0 "").behind fun source =>
                    ih fewer (.cons (.code ..) flushed) ""
              refine ahead_steady fun next next' seen => ?_
              rcases seen.cases with rfl | ⟨d, rest, rfl, rfl, -⟩
              · split
                · exact hole
                · exact ih fewer alike _
              · by_cases opens : c = '$' ∧ d = '{'
                · obtain ⟨rfl, rfl⟩ := opens
                  exact hole
                · split
                  · simp_all
                  · split
                    · simp_all
                    · exact ih fewer alike _

/-! ## Numbers -/

/-- The characters of decimal numerals. -/
def Numerical (c : Char) : Prop :=
  c.isDigit = true ∨ c ∈ ['.', 'e', 'E', '+', '-']

theorem Position.after_of_line {used : List Char} (line : ∀ c ∈ used, c ≠ '\n')
    (place : Position) : place.after used = ⟨place.line, place.column + used.length⟩ := by
  induction used generalizing place with
  | nil => rfl
  | cons c used ih =>
      obtain ⟨other, line⟩ := List.forall_mem_cons.mp line
      rw [Position.after_cons, ih line, Position.step, if_neg other, List.length_cons]
      simp only [Position.mk.injEq, true_and]
      omega

/-- A numeral is as wide as the characters it was read from. -/
structure Spans (text : List Char) (width : Nat) (rest used : List Char) : Prop where
  split : text = used ++ rest
  width : used.length = width
  numerical : ∀ c ∈ used, Numerical c

theorem Spans.inLine {text rest used : List Char} {width : Nat}
    (spans : Spans text width rest used) : ∀ c ∈ used, c ≠ '\n' := by
  rintro _ member rfl
  have numerical := spans.numerical _ member
  simp [Numerical] at numerical

theorem spanDigits_spans (text : List Char) :
    Spans text (Number.spanDigits text).1.length (Number.spanDigits text).2
      (Number.spanDigits text).1 :=
  ⟨List.takeWhile_append_dropWhile.symm, rfl, fun _ member => .inl (List.mem_takeWhile_imp member)⟩

theorem spanSign_spans (text : List Char) :
    ∃ used, Spans text (Number.spanSign text).2.1 (Number.spanSign text).2.2 used := by
  unfold Number.spanSign
  split
  · exact ⟨['-'], rfl, rfl, by simp [Numerical]⟩
  · exact ⟨['+'], rfl, rfl, by simp [Numerical]⟩
  · exact ⟨[], rfl, rfl, List.forall_mem_nil _⟩

theorem spanExponent_spans (text : List Char) :
    ∃ used, Spans text (Number.spanExponent text).2.1 (Number.spanExponent text).2.2 used := by
  have nothing : Spans text 0 text [] := ⟨rfl, rfl, List.forall_mem_nil _⟩
  unfold Number.spanExponent
  split
  · next mark rest =>
    split
    · next letter =>
      dsimp only
      split
      · exact ⟨[], nothing⟩
      · obtain ⟨sign, split, width, numerical⟩ := spanSign_spans rest
        have digits := spanDigits_spans (Number.spanSign rest).2.2
        refine ⟨mark :: sign ++ (Number.spanDigits (Number.spanSign rest).2.2).1, ?_, ?_, ?_⟩
        · rw [List.append_assoc, ← digits.split, List.cons_append, ← split]
        · rw [List.length_append, List.length_cons, width, Nat.add_comm _ 1]
        · refine List.forall_mem_append.mpr ⟨List.forall_mem_cons.mpr ⟨?_, numerical⟩,
            digits.numerical⟩
          rcases letter with rfl | rfl <;> simp [Numerical]
    · exact ⟨[], nothing⟩
  · exact ⟨[], nothing⟩

/-- A numeral has a digit at least. -/
theorem spanNumeral?_spans {text rest : List Char} {n : Number.Numeral}
    (found : Number.spanNumeral? text = some (n, rest)) :
    ∃ used, used ≠ [] ∧ Spans text n.width rest used := by
  have whole := spanDigits_spans text
  unfold Number.spanNumeral? at found
  dsimp only at found
  split at found <;> split at found
  · cases found
  · next behind point digits =>
    obtain ⟨rfl, rfl⟩ := Prod.mk.inj (Option.some.inj found)
    have fraction := spanDigits_spans behind
    obtain ⟨power, exponent⟩ := spanExponent_spans (Number.spanDigits behind).2
    refine ⟨(Number.spanDigits text).1 ++ '.' :: ((Number.spanDigits behind).1 ++ power),
      by simp, ?_, ?_, ?_⟩
    · rw [List.append_assoc, List.cons_append, List.append_assoc, ← exponent.split,
        ← fraction.split, ← point]
      exact whole.split
    · rw [List.length_append, List.length_cons, List.length_append, exponent.width]
      change _ = (Number.spanDigits text).1.length + 1 + (Number.spanDigits behind).1.length +
        (Number.spanExponent (Number.spanDigits behind).2).2.1
      omega
    · exact List.forall_mem_append.mpr ⟨whole.numerical, List.forall_mem_cons.mpr
        ⟨by simp [Numerical], List.forall_mem_append.mpr ⟨fraction.numerical, exponent.numerical⟩⟩⟩
  · cases found
  · next digits =>
    obtain ⟨rfl, rfl⟩ := Prod.mk.inj (Option.some.inj found)
    obtain ⟨power, exponent⟩ := spanExponent_spans (Number.spanDigits text).2
    refine ⟨(Number.spanDigits text).1 ++ power, ?_, ?_, ?_, ?_⟩
    · intro none
      simp [(List.append_eq_nil_iff.mp none).1] at digits
    · rw [List.append_assoc, ← exponent.split]
      exact whole.split
    · rw [List.length_append, exponent.width]
      rfl
    · exact List.forall_mem_append.mpr ⟨whole.numerical, exponent.numerical⟩

theorem spanNumeral?_parted {text : List Char} (parted : Parted text tail) :
    Number.spanNumeral? (text ++ tail) =
      (Number.spanNumeral? text).map fun (n, after) => (n, after ++ tail) := by
  rcases parted with rfl | last
  · simp
  · obtain ⟨front, rfl⟩ := List.getLast?_eq_some_iff.mp last
    have breaks (more : List Char) : Breaks (';' :: more) := .cons (by simp) more
    rw [List.append_assoc, List.singleton_append, Number.spanNumeral?_append (breaks tail),
      Number.spanNumeral?_append (breaks [])]
    cases Number.spanNumeral? front with
    | none => rfl
    | some found => simp

theorem decimalLiteral_run (s : Source) :
    decimalLiteral s = match Number.spanNumeral? s.rest with
      | none => .ok (.number 0.0, s)
      | some (n, after) =>
          if after.head?.any startsIdentifier then
            .error (.syntaxFault ⟨s.position.line, s.position.column + n.width⟩
              .identifierAfterNumber)
          else
            .ok (.number n.toFloat, ⟨after, ⟨s.position.line, s.position.column + n.width⟩⟩) := by
  unfold decimalLiteral
  rw [StateT.bind_ok (show ahead s = .ok (s.rest, s) from rfl)]
  cases Number.spanNumeral? s.rest with
  | none => rfl
  | some found =>
      obtain ⟨n, after⟩ := found
      cases after with
      | nil => rfl
      | cons c after => cases starts : startsIdentifier c <;> simp [starts] <;> rfl

theorem decimalLiteral_steady : Steady tail Eq decimalLiteral decimalLiteral := by
  intro text place read t ran
  rw [decimalLiteral_run] at ran
  cases found : Number.spanNumeral? text with
  | none =>
      rw [found] at ran
      cases ran
      refine ⟨[], rfl, rfl, fun parted place' => ⟨_, ?_, rfl⟩⟩
      rw [decimalLiteral_run, spanNumeral?_parted parted, found]
      rfl
  | some numeral =>
      obtain ⟨n, after⟩ := numeral
      obtain ⟨used, -, spans⟩ := spanNumeral?_spans found
      have line (place : Position) : place.after used = ⟨place.line, place.column + n.width⟩ := by
        rw [Position.after_of_line spans.inLine, spans.width]
      simp only [found] at ran
      split at ran
      · cases ran
      · next ends =>
        cases ran
        refine ⟨used, spans.split, (line place).symm, fun parted place' => ⟨_, ?_, rfl⟩⟩
        have seen : (after ++ tail).head? = after.head? := by
          rcases parted with rfl | last
          · rw [List.append_nil]
          · cases after with
            | nil => cases last
            | cons c after => rfl
        rw [decimalLiteral_run, spanNumeral?_parted (spans.split ▸ parted.append used), found,
          line]
        simp [seen, ends]

theorem numberLiteral_steady : Steady tail Eq numberLiteral numberLiteral := by
  unfold numberLiteral
  refine ahead_steady fun text text' seen => ?_
  rcases seen.cases with rfl | ⟨c, rest, rfl, rfl, single⟩
  · split
    · exact hexNumberLiteral_steady
    · exact hexNumberLiteral_steady
    · exact decimalLiteral_steady
  · cases rest with
    | nil =>
        obtain rfl := single rfl
        exact decimalLiteral_steady
    | cons d rest =>
        rw [List.cons_append]
        split
        · next same =>
          cases same
          exact hexNumberLiteral_steady
        · next same =>
          cases same
          exact hexNumberLiteral_steady
        · split
          · simp_all
          · simp_all
          · exact decimalLiteral_steady

/-! ## Words and marks -/

theorem wordLexeme_steady : Steady tail Eq wordLexeme wordLexeme := by
  unfold wordLexeme
  refine (takeWhile_steady _).behind fun word => ?_
  dsimp only
  split
  · exact .pure rfl
  · exact .pure rfl

/-- No mark goes on behind a semicolon. -/
theorem markAt?_parted {text : List Char} (parted : Parted text tail) :
    markAt? (text ++ tail) = markAt? text := by
  have closing : ∀ mark ∈ Mark.all, ';' ∉ mark.spelling.toList.dropLast := by decide
  refine List.find?_congr fun mark member => ?_
  rw [Bool.eq_iff_iff, List.isPrefixOf_iff_prefix, List.isPrefixOf_iff_prefix]
  refine ⟨fun begins => ?_, fun begins => begins.trans (List.prefix_append ..)⟩
  rcases parted with rfl | last
  · rwa [List.append_nil] at begins
  · obtain ⟨front, rfl⟩ := List.getLast?_eq_some_iff.mp last
    rcases List.prefix_or_prefix_of_prefix begins (List.prefix_append ..) with within | beyond
    · exact within
    · obtain ⟨more, spelled⟩ := beyond
      cases more with
      | nil => exact ⟨[], by rw [← spelled]; simp⟩
      | cons c more =>
          refine absurd ?_ (closing mark member)
          rw [← spelled, List.dropLast_append_of_ne_nil (List.cons_ne_nil c more)]
          simp

theorem markLexeme_run (s : Source) :
    markLexeme s = match markAt? s.rest with
      | some mark => .ok (.mark mark,
          ⟨s.rest.drop mark.spelling.length, s.position.after mark.spelling.toList⟩)
      | none => .error (.syntaxFault s.position (.unexpectedCharacter (s.rest.headD ' '))) := by
  unfold markLexeme
  rw [StateT.bind_ok (show ahead s = .ok (s.rest, s) from rfl)]
  cases markAt? s.rest <;> rfl

/-- A mark begins the text that it is found in. -/
theorem markAt?_split {text : List Char} {mark : Mark} (found : markAt? text = some mark) :
    text = mark.spelling.toList ++ text.drop mark.spelling.length := by
  have begins : mark.spelling.toList.isPrefixOf text = true :=
    List.find?_some (p := fun mark : Mark => mark.spelling.toList.isPrefixOf text) found
  obtain ⟨rest, rfl⟩ := List.isPrefixOf_iff_prefix.mp begins
  rw [← String.length_toList, List.drop_left]

theorem markLexeme_steady : Steady tail Eq markLexeme markLexeme := by
  intro text place read t ran
  rw [markLexeme_run] at ran
  cases found : markAt? text with
  | none =>
      rw [found] at ran
      cases ran
  | some mark =>
      have split := markAt?_split found
      rw [found] at ran
      cases ran
      refine ⟨mark.spelling.toList, split, rfl, fun parted place' => ⟨_, ?_, rfl⟩⟩
      have whole := parted.append mark.spelling.toList
      rw [← split] at whole
      rw [markLexeme_run, markAt?_parted whole, found]
      dsimp only
      rw [List.drop_append_of_le_length]
      rw [split, List.length_append, String.length_toList]
      exact Nat.le_add_right ..

/-! ## Lexemes -/

theorem Steady.alike {scan scan' : Scan Lexeme} (steady : Steady tail Eq scan scan') :
    Steady tail Lexeme.Alike scan scan' := by
  intro text place read t ran
  obtain ⟨used, split, position, follows⟩ := steady text place read t ran
  refine ⟨used, split, position, fun parted place' => ?_⟩
  obtain ⟨_, ran', rfl⟩ := follows parted place'
  exact ⟨_, ran', .refl _⟩

theorem startsNumber_seen {text text' : List Char} (seen : Seen tail text text') :
    startsNumber text' = startsNumber text := by
  rcases seen.cases with rfl | ⟨c, rest, rfl, rfl, single⟩
  · rfl
  · cases rest with
    | nil =>
        obtain rfl := single rfl
        rfl
    | cons d rest =>
        rw [List.cons_append]
        by_cases point : c = '.' <;> simp [startsNumber, point]

theorem lexeme_steady (tail : List Char) {bound bound' : Nat} (enough : bound ≤ bound') (c : Char) :
    Steady tail Lexeme.Alike (lexeme bound c) (lexeme bound' c) := by
  unfold lexeme
  refine ahead_steady fun text text' seen => ?_
  rw [startsNumber_seen seen]
  split
  · exact numberLiteral_steady.alike
  · split
    · exact skip_steady.behind fun _ => (stringBody_steady c enough "").behind fun text =>
        .pure (.refl _)
    · split
      · exact skip_steady.behind fun _ =>
          (templateBody_steady enough .nil "").bind chunks_refl fun chunks chunks' alike =>
            .pure (.template alike)
      · split
        · exact wordLexeme_steady.alike
        · exact markLexeme_steady.alike

end Scan

end StrategyQubo.Script
