import StrategyQubo.Proofs.TextSizes
import StrategyQubo.Proofs.TokenTexts
import StrategyQubo.Proofs.TokensWithin

namespace StrategyQubo.Script

/-! # Sizes of tokens

No token has a text larger than what it is cut from: each scanner spends as many
bytes of its source as its answer has, also where escapes stand for characters
that take several bytes.
-/

/-- The bytes that are not read yet. -/
def Source.bytes (s : Source) : Nat :=
  String.utf8Len s.rest

namespace Scan

variable {α β : Type} {worth : α → Nat} {credit limit : Nat}

/-! ## Spending -/

/-- The scanner spends what its answer is worth, except for the credit it has. -/
def Spends (worth : α → Nat) (credit : Nat) (scan : Scan α) : Prop :=
  ∀ s a s', scan s = .ok (a, s') → worth a + s'.bytes ≤ s.bytes + credit

theorem Spends.pure {a : α} (within : worth a ≤ credit) :
    Spends worth credit (pure a : Scan α) := by
  rintro s _ _ ⟨⟩
  omega

/-- What the first answer is worth is credit for what follows. -/
theorem Spends.bind {first : Scan α} {next : α → Scan β} {worth' : β → Nat}
    (spends : Spends worth credit first) (later : ∀ a, Spends worth' (worth a) (next a)) :
    Spends worth' credit (first >>= next) := by
  intro s b s'' ran
  obtain ⟨a, s', reached, ran⟩ := StateT.exists_of_bind_ok ran
  have before := spends s a s' reached
  have rest := later a s' b s'' ran
  omega

theorem Spends.mono {scan : Scan α} {worth' : α → Nat} {more : Nat}
    (spends : Spends worth credit scan) (less : ∀ a, worth' a ≤ worth a + (more - credit))
    (enough : credit ≤ more) : Spends worth' more scan := by
  intro s a s' ran
  have spent := spends s a s' ran
  have worth := less a
  omega

theorem fail_spends (fault : SyntaxFault) : Spends worth credit (fail fault : Scan α) :=
  fun _ _ _ ran => nomatch ran

theorem ahead_spends (credit : Nat) : Spends (fun _ => credit) credit ahead := by
  rintro s _ _ ⟨⟩
  exact Nat.le_of_eq (Nat.add_comm ..)

theorem take?_spends (credit : Nat) :
    Spends (fun c? => c?.elim 0 Char.utf8Size + credit) credit take? := by
  rintro ⟨rest, position⟩ c? s' ran
  cases rest with
  | nil =>
      cases ran
      simp only [Option.elim_none]
      omega
  | cons c rest =>
      cases ran
      simp only [Source.bytes, String.utf8Len_cons, Option.elim_some]
      omega

theorem skip_spends (credit : Nat) : Spends (fun _ => credit) credit skip :=
  (take?_spends credit).bind fun _ => .pure (Nat.le_add_left ..)

theorem takeWhile_spends (keep : Char → Bool) (credit : Nat) :
    Spends (fun run => String.utf8Len run + credit) credit (takeWhile keep) := by
  rintro ⟨rest, position⟩ _ _ ⟨⟩
  have parts := congrArg String.utf8Len (List.takeWhile_append_dropWhile (p := keep) (l := rest))
  rw [String.utf8Len_append] at parts
  simp only [Source.bytes]
  omega

/-! ### Escapes -/

theorem takeHexDigits_spends (width : Nat) (digits : List Char) (credit : Nat) :
    Spends (fun _ => width + credit) credit (takeHexDigits width digits) := by
  induction width generalizing digits credit with
  | zero => exact .pure (by omega)
  | succ width ih =>
      unfold takeHexDigits
      refine (take?_spends credit).bind fun c? => ?_
      cases c? with
      | none => exact fail_spends _
      | some c =>
          dsimp only
          split
          · have positive := c.utf8Size_pos
            exact (ih _ _).mono (fun _ => by simp only [Option.elim_some]; omega) (Nat.le_refl _)
          · exact fail_spends _

theorem fixedEscape_spends {width : Nat} (wide : 2 ≤ width) (credit : Nat) :
    Spends (fun c => c.utf8Size + credit) (credit + 2) (fixedEscape width) := by
  unfold fixedEscape
  refine (takeHexDigits_spends width [] _).bind fun digits => ?_
  split
  · next c _ =>
    have small := c.utf8Size_le_four
    exact .pure (by omega)
  · exact fail_spends _

/-- Between the braces stands a digit at least. -/
theorem insideBraces_spends : Spends (fun _ : Char => 1) 0 (do
    let digits ← takeWhile (· != '}')
    skip
    match (Number.hexNumber? (Number.pow2 32) digits).bind charOfCode? with
    | some c => pure c
    | none => fail .malformedUnicodeEscape) := by
  refine (takeWhile_spends _ 0).bind fun digits => (skip_spends _).bind fun _ => ?_
  split
  · next found =>
    refine .pure ?_
    cases digits with
    | nil => simp [Number.hexNumber?] at found
    | cons digit digits =>
        have positive := digit.utf8Size_pos
        rw [String.utf8Len_cons]
        omega
  · exact fail_spends _

theorem bracedEscape_spends {s s' : Source} {rest : List Char} {c : Char}
    (opens : s.rest = '{' :: rest) (ran : bracedEscape s = .ok (c, s')) :
    2 + s'.bytes ≤ s.bytes := by
  obtain ⟨chars, position⟩ := s
  cases opens
  have spent := insideBraces_spends ⟨rest, position.step '{'⟩ c s' ran
  have first : '{'.utf8Size = 1 := by decide
  simp only [Source.bytes, String.utf8Len_cons] at spent ⊢
  omega

theorem unicodeEscape_spends (credit : Nat) :
    Spends (fun c => c.utf8Size + credit) (credit + 2) (do
      match ← ahead with
      | '{' :: _ => bracedEscape
      | _ => fixedEscape 4) := by
  intro s c s' ran
  rw [StateT.bind_ok (show ahead s = .ok (s.rest, s) from rfl)] at ran
  generalize opens : s.rest = text at ran
  split at ran
  · have spent := bracedEscape_spends opens ran
    have small := c.utf8Size_le_four
    change c.utf8Size + credit + s'.bytes ≤ s.bytes + (credit + 2)
    omega
  · exact fixedEscape_spends (by decide) credit s c s' ran

/-- The backslash in front is credit of one byte. -/
theorem escape_spends (credit : Nat) :
    Spends (fun c => c.utf8Size + credit) (credit + 1) escape := by
  have plain {c : Char} {sign : Char} (small : c.utf8Size ≤ sign.utf8Size) :
      Spends (fun c => c.utf8Size + credit) ((some sign).elim 0 Char.utf8Size + (credit + 1))
        (pure c) :=
    .pure (by simp only [Option.elim_some]; omega)
  have marked (sign : Char) : credit + 2 ≤ (some sign).elim 0 Char.utf8Size + (credit + 1) := by
    have positive := sign.utf8Size_pos
    simp only [Option.elim_some]
    omega
  unfold escape
  refine (take?_spends _).bind fun c? => ?_
  split
  · exact fail_spends _
  · exact plain (by decide)
  · exact plain (by decide)
  · exact plain (by decide)
  · exact plain (by decide)
  · exact plain (by decide)
  · exact plain (by decide)
  · exact plain (by decide)
  · exact (fixedEscape_spends (Nat.le_refl 2) credit).mono (fun _ => Nat.le_add_right ..)
      (marked 'x')
  · exact (unicodeEscape_spends credit).mono (fun _ => Nat.le_add_right ..) (marked 'u')
  · exact plain (Nat.le_refl _)

/-! ### Strings -/

/-- A character that is pushed onto a text has been read. -/
theorem Spends.pushed {scan : Scan α} {text : String} {c : Char}
    (spends : Spends worth (text.push c).utf8ByteSize scan) :
    Spends worth (c.utf8Size + text.utf8ByteSize) scan := by
  rwa [Nat.add_comm, ← String.utf8ByteSize_push]

theorem stringBody_spends (quote : Char) (bound : Nat) (text : String) :
    Spends String.utf8ByteSize text.utf8ByteSize (stringBody quote bound text) := by
  induction bound generalizing text with
  | zero => exact fail_spends _
  | succ bound ih =>
      unfold stringBody
      refine (take?_spends _).bind fun c? => ?_
      cases c? with
      | none => exact fail_spends _
      | some c =>
          dsimp only [Option.elim_some]
          have pushed (c : Char) : Spends String.utf8ByteSize (c.utf8Size + text.utf8ByteSize)
              (stringBody quote bound (text.push c)) := (ih _).pushed
          have dropped : Spends String.utf8ByteSize (c.utf8Size + text.utf8ByteSize)
              (stringBody quote bound text) :=
            (ih text).mono (fun _ => Nat.le_add_right ..) (Nat.le_add_left ..)
          split
          · exact .pure (Nat.le_add_left ..)
          · split
            · refine (ahead_spends _).bind fun next => ?_
              split
              · exact (skip_spends _).bind fun _ => dropped
              · have paid : text.utf8ByteSize + 1 ≤ c.utf8Size + text.utf8ByteSize := by
                  have positive := c.utf8Size_pos
                  omega
                have decodes := (escape_spends _).mono (fun _ => Nat.le_add_right ..) paid
                exact decodes.bind pushed
            · split
              · exact fail_spends _
              · exact pushed c

/-- The closing quote is read as well. -/
theorem holeString_spends (quote : Char) (bound : Nat) (source : String) :
    Spends (fun source => source.utf8ByteSize + quote.utf8Size) source.utf8ByteSize
      (holeString quote bound source) := by
  induction bound generalizing source with
  | zero => exact fail_spends _
  | succ bound ih =>
      unfold holeString
      refine (take?_spends _).bind fun c? => ?_
      cases c? with
      | none => exact fail_spends _
      | some c =>
          dsimp only [Option.elim_some]
          have pushed : Spends (fun source => source.utf8ByteSize + quote.utf8Size)
              (c.utf8Size + source.utf8ByteSize) (holeString quote bound (source.push c)) :=
            (ih _).pushed
          split
          · refine (take?_spends _).bind fun escaped? => ?_
            cases escaped? with
            | none => exact pushed.mono (fun _ => Nat.le_add_right ..) (Nat.le_add_left ..)
            | some escaped =>
                refine (ih _).mono (fun _ => Nat.le_add_right ..) (Nat.le_of_eq ?_)
                simp only [String.utf8ByteSize_push, Option.elim_some]
                omega
          · split
            · next same =>
              rw [same]
              exact .pure (Nat.le_of_eq (Nat.add_comm ..))
            · exact pushed

theorem holeBody_spends (bound depth : Nat) (source : String) :
    Spends String.utf8ByteSize source.utf8ByteSize (holeBody bound depth source) := by
  induction bound generalizing depth source with
  | zero => exact fail_spends _
  | succ bound ih =>
      unfold holeBody
      refine (take?_spends _).bind fun c? => ?_
      cases c? with
      | none => exact fail_spends _
      | some c =>
          dsimp only [Option.elim_some]
          have pushed (depth : Nat) : Spends String.utf8ByteSize
              (c.utf8Size + source.utf8ByteSize) (holeBody bound depth (source.push c)) :=
            (ih _ _).pushed
          split
          · exact pushed _
          · split
            · split
              · exact .pure (Nat.le_add_left ..)
              · exact pushed _
            · split
              · refine ((holeString_spends c bound _).bind fun inner => ?_).pushed
                rw [← String.utf8ByteSize_push]
                exact ih _ _
              · exact pushed _

/-! ## Answering -/

/-- From a source within the limit the scanner gets to such a source, with an
    answer that is as expected. -/
def Answers (limit : Nat) (expected : α → Prop) (scan : Scan α) : Prop :=
  ∀ s a s', s.bytes ≤ limit → scan s = .ok (a, s') → expected a ∧ s'.bytes ≤ limit

/-- Such a scanner, whatever it answers. -/
abbrev Goes (limit : Nat) (scan : Scan α) : Prop :=
  Answers limit (fun _ => True) scan

variable {expected : α → Prop} {expected' : β → Prop}

theorem Answers.pure {a : α} (good : expected a) : Answers limit expected (pure a : Scan α) := by
  rintro s _ _ small ⟨⟩
  exact ⟨good, small⟩

theorem Answers.bind {first : Scan α} {next : α → Scan β} (answers : Answers limit expected first)
    (later : ∀ a, expected a → Answers limit expected' (next a)) :
    Answers limit expected' (first >>= next) := by
  intro s b s'' small ran
  obtain ⟨a, s', reached, ran⟩ := StateT.exists_of_bind_ok ran
  obtain ⟨good, still⟩ := answers s a s' small reached
  exact later a good s' b s'' still ran

theorem Goes.bind {first : Scan α} {next : α → Scan β} (goes : Goes limit first)
    (later : ∀ a, Answers limit expected' (next a)) : Answers limit expected' (first >>= next) :=
  Answers.bind goes fun a _ => later a

theorem fail_answers (fault : SyntaxFault) : Answers limit expected (fail fault : Scan α) :=
  fun _ _ _ _ ran => nomatch ran

/-- An answer is worth no more than the limit. -/
theorem Spends.answers {scan : Scan α} (spends : Spends worth 0 scan)
    (fits : ∀ a, worth a ≤ limit → expected a) : Answers limit expected scan := by
  intro s a s' small ran
  have spent := spends s a s' ran
  exact ⟨fits a (by omega), by omega⟩

theorem Spends.goes {scan : Scan α} (spends : Spends worth 0 scan) : Goes limit scan :=
  spends.answers fun _ _ => trivial

theorem ahead_answers : Answers limit (fun text => String.utf8Len text ≤ limit) ahead := by
  rintro s _ _ small ⟨⟩
  exact ⟨small, small⟩

theorem modify_goes {change : Source → Source}
    (shrinks : ∀ s, s.bytes ≤ limit → (change s).bytes ≤ limit) :
    Goes limit (modify change : Scan Unit) := by
  rintro s _ _ small ⟨⟩
  exact ⟨trivial, shrinks s small⟩

theorem get_goes : Goes limit (get : Scan Source) := by
  rintro s _ _ small ⟨⟩
  exact ⟨trivial, small⟩

theorem skip_goes : Goes limit skip :=
  (skip_spends 0).goes

theorem takeWhile_goes (keep : Char → Bool) : Goes limit (takeWhile keep) :=
  (takeWhile_spends keep 0).goes

theorem escape_goes : Goes limit escape := by
  intro s c s' small ran
  have spent : c.utf8Size + 0 + s'.bytes ≤ s.bytes + 1 := escape_spends 0 s c s' ran
  have positive := c.utf8Size_pos
  exact ⟨trivial, by omega⟩

/-! ### Between the tokens -/

theorem closeComment_bytes {rest : List Char} {position : Position} {newline found : Bool}
    {s : Source} (ran : closeComment rest position newline = .ok (found, s)) :
    s.bytes ≤ String.utf8Len rest := by
  fun_induction closeComment rest position newline with
  | case1 => cases ran
  | case2 rest position newline =>
      cases ran
      simp only [Source.bytes, String.utf8Len_cons]
      omega
  | case3 c rest position newline _ ih =>
      have within := ih ran
      rw [String.utf8Len_cons]
      omega

theorem skipTrivia_goes (bound : Nat) (newline : Bool) : Goes limit (skipTrivia bound newline) := by
  induction bound generalizing newline with
  | zero => exact .pure trivial
  | succ bound ih =>
      unfold skipTrivia
      refine (ahead_spends 0).goes.bind fun text => ?_
      split
      · exact (takeWhile_goes _).bind fun _ => ih _
      · refine skip_goes.bind fun _ => skip_goes.bind fun _ => Goes.bind ?_ ih
        intro s found s' small ran
        exact ⟨trivial, Nat.le_trans (closeComment_bytes ran) small⟩
      · split
        · exact skip_goes.bind fun _ => ih _
        · exact .pure trivial
      · exact .pure trivial

/-! ### Numbers -/

theorem spanDigits_sublist (text : List Char) : (Number.spanDigits text).2.Sublist text :=
  List.dropWhile_sublist _

theorem spanSign_sublist (text : List Char) : (Number.spanSign text).2.2.Sublist text := by
  unfold Number.spanSign
  split
  · exact List.sublist_cons_self ..
  · exact List.sublist_cons_self ..
  · exact List.Sublist.refl _

theorem spanExponent_sublist (text : List Char) : (Number.spanExponent text).2.2.Sublist text := by
  unfold Number.spanExponent
  split
  · next mark rest =>
    split
    · dsimp only
      split
      · exact List.Sublist.refl _
      · exact ((spanDigits_sublist _).trans (spanSign_sublist rest)).cons _
    · exact List.Sublist.refl _
  · exact List.Sublist.refl _

/-- What is left of a text behind a numeral. -/
theorem spanNumeral?_sublist {text rest : List Char} {numeral : Number.Numeral}
    (found : Number.spanNumeral? text = some (numeral, rest)) : rest.Sublist text := by
  unfold Number.spanNumeral? at found
  dsimp only at found
  have digits := spanDigits_sublist text
  split at found <;> split at found
  · cases found
  · next behind point _ =>
    obtain ⟨-, rfl⟩ := Prod.mk.inj (Option.some.inj found)
    rw [point] at digits
    exact (spanExponent_sublist _).trans (((spanDigits_sublist behind).cons _).trans digits)
  · cases found
  · obtain ⟨-, rfl⟩ := Prod.mk.inj (Option.some.inj found)
    exact (spanExponent_sublist _).trans digits

variable {s : Spelling}

/-- Nothing is asked of numbers. -/
theorem numberLiteral_answers : Answers limit (Lexeme.Within s) numberLiteral := by
  have hex : Answers limit (Lexeme.Within s) hexNumberLiteral := by
    unfold hexNumberLiteral
    refine skip_goes.bind fun _ => skip_goes.bind fun _ => (takeWhile_goes _).bind fun digits => ?_
    split
    · exact .pure trivial
    · exact fail_answers _
  have decimal : Answers limit (Lexeme.Within s) decimalLiteral := by
    unfold decimalLiteral
    refine ahead_answers.bind fun text small => ?_
    split
    · exact .pure trivial
    · next numeral rest found =>
      have left : String.utf8Len rest ≤ limit :=
        Nat.le_trans (String.utf8Len_le_of_sublist (spanNumeral?_sublist found)) small
      refine (modify_goes fun _ _ => left).bind fun _ => ?_
      split
      · split
        · exact fail_answers _
        · exact .pure trivial
      · exact .pure trivial
  unfold numberLiteral
  refine (ahead_spends 0).goes.bind fun text => ?_
  split
  · exact hex
  · exact hex
  · exact decimal

/-! ### Words, marks and templates -/

theorem markLexeme_answers : Answers limit (Lexeme.Within s) markLexeme := by
  unfold markLexeme
  refine (ahead_spends 0).goes.bind fun text => ?_
  split
  · refine (modify_goes fun source small => ?_).bind fun _ => .pure trivial
    exact Nat.le_trans (String.utf8Len_le_of_sublist (List.drop_sublist _ _)) small
  · exact fail_answers _

/-- Texts within the limit will do, and any name. -/
structure Fits (s : Spelling) (limit : Nat) : Prop where
  names : ∀ name, s.name name
  texts : ∀ text : String, text.utf8ByteSize ≤ limit → s.text text
  sources : ∀ (text : String) (start : Position), text.utf8ByteSize ≤ limit → s.source text start

variable (fits : Fits s limit)

include fits

theorem wordLexeme_answers : Answers limit (Lexeme.Within s) wordLexeme := by
  unfold wordLexeme
  refine ((takeWhile_spends _ 0).answers fun _ small => small).bind fun word small => ?_
  dsimp only
  split
  · exact .pure trivial
  · exact .pure ⟨fits.names _, fits.texts _ (by simpa [String.utf8ByteSize_ofList] using small)⟩

omit fits in
theorem flushText_within {chunks : List Chunk} (within : ∀ chunk ∈ chunks, chunk.Within s)
    (text : String) : ∀ chunk ∈ flushText chunks text, chunk.Within s := by
  unfold flushText
  split
  · exact within
  · exact List.forall_mem_cons.mpr ⟨trivial, within⟩

theorem templateBody_answers (bound : Nat) {chunks : List Chunk}
    (within : ∀ chunk ∈ chunks, chunk.Within s) (text : String) :
    Answers limit (fun chunks => ∀ chunk ∈ chunks, chunk.Within s)
      (templateBody bound chunks text) := by
  induction bound generalizing chunks text with
  | zero => exact fail_answers _
  | succ bound ih =>
      have flushed := flushText_within within text
      unfold templateBody
      refine (take?_spends 0).goes.bind fun c? => ?_
      cases c? with
      | none => exact fail_answers _
      | some c =>
          dsimp only
          split
          · exact .pure (forall_mem_reversed flushed)
          · split
            · exact escape_goes.bind fun decoded => ih within _
            · refine (ahead_spends 0).goes.bind fun next => ?_
              split
              · refine skip_goes.bind fun _ => get_goes.bind fun start => ?_
                have hole := (holeBody_spends bound 0 "").answers fun text =>
                  fits.sources text start.position
                refine hole.bind fun source small => ih ?_ ""
                exact List.forall_mem_cons.mpr ⟨small, flushed⟩
              · exact ih within _

/-! ### Tokens -/

theorem lexeme_answers (bound : Nat) (c : Char) :
    Answers limit (Lexeme.Within s) (lexeme bound c) := by
  unfold lexeme
  refine (ahead_spends 0).goes.bind fun text => ?_
  split
  · exact numberLiteral_answers
  · split
    · refine skip_goes.bind fun _ => ?_
      exact ((stringBody_spends c bound "").answers fits.texts).bind fun text small => .pure small
    · split
      · refine skip_goes.bind fun _ => ?_
        exact (templateBody_answers fits bound (List.forall_mem_nil _) "").bind fun chunks within =>
          .pure within
      · split
        · exact wordLexeme_answers fits
        · exact markLexeme_answers

theorem tokens_answers (bound : Nat) {found : List Token}
    (within : ∀ token ∈ found, token.Within s) :
    Answers limit (fun tokens => ∀ token ∈ tokens, token.Within s) (tokens bound found) := by
  have ended {found : List Token} (within : ∀ token ∈ found, token.Within s)
      (position : Position) (newline : Bool) :
      ∀ token ∈ (⟨.endOfInput, position, newline⟩ :: found).reverse, token.Within s :=
    forall_mem_reversed (List.forall_mem_cons.mpr ⟨trivial, within⟩)
  induction bound generalizing found with
  | zero => exact get_goes.bind fun source => .pure (ended within _ _)
  | succ bound ih =>
      unfold tokens
      refine (skipTrivia_goes _ _).bind fun newline => get_goes.bind fun start => ?_
      split
      · exact .pure (ended within _ _)
      · next c _ _ =>
        exact (lexeme_answers fits _ c).bind fun lexeme good =>
          ih (List.forall_mem_cons.mpr ⟨good, within⟩)

end Scan

/-- The texts of tokens are no larger than the text that they are cut from. -/
theorem tokenizeAt_within {s : Spelling} {text : String} {start : Position} {tokens : List Token}
    (names : ∀ name, s.name name)
    (texts : ∀ part : String, part.utf8ByteSize ≤ text.utf8ByteSize → s.text part)
    (sources : ∀ (part : String) (place : Position), part.utf8ByteSize ≤ text.utf8ByteSize →
      s.source part place)
    (cut : tokenizeAt text start = .ok tokens) : ∀ token ∈ tokens, token.Within s := by
  have small : (⟨text.toList, start⟩ : Source).bytes ≤ text.utf8ByteSize :=
    Nat.le_of_eq (String.utf8Len_toList text)
  have answers := Scan.tokens_answers ⟨names, texts, sources⟩ (text.toList.length + 1)
    (List.forall_mem_nil (Token.Within s))
  change (Scan.tokens (text.toList.length + 1) [] ⟨text.toList, start⟩).map Prod.fst = .ok tokens
    at cut
  cases ran : Scan.tokens (text.toList.length + 1) [] ⟨text.toList, start⟩ with
  | error error =>
      rw [ran] at cut
      cases cut
  | ok after =>
      rw [ran] at cut
      cases cut
      exact (answers _ after.1 after.2 small ran).1

end StrategyQubo.Script
