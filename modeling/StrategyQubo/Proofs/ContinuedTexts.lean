import StrategyQubo.Proofs.HoleScans

namespace StrategyQubo.Script

/-! # Texts that go on behind a semicolon

A text without comments whose last character is a semicolon has that as its last
token, and more text behind it only adds tokens.
-/

open Scan

namespace Scan

/-! ## What lexemes end in -/

/-- The stretch ends in the character. -/
def EndsIn (c : Char) (used : List Char) : Prop :=
  used.getLast? = some c

theorem EndsIn.behind {c : Char} {more : List Char} (ends : EndsIn c more) (used : List Char) :
    EndsIn c (used ++ more) := by
  rw [EndsIn, List.getLast?_append, ends]
  rfl

theorem EndsIn.of_append {c : Char} {used more : List Char} (ends : EndsIn c (used ++ more))
    (some : more ≠ []) : EndsIn c more := by
  rw [EndsIn, List.getLast?_append] at ends
  cases last : more.getLast? with
  | none => exact absurd (List.getLast?_eq_none_iff.mp last) some
  | some d =>
      rw [last] at ends
      exact last.trans ends

theorem Steady.takes {α : Type} {same : α → α → Prop} {scan scan' : Scan α}
    (steady : Steady [] same scan scan') : Takes (fun _ _ => True) scan := by
  intro s a t ran
  obtain ⟨used, split, -⟩ := steady s.rest s.position a t ran
  exact ⟨used, split, trivial⟩

theorem stringBody_ends (quote : Char) (bound : Nat) (text : String) :
    Takes (fun _ used => EndsIn quote used) (stringBody quote bound text) := by
  induction bound generalizing text with
  | zero => exact fail_takes _
  | succ bound ih =>
      unfold stringBody
      refine take_takes (fail_takes _) fun c => ?_
      dsimp only
      split
      · next closes => exact pure_takes (congrArg some closes)
      · split
        · refine look_takes (fun _ => rfl) fun s => ?_
          split
          · exact (skip_steady.takes.bind fun _ used _ => (ih text).mono fun _ more ends =>
              (ends.behind used).behind [c]) s
          · exact (escape_steady.takes.bind fun decoded used _ => (ih _).mono fun _ more ends =>
              (ends.behind used).behind [c]) s
        · split
          · exact fail_takes _
          · exact (ih _).mono fun _ more ends => ends.behind [c]

theorem templateBody_ends (bound : Nat) (chunks : List Chunk) (text : String) :
    Takes (fun _ used => EndsIn '\x60' used) (templateBody bound chunks text) := by
  induction bound generalizing chunks text with
  | zero => exact fail_takes _
  | succ bound ih =>
      unfold templateBody
      refine take_takes (fail_takes _) fun c => ?_
      dsimp only
      split
      · next closes => exact pure_takes (congrArg some closes)
      · split
        · exact escape_steady.takes.bind fun decoded used _ => (ih _ _).mono fun _ more ends =>
            (ends.behind used).behind [c]
        · refine look_takes (fun _ => rfl) fun s => ?_
          split
          · have hole : Takes (fun _ used => EndsIn '\x60' used) (do
                skip
                let start := (← get).position
                let source ← holeBody bound 0 ""
                templateBody bound (.code source start :: flushText chunks text) "") :=
              skip_steady.takes.bind fun _ used _ => look_takes (fun _ => rfl) fun s =>
                ((holeBody_steady (Nat.le_refl _) 0 "").takes.bind fun source more _ =>
                  (ih _ _).mono fun _ last ends => (ends.behind more).behind used) s
            exact hole.mono (fun _ more ends => ends.behind ['$']) s
          · exact (ih _ _).mono (fun _ more ends => ends.behind [_]) s

theorem not_wordy_semicolon : ¬ Wordy ';' := by
  rintro (continues | digit | numerical)
  · exact absurd continues (by decide +kernel)
  · cases digit
  · simp [Numerical] at numerical

theorem not_wordy_of_ends {text : List Char} (ends : EndsIn ';' text) :
    ¬ ∀ c ∈ text, Wordy c :=
  fun wordy => not_wordy_semicolon (wordy ';' (List.mem_of_getLast? ends))

theorem rest_of_mark {mark : Mark} {c : Char} {rest : List Char}
    (spelled : c :: rest = mark.spelling.toList) (ends : EndsIn ';' (c :: rest)) : rest = [] := by
  rw [EndsIn, spelled] at ends
  cases mark <;> first | exact (List.cons.inj spelled).2 | exact absurd ends (by decide)

/-- Only the semicolon itself ends in a semicolon. -/
theorem lexeme_last {bound : Nat} {c : Char} {rest : List Char} {place : Position} {read : Lexeme}
    {t : Source} (cut : lexeme bound c ⟨c :: rest, place⟩ = .ok (read, t)) (all : t.rest = [])
    (ends : EndsIn ';' (c :: rest)) : rest = [] := by
  have quoted {quote : Char} (other : quote ≠ ';') {used : List Char} {s : Source}
      (split : rest = used ++ s.rest) (none : s.rest = []) (closes : EndsIn quote used) : False := by
    rw [none, List.append_nil] at split
    subst split
    exact other (Option.some.inj ((closes.behind [c]).symm.trans ends))
  unfold lexeme at cut
  rw [StateT.bind_ok (show ahead ⟨c :: rest, place⟩ = .ok (c :: rest, ⟨c :: rest, place⟩) from rfl)]
    at cut
  have skipped : skip ⟨c :: rest, place⟩ = .ok ((), ⟨rest, place.step c⟩) := rfl
  split at cut
  · obtain ⟨used, split, wordy⟩ := numberLiteral_takes _ _ _ cut
    rw [all, List.append_nil] at split
    obtain rfl : c :: rest = used := split
    exact absurd wordy (not_wordy_of_ends ends)
  · split at cut
    · next quote =>
      rw [StateT.bind_ok skipped] at cut
      obtain ⟨text, s, body, cut⟩ := StateT.exists_of_bind_ok cut
      cases cut
      obtain ⟨used, split, closes⟩ := stringBody_ends c bound "" _ _ _ body
      exact (quoted (by rcases quote with rfl | rfl <;> decide) split all closes).elim
    · split at cut
      · rw [StateT.bind_ok skipped] at cut
        obtain ⟨chunks, s, body, cut⟩ := StateT.exists_of_bind_ok cut
        cases cut
        obtain ⟨used, split, closes⟩ := templateBody_ends bound [] "" _ _ _ body
        exact (quoted (by decide) split all closes).elim
      · split at cut
        · obtain ⟨used, split, wordy⟩ := wordLexeme_takes _ _ _ cut
          rw [all, List.append_nil] at split
          obtain rfl : c :: rest = used := split
          exact absurd wordy (not_wordy_of_ends ends)
        · rw [markLexeme_run] at cut
          cases found : markAt? (c :: rest) with
          | none =>
              rw [found] at cut
              cases cut
          | some mark =>
              have split := markAt?_split found
              rw [found] at cut
              cases cut
              dsimp only at all
              rw [all, List.append_nil] at split
              exact rest_of_mark split ends

theorem lexeme_semicolon (bound : Nat) (rest : List Char) (place : Position) :
    lexeme bound ';' ⟨';' :: rest, place⟩ = .ok (.mark .semicolon, ⟨rest, place.step ';'⟩) := by
  rfl

/-! ## Layouts that go on -/

def Piece.isComment : Piece → Bool
  | .comment _ => true
  | .lexeme .. => false

/-- Without comments, only blanks stand between lexemes. -/
theorem Gap.blanks {newline ended : Bool} {s t : Source} (gap : Gap newline s [] ended t) :
    ∃ used, s.rest = used ++ t.rest ∧ ∀ c ∈ used, Text.isBlank c = true := by
  generalize none : ([] : List (List Char)) = comments at gap
  induction gap with
  | stop => exact ⟨[], rfl, List.forall_mem_nil _⟩
  | blank blank _ ih =>
      obtain ⟨used, split, blanks⟩ := ih none
      exact ⟨_ :: used, congrArg _ split, List.forall_mem_cons.mpr ⟨blank, blanks⟩⟩
  | line => cases none
  | block => cases none

theorem not_blank_semicolon : Text.isBlank ';' = false :=
  isBlank_of_ascii (by decide) (by decide)

/-- Blanks do not end in a semicolon. -/
theorem Gap.rest_ne_nil {newline ended : Bool} {s t : Source} (gap : Gap newline s [] ended t)
    (ends : EndsIn ';' s.rest) : EndsIn ';' t.rest := by
  obtain ⟨used, split, blanks⟩ := gap.blanks
  rw [split] at ends
  refine ends.of_append fun none => ?_
  rw [none, List.append_nil] at ends
  have blank := blanks ';' (List.mem_of_getLast? ends)
  rw [not_blank_semicolon] at blank
  cases blank

theorem comments_eq_nil {comments : List (List Char)} (pieces : List Piece)
    (plain : ∀ piece ∈ comments.map Piece.comment ++ pieces, piece.isComment = false) :
    comments = [] := by
  cases comments with
  | nil => rfl
  | cons comment comments => cases plain (.comment comment) (by simp)

theorem Layout.alone {bound : Nat} {s : Source} {pieces : List Piece} {tokens : List Token}
    (layout : Layout bound s pieces tokens) (none : s.rest = []) :
    ∃ last, tokens = [last] ∧ last.lexeme = .endOfInput := by
  cases layout with
  | finish => exact ⟨_, rfl, rfl⟩
  | lexeme gap head =>
      obtain ⟨used, split, -⟩ := gap.takes []
      rw [none, head] at split
      simp at split

/-- With more text behind its last semicolon, the text is cut into the same
    tokens, and then the rest is cut. -/
theorem Layout.goesOn {bound : Nat} {text : List Char} {place : Position} {pieces : List Piece}
    {tokens : List Token} (layout : Layout bound ⟨text, place⟩ pieces tokens)
    (plain : ∀ piece ∈ pieces, piece.isComment = false) (ends : EndsIn ';' text)
    {tail : List Char} {extra : Nat} (enough : text.length < bound) (room : tail.length ≤ extra)
    (place' : Position) :
    ∃ row semicolon last row' semicolon' place'' spare, tokens = row ++ [semicolon, last] ∧
      semicolon.lexeme = .mark .semicolon ∧ last.lexeme = .endOfInput ∧
      List.Forall₂ Token.Alike row row' ∧ Token.Alike semicolon semicolon' ∧
      ∀ found, Scan.tokens (bound + extra) found ⟨text ++ tail, place'⟩ =
        Scan.tokens (spare + extra) (semicolon' :: (row'.reverse ++ found)) ⟨tail, place''⟩ := by
  generalize begins : (⟨text, place⟩ : Source) = s at layout
  induction layout generalizing text place place' with
  | @finish bound newline s t comments gap ended =>
      cases begins
      obtain rfl := comments_eq_nil [] (by simpa using plain)
      have last := gap.rest_ne_nil ends
      rw [ended] at last
      cases last
  | @lexeme bound newline c rest written s t u comments read pieces tokens gap head cut whole later ih =>
      cases begins
      obtain rfl := comments_eq_nil _ plain
      have last := gap.rest_ne_nil ends
      obtain ⟨used, split, position, follows⟩ := gap.takes tail
      have there := follows (.inr last) place'
      obtain ⟨front, reachedPlace⟩ := t
      obtain rfl : front = c :: rest := head
      have fits : (text ++ tail).length < bound + extra + 1 := by
        rw [List.length_append]
        omega
      cases left : u.rest with
      | nil =>
          obtain rfl := lexeme_last cut left last
          obtain rfl : c = ';' := Option.some.inj last
          cases (lexeme_semicolon _ _ _).symm.trans cut
          obtain ⟨last, alone, ended⟩ := later.alone rfl
          refine ⟨[], _, last, [], ⟨.mark .semicolon, place'.after used, newline⟩,
            (place'.after used).step ';', bound, congrArg _ alone, rfl, ended, .nil, ⟨.refl _, rfl⟩, fun found => ?_⟩
          rw [Nat.add_right_comm]
          exact tokens_turn there fits rfl (lexeme_semicolon _ _ _) found
      | cons d more =>
          obtain ⟨written', whole', position', follows'⟩ := lexeme_steady tail
            (show bound + 1 ≤ bound + extra + 1 by omega) c _ _ _ _ cut
          have ends' : EndsIn ';' u.rest := by
            rw [whole] at last
            exact last.of_append (left ▸ List.cons_ne_nil d more)
          obtain ⟨read', cut', alike⟩ := follows' (.inr ends') (place'.after used)
          have fewer : u.rest.length < bound := by
            have shorter := lexeme_shortens cut
            have whole := congrArg List.length split
            rw [List.length_append] at whole
            dsimp only at whole
            omega
          obtain ⟨row, semicolon, last, row', semicolon', place'', spare, all, spelled, ended, alikes,
            alike', ran⟩ := ih (List.forall_mem_cons.mp plain).2 ends' fewer
              ((place'.after used).after written') rfl
          refine ⟨_ :: row, semicolon, last, ⟨read', place'.after used, newline⟩ :: row', semicolon', place'',
            spare, congrArg _ all, spelled, ended, .cons ⟨alike, rfl⟩ alikes, alike', fun found => ?_⟩
          rw [Nat.add_right_comm, tokens_turn there fits rfl cut' found, ran, List.reverse_cons,
            List.append_assoc]
          rfl

end Scan

end StrategyQubo.Script
