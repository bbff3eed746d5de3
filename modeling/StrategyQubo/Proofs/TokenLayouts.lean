import StrategyQubo.Proofs.SteadyScans
import StrategyQubo.Proofs.TokenSizes

namespace StrategyQubo.Script

/-! # How a text is laid out

A text that can be cut is a row of gaps and lexemes.  Its layout is the same at
every place, and a longer text goes on from the layout of its front.
-/

namespace Scan

variable {tail : List Char}

/-! ## Comments -/

/-- A block comment takes characters up to its end, wherever it stands and
    whatever follows. -/
theorem closeComment_takes {text : List Char} {place : Position} {newline ended : Bool}
    {t : Source} (ran : closeComment text place newline = .ok (ended, t)) :
    ∃ used, text = used ++ t.rest ∧ t.position = place.after used ∧
      ∀ tail place', closeComment (text ++ tail) place' newline =
        .ok (ended, ⟨t.rest ++ tail, place'.after used⟩) := by
  fun_induction closeComment text place newline with
  | case1 => cases ran
  | case2 rest place newline =>
      cases ran
      exact ⟨['*', '/'], rfl, rfl, fun _ _ => rfl⟩
  | case3 c rest place newline other ih =>
      obtain ⟨used, split, position, follows⟩ := ih ran
      refine ⟨c :: used, congrArg _ split, position, fun tail place' => ?_⟩
      have goesOn : ∀ more, c = '*' → rest ++ tail = '/' :: more → False := by
        intro more star same
        cases rest with
        | nil => cases ran
        | cons d rest => exact other rest star (congrArg (· :: rest) (List.cons.inj same).1)
      rw [List.cons_append, Position.after_cons, ← follows tail (place'.step c)]
      rw [closeComment]
      exact goesOn

/-! ## Gaps -/

/-- No blank and no comment begins the text. -/
structure Stops (text : List Char) : Prop where
  noBlank : ∀ c ∈ text.head?, Text.isBlank c = false
  noLine : ¬ ['/', '/'] <+: text
  noBlock : ¬ ['/', '*'] <+: text

theorem isBlank_slash : Text.isBlank '/' = false :=
  isBlank_of_ascii (by decide) (by decide)

theorem stops_cases (text : List Char) :
    Stops text ∨ (∃ c rest, text = c :: rest ∧ Text.isBlank c = true) ∨
      (∃ rest, text = '/' :: '/' :: rest) ∨ ∃ rest, text = '/' :: '*' :: rest := by
  by_cases line : ['/', '/'] <+: text
  · obtain ⟨rest, rfl⟩ := line
    exact .inr (.inr (.inl ⟨rest, rfl⟩))
  · by_cases block : ['/', '*'] <+: text
    · obtain ⟨rest, rfl⟩ := block
      exact .inr (.inr (.inr ⟨rest, rfl⟩))
    · cases text with
      | nil => exact .inl ⟨nofun, line, block⟩
      | cons c rest =>
          cases blank : Text.isBlank c with
          | true => exact .inr (.inl ⟨c, rest, rfl, blank⟩)
          | false =>
              refine .inl ⟨?_, line, block⟩
              rintro d ⟨⟩
              exact blank

theorem Stops.append {text : List Char} (stops : Stops text) (parted : Parted text tail) :
    Stops (text ++ tail) := by
  rcases parted with rfl | last
  · rwa [List.append_nil]
  · match text with
    | [c] =>
        obtain rfl := Option.some.inj last
        refine ⟨?_, by simp, by simp⟩
        rintro c ⟨⟩
        exact isBlank_of_ascii (by decide) (by decide)
    | c :: d :: rest =>
        obtain ⟨noBlank, noLine, noBlock⟩ := stops
        refine ⟨noBlank, ?_, ?_⟩
        · simpa using noLine
        · simpa using noBlock

/-- Blanks and comments up to what stops them, with the comments as they are
    written, and whether a line ended in them. -/
inductive Gap : Bool → Source → List (List Char) → Bool → Source → Prop where
  | stop {newline : Bool} {s : Source} : Stops s.rest → Gap newline s [] newline s
  | blank {newline ended : Bool} {c : Char} {rest : List Char} {place : Position}
      {comments : List (List Char)} {t : Source} :
      Text.isBlank c = true → Gap (newline || c == '\n') ⟨rest, place.step c⟩ comments ended t →
      Gap newline ⟨c :: rest, place⟩ comments ended t
  | line {newline ended : Bool} {comment rest : List Char} {place : Position}
      {comments : List (List Char)} {t : Source} :
      (∀ c ∈ comment, (c != '\n') = true) → (∀ c ∈ rest.head?, (c != '\n') = false) →
      Gap newline ⟨rest, place.after ('/' :: '/' :: comment)⟩ comments ended t →
      Gap newline ⟨'/' :: '/' :: (comment ++ rest), place⟩
        (('/' :: '/' :: comment) :: comments) ended t
  | block {newline ended reached : Bool} {used rest : List Char} {place : Position}
      {comments : List (List Char)} {t : Source} :
      closeComment (used ++ rest) (place.after ['/', '*']) newline =
        .ok (reached, ⟨rest, place.after ('/' :: '*' :: used)⟩) →
      Gap reached ⟨rest, place.after ('/' :: '*' :: used)⟩ comments ended t →
      Gap newline ⟨'/' :: '*' :: (used ++ rest), place⟩
        (('/' :: '*' :: used) :: comments) ended t

theorem skipTrivia_stop {s : Source} (stops : Stops s.rest) (bound : Nat) (newline : Bool) :
    skipTrivia bound newline s = .ok (newline, s) := by
  obtain ⟨text, place⟩ := s
  obtain ⟨noBlank, noLine, noBlock⟩ := stops
  cases bound with
  | zero => rfl
  | succ bound =>
      rw [skipTrivia, StateT.bind_ok (show ahead ⟨text, place⟩ = .ok (text, ⟨text, place⟩) from rfl)]
      split
      · exact absurd ⟨_, rfl⟩ noLine
      · exact absurd ⟨_, rfl⟩ noBlock
      · next c rest _ _ =>
        rw [if_neg (by rw [noBlank c rfl]; decide)]
        rfl
      · rfl

theorem skipTrivia_blank {c : Char} {rest : List Char} (blank : Text.isBlank c = true)
    (bound : Nat) (newline : Bool) (place : Position) :
    skipTrivia (bound + 1) newline ⟨c :: rest, place⟩ =
      skipTrivia bound (newline || c == '\n') ⟨rest, place.step c⟩ := by
  have visible : c ≠ '/' := by
    rintro rfl
    exact Bool.false_ne_true (isBlank_slash.symm.trans blank)
  rw [skipTrivia_cons visible, if_pos blank]

theorem skipTrivia_line (rest : List Char) (bound : Nat) (newline : Bool) (place : Position) :
    skipTrivia (bound + 1) newline ⟨'/' :: '/' :: rest, place⟩ =
      skipTrivia bound newline ⟨rest.dropWhile (· != '\n'),
        place.after ('/' :: '/' :: rest.takeWhile (· != '\n'))⟩ :=
  rfl

theorem skipTrivia_block {rest : List Char} {newline reached : Bool} {place : Position}
    {t : Source}
    (closes : closeComment rest (place.after ['/', '*']) newline = .ok (reached, t))
    (bound : Nat) :
    skipTrivia (bound + 1) newline ⟨'/' :: '*' :: rest, place⟩ = skipTrivia bound reached t := by
  change (closeComment rest (place.after ['/', '*']) newline >>= fun after =>
    skipTrivia bound after.1 after.2) = _
  rw [closes]
  rfl

theorem takeWhile_line {comment rest : List Char}
    (line : ∀ c ∈ comment, (c != '\n') = true) (ends : ∀ c ∈ rest.head?, (c != '\n') = false) :
    (comment ++ rest).takeWhile (· != '\n') = comment ∧
      (comment ++ rest).dropWhile (· != '\n') = rest := by
  have stopped : rest.takeWhile (· != '\n') = [] ∧ rest.dropWhile (· != '\n') = rest := by
    cases rest with
    | nil => exact ⟨rfl, rfl⟩
    | cons c rest =>
        have stop := ends c rfl
        simp [stop]
  rw [List.takeWhile_append_of_pos line, List.dropWhile_append_of_pos line, stopped.1, stopped.2,
    List.append_nil]
  exact ⟨rfl, rfl⟩

theorem gap_of_skipTrivia {bound : Nat} {newline ended : Bool} {s t : Source}
    (enough : s.rest.length < bound) (ran : skipTrivia bound newline s = .ok (ended, t)) :
    ∃ comments, Gap newline s comments ended t := by
  obtain ⟨text, place⟩ := s
  induction bound generalizing newline text place with
  | zero => exact absurd enough (Nat.not_lt_zero _)
  | succ bound ih =>
      rcases stops_cases text with stops | ⟨c, rest, rfl, blank⟩ | ⟨rest, rfl⟩ | ⟨rest, rfl⟩
      · rw [skipTrivia_stop stops] at ran
        cases ran
        exact ⟨[], .stop stops⟩
      · rw [skipTrivia_blank blank] at ran
        obtain ⟨comments, gap⟩ := ih _ _ (Nat.lt_of_succ_lt_succ enough) ran
        exact ⟨comments, .blank blank gap⟩
      · rw [skipTrivia_line] at ran
        have shorter := List.length_dropWhile_le (· != '\n') rest
        simp only [List.length_cons] at enough
        obtain ⟨comments, gap⟩ := ih _ _ (by dsimp only; omega) ran
        have line := Gap.line (fun c member => List.mem_takeWhile_imp (p := (· != '\n')) member)
          (fun c first => ?_) gap
        · rw [List.takeWhile_append_dropWhile] at line
          exact ⟨_, line⟩
        · have stop := List.head?_dropWhile_not (· != '\n') rest
          rw [first] at stop
          exact stop
      · cases closes : closeComment rest (place.after ['/', '*']) newline with
        | error fault =>
            change (closeComment rest (place.after ['/', '*']) newline >>= fun after =>
              skipTrivia bound after.1 after.2) = _ at ran
            rw [closes] at ran
            cases ran
        | ok after =>
            obtain ⟨reached, left, position⟩ := after
            rw [skipTrivia_block closes] at ran
            obtain ⟨used, rfl, rfl, -⟩ := closeComment_takes closes
            simp only [List.length_cons, List.length_append] at enough
            obtain ⟨comments, gap⟩ := ih _ _ (by dsimp only; omega) ran
            exact ⟨_, .block closes gap⟩

theorem Gap.skipTrivia_eq {newline ended : Bool} {s t : Source} {comments : List (List Char)}
    (gap : Gap newline s comments ended t) {bound : Nat} (enough : s.rest.length < bound) :
    skipTrivia bound newline s = .ok (ended, t) := by
  induction gap generalizing bound with
  | stop stops => exact skipTrivia_stop stops bound _
  | blank blank _ ih =>
      obtain ⟨bound, rfl, fewer⟩ := exists_pred enough
      rw [skipTrivia_blank blank]
      exact ih fewer
  | @line newline ended comment rest place comments t line ends _ ih =>
      obtain ⟨bound, rfl, fewer⟩ := exists_pred enough
      obtain ⟨taken, left⟩ := takeWhile_line line ends
      rw [skipTrivia_line, taken, left]
      simp only [List.length_cons, List.length_append] at fewer
      exact ih (by dsimp only; omega)
  | @block newline ended reached used rest place comments t closes _ ih =>
      obtain ⟨bound, rfl, fewer⟩ := exists_pred enough
      rw [skipTrivia_block closes]
      simp only [List.length_cons, List.length_append] at fewer
      exact ih (by dsimp only; omega)

/-- A gap takes characters from the front, and the same ones elsewhere. -/
theorem Gap.takes (tail : List Char) {newline ended : Bool} {s t : Source} {comments : List (List Char)}
    (gap : Gap newline s comments ended t) :
    ∃ used, s.rest = used ++ t.rest ∧ t.position = s.position.after used ∧
      (Parted t.rest tail → ∀ place', Gap newline ⟨s.rest ++ tail, place'⟩ comments ended
        ⟨t.rest ++ tail, place'.after used⟩) := by
  induction gap with
  | stop stops => exact ⟨[], rfl, rfl, fun parted _ => .stop (stops.append parted)⟩
  | @blank newline ended c rest place comments t blank _ ih =>
      obtain ⟨used, split, position, follows⟩ := ih
      exact ⟨c :: used, congrArg _ split, position, fun parted place' =>
        .blank blank (follows parted _)⟩
  | @line newline ended comment rest place comments t line ends _ ih =>
      obtain ⟨used, split, position, follows⟩ := ih
      dsimp only at split position follows
      refine ⟨'/' :: '/' :: comment ++ used, by simp [split], ?_, fun parted place' => ?_⟩
      · rw [position, Position.after_append]
      · have goesOn := follows parted (place'.after ('/' :: '/' :: comment))
        rw [← Position.after_append] at goesOn
        have whole : Gap newline ⟨_, place'⟩ _ _ _ := Gap.line line ?_ goesOn
        · rwa [← List.append_assoc] at whole
        · rcases split ▸ parted.append used with rfl | last
          · rwa [List.append_nil]
          · cases rest with
            | nil => cases last
            | cons c rest => exact ends
  | @block newline ended reached used rest place comments t closes _ ih =>
      obtain ⟨more, split, position, follows⟩ := ih
      dsimp only at split position follows
      obtain ⟨used', same, -, anywhere⟩ := closeComment_takes closes
      obtain rfl := List.append_cancel_right same
      refine ⟨'/' :: '*' :: used ++ more, by simp [split], ?_, fun parted place' => ?_⟩
      · rw [position, Position.after_append]
      · have goesOn := follows parted (place'.after ('/' :: '*' :: used))
        rw [← Position.after_append] at goesOn
        have there := anywhere tail (place'.after ['/', '*'])
        rw [List.append_assoc] at there
        have whole := Gap.block there goesOn
        rwa [← List.append_assoc] at whole

/-! ## Progress -/

/-- What a steady scanner leaves is no longer than what it was given. -/
theorem Steady.shortens {α : Type} {same : α → α → Prop} {scan scan' : Scan α}
    (steady : Steady [] same scan scan') {s t : Source} {a : α} (ran : scan s = .ok (a, t)) :
    t.rest.length ≤ s.rest.length := by
  obtain ⟨used, split, -⟩ := steady s.rest s.position a t ran
  rw [split, List.length_append]
  exact Nat.le_add_left ..

theorem Steady.shortens_skip {α : Type} (same : α → α → Prop) {later : Scan α}
    (steady : Steady [] same later later) {c : Char} {rest : List Char} {place : Position}
    {a : α} {t : Source} (ran : (skip >>= fun _ => later) ⟨c :: rest, place⟩ = .ok (a, t)) :
    t.rest.length < (c :: rest).length :=
  Nat.lt_succ_of_le (steady.shortens (s := ⟨rest, place.step c⟩) ran)

theorem spanNumeral?_of_startsNumber {text : List Char} (starts : startsNumber text = true) :
    ∃ n rest, Number.spanNumeral? text = some (n, rest) := by
  cases text with
  | nil => cases starts
  | cons c rest =>
      by_cases point : c = '.'
      · subst point
        cases rest with
        | nil => cases starts
        | cons d rest =>
            have digit : d.isDigit = true := by simpa [startsNumber] using starts
            simp [Number.spanNumeral?, Number.spanDigits, digit]
      · have digit : c.isDigit = true := by simpa [startsNumber, point] using starts
        simp [Number.spanNumeral?, Number.spanDigits, digit]

theorem hexNumberLiteral_shortens {c : Char} {rest : List Char} {place : Position} {read : Lexeme}
    {t : Source} (ran : hexNumberLiteral ⟨c :: rest, place⟩ = .ok (read, t)) :
    t.rest.length < (c :: rest).length := by
  refine Steady.shortens_skip Eq (skip_steady.behind fun _ =>
    (takeWhile_steady Number.isHexDigit).behind fun digits => ?_) ran
  split
  · exact .pure rfl
  · exact fail_steady _

theorem decimalLiteral_shortens {s t : Source} {read : Lexeme}
    (starts : startsNumber s.rest = true) (ran : decimalLiteral s = .ok (read, t)) :
    t.rest.length < s.rest.length := by
  obtain ⟨n, rest, found⟩ := spanNumeral?_of_startsNumber starts
  obtain ⟨used, nonempty, spans⟩ := spanNumeral?_spans found
  simp only [decimalLiteral_run, found] at ran
  split at ran
  · cases ran
  · cases ran
    have positive := List.length_pos_iff.mpr nonempty
    rw [spans.split, List.length_append]
    exact Nat.lt_add_of_pos_left positive

theorem numberLiteral_shortens {s t : Source} {read : Lexeme}
    (starts : startsNumber s.rest = true) (ran : numberLiteral s = .ok (read, t)) :
    t.rest.length < s.rest.length := by
  obtain ⟨text, place⟩ := s
  unfold numberLiteral at ran
  rw [StateT.bind_ok (show ahead ⟨text, place⟩ = .ok (text, ⟨text, place⟩) from rfl)] at ran
  split at ran
  · exact hexNumberLiteral_shortens ran
  · exact hexNumberLiteral_shortens ran
  · exact decimalLiteral_shortens starts ran

theorem wordLexeme_shortens {c : Char} {rest : List Char} {place : Position} {read : Lexeme}
    {t : Source} (starts : startsIdentifier c = true)
    (ran : wordLexeme ⟨c :: rest, place⟩ = .ok (read, t)) : t.rest.length < (c :: rest).length := by
  have continues : continuesIdentifier c = true := by
    simp only [startsIdentifier, continuesIdentifier, Text.isLetterOrNumeral, Bool.or_eq_true]
      at starts ⊢
    exact starts.imp_right .inl
  unfold wordLexeme at ran
  obtain ⟨word, s, taken, ran⟩ := StateT.exists_of_bind_ok ran
  have left : t.rest = (c :: rest).dropWhile continuesIdentifier := by
    cases taken
    dsimp only at ran
    cases found : Keyword.ofSpelling? (String.ofList ((c :: rest).takeWhile continuesIdentifier)) <;>
      simp only [found] at ran <;> cases ran <;> rfl
  rw [left, List.dropWhile_cons_of_pos continues]
  exact Nat.lt_succ_of_le (List.length_dropWhile_le ..)

theorem markLexeme_shortens {s t : Source} {read : Lexeme} (ran : markLexeme s = .ok (read, t)) :
    t.rest.length < s.rest.length := by
  have spelled : ∀ mark ∈ Mark.all, 0 < mark.spelling.length := by decide
  rw [markLexeme_run] at ran
  cases found : markAt? s.rest with
  | none =>
      rw [found] at ran
      cases ran
  | some mark =>
      rw [found] at ran
      cases ran
      have positive := spelled mark (List.mem_of_find?_eq_some found)
      conv => rhs; rw [markAt?_split found, List.length_append, String.length_toList]
      exact Nat.lt_add_of_pos_left positive

/-- Every lexeme takes a character. -/
theorem lexeme_shortens {bound : Nat} {c : Char} {rest : List Char} {place : Position}
    {read : Lexeme} {t : Source} (ran : lexeme bound c ⟨c :: rest, place⟩ = .ok (read, t)) :
    t.rest.length < (c :: rest).length := by
  unfold lexeme at ran
  rw [StateT.bind_ok (show ahead ⟨c :: rest, place⟩ = .ok (c :: rest, ⟨c :: rest, place⟩) from rfl)]
    at ran
  split at ran
  · next starts => exact numberLiteral_shortens starts ran
  · split at ran
    · exact Steady.shortens_skip Eq
        ((stringBody_steady c (Nat.le_refl bound) "").behind fun text => .pure rfl) ran
    · split at ran
      · exact Steady.shortens_skip Lexeme.Alike
          ((templateBody_steady (Nat.le_refl bound) .nil "").bind chunks_refl
            fun chunks chunks' alike => .pure (.template alike)) ran
      · split at ran
        · next starts => exact wordLexeme_shortens starts ran
        · exact markLexeme_shortens ran

/-! ## Layouts -/

/-- A stretch of a text as it is written, blanks apart. -/
inductive Piece where
  | comment (written : List Char)
  | lexeme (read : Lexeme) (written : List Char)

/-- The pieces of a source and the tokens that it is cut into in that many
    turns. -/
inductive Layout : Nat → Source → List Piece → List Token → Prop where
  | finish {bound : Nat} {newline : Bool} {s t : Source} {comments : List (List Char)} :
      Gap false s comments newline t → t.rest = [] →
      Layout (bound + 1) s (comments.map .comment) [⟨.endOfInput, t.position, newline⟩]
  | lexeme {bound : Nat} {newline : Bool} {c : Char} {rest written : List Char} {s t u : Source}
      {comments : List (List Char)} {read : Lexeme} {pieces : List Piece} {tokens : List Token} :
      Gap false s comments newline t → t.rest = c :: rest →
      lexeme (bound + 1) c t = .ok (read, u) → t.rest = written ++ u.rest →
      Layout bound u pieces tokens →
      Layout (bound + 1) s (comments.map .comment ++ .lexeme read written :: pieces)
        (⟨read, t.position, newline⟩ :: tokens)

theorem layout_of_tokens {bound : Nat} {found all : List Token} {s s' : Source}
    (enough : s.rest.length < bound) (ran : tokens bound found s = .ok (all, s')) :
    ∃ pieces tokens, Layout bound s pieces tokens ∧ all = found.reverse ++ tokens := by
  induction bound generalizing found s with
  | zero => exact absurd enough (Nat.not_lt_zero _)
  | succ bound ih =>
      unfold tokens at ran
      obtain ⟨newline, t, skipped, ran⟩ := StateT.exists_of_bind_ok ran
      obtain ⟨comments, gap⟩ := gap_of_skipTrivia enough skipped
      rw [StateT.bind_ok (show (get : Scan Source) t = .ok (t, t) from rfl)] at ran
      obtain ⟨text, place⟩ := t
      obtain ⟨used, split, -⟩ := gap.takes []
      cases text with
      | nil =>
          cases ran
          exact ⟨_, _, .finish gap rfl, List.reverse_cons⟩
      | cons c rest =>
          obtain ⟨read, u, cut, ran⟩ := StateT.exists_of_bind_ok ran
          obtain ⟨written, whole, -⟩ := lexeme_steady [] (Nat.le_refl _) c _ _ _ _ cut
          have shorter := lexeme_shortens cut
          rw [split, List.length_append] at enough
          obtain ⟨pieces, tokens, layout, rfl⟩ := ih (by dsimp only at enough; omega) ran
          refine ⟨_, _, .lexeme gap rfl cut whole layout, ?_⟩
          simp

/-- One turn of the loop, behind the gap. -/
theorem tokens_turn {bound : Nat} {newline : Bool} {c : Char} {rest : List Char} {s t u : Source}
    {comments : List (List Char)} {read : Lexeme} (gap : Gap false s comments newline t)
    (enough : s.rest.length < bound + 1) (begins : t.rest = c :: rest)
    (cut : lexeme (bound + 1) c t = .ok (read, u)) (found : List Token) :
    tokens (bound + 1) found s = tokens bound (⟨read, t.position, newline⟩ :: found) u := by
  obtain ⟨_, place⟩ := t
  cases begins
  rw [tokens, StateT.bind_ok (gap.skipTrivia_eq enough),
    StateT.bind_ok (show (get : Scan Source) _ = .ok (⟨c :: rest, place⟩, _) from rfl)]
  exact StateT.bind_ok cut

theorem Layout.tokens_eq {bound : Nat} {s : Source} {pieces : List Piece} {tokens : List Token}
    (layout : Layout bound s pieces tokens) (enough : s.rest.length < bound)
    (found : List Token) : ∃ s', Scan.tokens bound found s = .ok (found.reverse ++ tokens, s') := by
  induction layout generalizing found with
  | @finish bound newline s t comments gap ended =>
      obtain ⟨_, place⟩ := t
      cases ended
      rw [Scan.tokens, StateT.bind_ok (gap.skipTrivia_eq enough)]
      exact ⟨⟨[], place⟩, congrArg (fun all => Except.ok (all, (⟨[], place⟩ : Source)))
        List.reverse_cons⟩
  | @lexeme bound newline c rest written s t u comments read pieces tokens gap begins cut whole _ ih =>
      obtain ⟨used, split, -⟩ := gap.takes []
      have shorter : u.rest.length < t.rest.length := by
        obtain ⟨_, place⟩ := t
        cases begins
        exact lexeme_shortens cut
      have fewer : u.rest.length < bound := by
        rw [split, List.length_append] at enough
        omega
      obtain ⟨s', ran⟩ := ih fewer (⟨read, t.position, newline⟩ :: found)
      refine ⟨s', ?_⟩
      rw [tokens_turn gap enough begins cut, ran]
      simp

/-! ## The same text elsewhere -/

end Scan

/-- The same token of the text at two places, equally far from where the text
    begins. -/
structure Token.Moved (text : List Char) (place place' : Position) (token token' : Token) :
    Prop where
  alike : Token.Alike token token'
  reached : ∃ before after, text = before ++ after ∧ token.position = place.after before ∧
    token'.position = place'.after before

theorem Token.Moved.behind {used text : List Char} {place place' : Position}
    {token token' : Token}
    (moved : Token.Moved text (place.after used) (place'.after used) token token') :
    Token.Moved (used ++ text) place place' token token' := by
  obtain ⟨alike, before, after, rfl, position, position'⟩ := moved
  refine ⟨alike, used ++ before, after, (List.append_assoc ..).symm, ?_, ?_⟩
  · rw [position, Position.after_append]
  · rw [position', Position.after_append]

theorem Scan.Layout.elsewhere {bound : Nat} {text : List Char} {place : Position}
    {pieces : List Piece} {tokens : List Token} (layout : Layout bound ⟨text, place⟩ pieces tokens)
    (place' : Position) :
    ∃ pieces' tokens', Layout bound ⟨text, place'⟩ pieces' tokens' ∧
      List.Forall₂ (Token.Moved text place place') tokens tokens' := by
  generalize begins : (⟨text, place⟩ : Source) = s at layout
  induction layout generalizing text place place' with
  | @finish bound newline s t comments gap ended =>
      cases begins
      obtain ⟨used, split, position, follows⟩ := gap.takes []
      have there := follows (.inl rfl) place'
      simp only [List.append_nil] at there
      refine ⟨_, _, .finish there ended, .cons ⟨⟨.refl _, rfl⟩, used, t.rest, split, position, rfl⟩ .nil⟩
  | @lexeme bound newline c rest written s t u comments read pieces tokens gap head cut whole _ ih =>
      cases begins
      obtain ⟨used, split, position, follows⟩ := gap.takes []
      have there := follows (.inl rfl) place'
      obtain ⟨front, reachedPlace⟩ := t
      dsimp only at split position whole head
      subst position
      obtain ⟨written', whole', position, follows'⟩ :=
        Scan.lexeme_steady [] (Nat.le_refl _) c _ _ _ _ cut
      obtain rfl := List.append_cancel_right (whole.symm.trans whole')
      obtain ⟨read', cut', alike⟩ := follows' (.inl rfl) (place'.after used)
      obtain ⟨left, reachedPlace⟩ := u
      dsimp only at position whole cut'
      subst position
      simp only [List.append_nil] at there cut'
      obtain ⟨pieces', tokens', layout', moved⟩ := ih ((place'.after used).after written) rfl
      refine ⟨_, _, .lexeme there head cut' whole layout',
        .cons ⟨⟨alike, rfl⟩, used, front, split, rfl, rfl⟩ ?_⟩
      refine moved.imp fun token token' moved => ?_
      have behind := moved.behind.behind
      rwa [← whole, ← split] at behind

theorem exists_layout {text : String} {start : Position} {tokens : List Token}
    (cut : tokenizeAt text start = .ok tokens) :
    ∃ pieces, Scan.Layout (text.toList.length + 1) ⟨text.toList, start⟩ pieces tokens := by
  change (Scan.tokens (text.toList.length + 1) [] ⟨text.toList, start⟩).map Prod.fst = .ok tokens
    at cut
  cases ran : Scan.tokens (text.toList.length + 1) [] ⟨text.toList, start⟩ with
  | error error =>
      rw [ran] at cut
      cases cut
  | ok after =>
      rw [ran] at cut
      cases cut
      obtain ⟨pieces, tokens, layout, all⟩ := Scan.layout_of_tokens (Nat.lt_succ_self _) ran
      exact ⟨pieces, all ▸ layout⟩

theorem Scan.Layout.tokenizeAt_eq {text : String} {start : Position} {pieces : List Piece}
    {tokens : List Token}
    (layout : Layout (text.toList.length + 1) ⟨text.toList, start⟩ pieces tokens) :
    tokenizeAt text start = .ok tokens := by
  obtain ⟨s', ran⟩ := layout.tokens_eq (Nat.lt_succ_self _) []
  change (Scan.tokens (text.toList.length + 1) [] ⟨text.toList, start⟩).map Prod.fst = .ok tokens
  rw [ran]
  rfl

/-- A text is cut into the same tokens wherever it begins. -/
theorem tokenizeAt_moved {text : String} {start : Position} {tokens : List Token}
    (cut : tokenizeAt text start = .ok tokens) (start' : Position) :
    ∃ tokens', tokenizeAt text start' = .ok tokens' ∧
      List.Forall₂ (Token.Moved text.toList start start') tokens tokens' := by
  obtain ⟨pieces, layout⟩ := exists_layout cut
  obtain ⟨pieces', tokens', layout', moved⟩ := layout.elsewhere start'
  exact ⟨tokens', layout'.tokenizeAt_eq, moved⟩

/-! ## Pieces of a text -/

namespace Scan

/-- The comments in front of the first lexeme, as they are written. -/
def gapComments : Nat → Bool → List Char → List (List Char)
  | 0, _, _ => []
  | bound + 1, newline, text =>
      match text with
      | '/' :: '/' :: rest =>
          ('/' :: '/' :: rest.takeWhile (· != '\n')) ::
            gapComments bound newline (rest.dropWhile (· != '\n'))
      | '/' :: '*' :: rest =>
          match closeComment rest .start newline with
          | .ok (reached, t) =>
              ('/' :: '*' :: rest.take (rest.length - t.rest.length)) ::
                gapComments bound reached t.rest
          | .error _ => []
      | c :: rest => if Text.isBlank c then gapComments bound (newline || c == '\n') rest else []
      | [] => []

/-- The pieces of a source, as far as it can be cut. -/
def pieces : Nat → Source → List Piece
  | 0, _ => []
  | bound + 1, s =>
      (gapComments (bound + 1) false s.rest).map .comment ++
        match skipTrivia (bound + 1) false s with
        | .error _ => []
        | .ok (_, t) =>
            match t.rest with
            | [] => []
            | c :: _ =>
                match lexeme (bound + 1) c t with
                | .error _ => []
                | .ok (read, u) =>
                    .lexeme read (t.rest.take (t.rest.length - u.rest.length)) :: pieces bound u

theorem take_front {text used rest : List Char} (split : text = used ++ rest) :
    text.take (text.length - rest.length) = used := by
  rw [split, List.length_append, Nat.add_sub_cancel, List.take_left]

theorem gapComments_blank {c : Char} (blank : Text.isBlank c = true) (bound : Nat) (newline : Bool)
    (rest : List Char) :
    gapComments (bound + 1) newline (c :: rest) = gapComments bound (newline || c == '\n') rest := by
  have visible : c ≠ '/' := by
    rintro rfl
    exact Bool.false_ne_true (isBlank_slash.symm.trans blank)
  rw [gapComments.eq_def]
  dsimp only
  split
  · next same => exact absurd (List.cons.inj same).1 visible
  · next same => exact absurd (List.cons.inj same).1 visible
  · next same =>
    obtain ⟨rfl, rfl⟩ := List.cons.inj same
    rw [if_pos blank]
  · next same => cases same

theorem Gap.comments_eq {newline ended : Bool} {s t : Source} {comments : List (List Char)}
    (gap : Gap newline s comments ended t) {bound : Nat} (enough : s.rest.length < bound) :
    gapComments bound newline s.rest = comments := by
  induction gap generalizing bound with
  | @stop newline s stops =>
      obtain ⟨bound, rfl, -⟩ := exists_pred enough
      obtain ⟨text, place⟩ := s
      obtain ⟨noBlank, noLine, noBlock⟩ := stops
      dsimp only at noBlank noLine noBlock ⊢
      unfold gapComments
      split
      · exact absurd ⟨_, rfl⟩ noLine
      · exact absurd ⟨_, rfl⟩ noBlock
      · next c rest _ _ => rw [if_neg (by rw [noBlank c rfl]; decide)]
      · rfl
  | blank blank _ ih =>
      obtain ⟨bound, rfl, fewer⟩ := exists_pred enough
      rw [gapComments_blank blank]
      exact ih fewer
  | @line newline ended comment rest place comments t line ends _ ih =>
      obtain ⟨bound, rfl, fewer⟩ := exists_pred enough
      obtain ⟨taken, left⟩ := takeWhile_line line ends
      simp only [List.length_cons, List.length_append] at fewer
      rw [gapComments, taken, left, ih (by dsimp only; omega)]
  | @block newline ended reached used rest place comments t closes _ ih =>
      obtain ⟨bound, rfl, fewer⟩ := exists_pred enough
      obtain ⟨used', same, -, anywhere⟩ := closeComment_takes closes
      obtain rfl := List.append_cancel_right same
      have there := anywhere [] .start
      simp only [List.append_nil] at there
      simp only [List.length_cons, List.length_append] at fewer
      rw [gapComments, there]
      dsimp only
      rw [take_front rfl, ih (by dsimp only; omega)]

theorem Layout.pieces_eq {bound : Nat} {s : Source} {found : List Piece} {tokens : List Token}
    (layout : Layout bound s found tokens) (enough : s.rest.length < bound) :
    pieces bound s = found := by
  induction layout with
  | @finish bound newline s t comments gap ended =>
      rw [pieces, gap.comments_eq enough, gap.skipTrivia_eq enough]
      dsimp only
      rw [ended]
      exact List.append_nil _
  | @lexeme bound newline c rest written s t u comments read found tokens gap begins cut whole _ ih =>
      obtain ⟨used, split, -⟩ := gap.takes []
      obtain ⟨_, place⟩ := t
      cases begins
      have shorter := lexeme_shortens cut
      rw [split, List.length_append] at enough
      rw [pieces, gap.comments_eq (by rw [split, List.length_append]; exact enough),
        gap.skipTrivia_eq (by rw [split, List.length_append]; exact enough)]
      dsimp only
      rw [cut]
      dsimp only at whole ⊢
      rw [take_front whole, ih (by dsimp only at enough; omega)]

end Scan

/-- The pieces of a text in front of its end. -/
def piecesOf (text : String) : List Scan.Piece :=
  Scan.pieces (text.toList.length + 1) ⟨text.toList, .start⟩

end StrategyQubo.Script
