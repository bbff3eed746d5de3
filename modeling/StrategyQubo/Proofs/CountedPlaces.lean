import Mathlib.Data.List.Induction
import StrategyQubo.Proofs.FirstFaults

namespace StrategyQubo.Script

/-! # Places counted in the text

Every place that is reported is found by counting in the text.  A text that can
be cut lies between its tokens as blanks and comments, and a text that is refused
is refused at one of its characters or at its end.
-/

/-! ## Counting -/

namespace Position

/-- The line and the column behind the characters: one line more than lines have
    ended, and one column more than characters stand in the last line. -/
def counted (before : List Char) : Position :=
  ⟨before.count '\n' + 1, (before.reverse.takeWhile (· != '\n')).length + 1⟩

theorem counted_concat (before : List Char) (c : Char) :
    counted (before ++ [c]) = (counted before).step c := by
  unfold counted step
  by_cases line : c = '\n'
  · subst line
    simp
  · simp [line]

theorem after_start (before : List Char) : start.after before = counted before := by
  induction before using List.reverseRecOn with
  | nil => rfl
  | append_singleton before c ih => rw [after_append, ih, counted_concat]; rfl

/-- By line, then by column. -/
instance : LT Position :=
  ⟨fun p q => p.line < q.line ∨ p.line = q.line ∧ p.column < q.column⟩

theorem lt_iff {p q : Position} :
    p < q ↔ p.line < q.line ∨ p.line = q.line ∧ p.column < q.column :=
  Iff.rfl

theorem lt_step (p : Position) (c : Char) : p < p.step c := by
  rw [lt_iff, step]
  split <;> dsimp only <;> omega

theorem lt_of_lt_of_le {p q r : Position} (first : p < q) (second : q ≤ r) : p < r := by
  rw [lt_iff] at *
  rw [le_iff] at second
  omega

theorem counted_lt (before : List Char) (c : Char) (more : List Char) :
    counted before < counted (before ++ c :: more) := by
  rw [← after_start, ← after_start, after_append, after_cons]
  exact lt_of_lt_of_le (lt_step _ c) (le_after ..)

end Position

/-! ## Between the tokens -/

/-- Blanks and comments, up to where neither goes on.  A line comment lasts up
    to the end of its line, and a block comment up to the first mark that closes
    one. -/
inductive Trivia : List Char → List Char → Prop where
  | done {behind : List Char} : Scan.Stops behind → Trivia [] behind
  | blank {c : Char} {gap behind : List Char} :
      Text.isBlank c = true → Trivia gap behind → Trivia (c :: gap) behind
  | line {comment gap behind : List Char} :
      '\n' ∉ comment → (∀ c ∈ (gap ++ behind).head?, c = '\n') → Trivia gap behind →
      Trivia ('/' :: '/' :: (comment ++ gap)) behind
  | block {comment gap behind : List Char} :
      ¬ ['*', '/'] <:+: comment ++ ['*'] → Trivia gap behind →
      Trivia ('/' :: '*' :: (comment ++ '*' :: '/' :: gap)) behind

theorem lineEnd_mem_cons (c : Char) (text : List Char) :
    decide ('\n' ∈ c :: text) = (c == '\n' || decide ('\n' ∈ text)) := by
  rw [Bool.eq_iff_iff]
  simp only [decide_eq_true_eq, Bool.or_eq_true, beq_iff_eq, List.mem_cons]
  exact or_congr_left eq_comm

/-- A comment is closed at the first mark that does, and the lines that end in it
    are told. -/
theorem Scan.closeComment_first {text : List Char} {place : Position} {newline ended : Bool}
    {t : Source} (ran : closeComment text place newline = .ok (ended, t)) :
    ∃ comment, text = comment ++ '*' :: '/' :: t.rest ∧ ¬ ['*', '/'] <:+: comment ++ ['*'] ∧
      ended = (newline || decide ('\n' ∈ comment)) := by
  fun_induction closeComment text place newline with
  | case1 => cases ran
  | case2 rest place newline =>
      cases ran
      exact ⟨[], rfl, by decide, by simp⟩
  | case3 c rest place newline other ih =>
      obtain ⟨comment, split, first, told⟩ := ih ran
      refine ⟨c :: comment, congrArg (c :: ·) split, fun closes => ?_, ?_⟩
      · rcases List.infix_cons_iff.mp closes with here | later
        · obtain ⟨star, next⟩ := List.cons_prefix_cons.mp here
          cases comment with
          | nil => exact absurd next (by decide)
          | cons d comment =>
              obtain ⟨slash, -⟩ := List.cons_prefix_cons.mp next
              exact other _ star.symm (split.trans (congrArg (· :: _) slash.symm))
        · exact first later
      · rw [told, Bool.or_assoc, lineEnd_mem_cons]

/-- What stands between two tokens, and whether a line ends in it. -/
theorem Scan.Gap.trivia {newline ended : Bool} {s t : Source} {comments : List (List Char)}
    (gap : Gap newline s comments ended t) :
    ∃ used, s.rest = used ++ t.rest ∧ t.position = s.position.after used ∧ Trivia used t.rest ∧
      ended = (newline || decide ('\n' ∈ used)) := by
  induction gap with
  | stop stops => exact ⟨[], rfl, rfl, .done stops, by simp⟩
  | @blank newline ended c rest place comments t blank _ ih =>
      obtain ⟨used, split, position, trivia, told⟩ := ih
      refine ⟨c :: used, congrArg (c :: ·) split, position, .blank blank trivia, ?_⟩
      rw [told, Bool.or_assoc, lineEnd_mem_cons]
  | @line newline ended comment rest place comments t line ends _ ih =>
      obtain ⟨used, split, position, trivia, told⟩ := ih
      have inLine : '\n' ∉ comment := fun member => absurd (line _ member) (by decide)
      dsimp only at split position
      refine ⟨'/' :: '/' :: (comment ++ used), by simp [split], ?_,
        .line inLine (fun c first => ?_) trivia, by simp [told, inLine]⟩
      · rw [position, ← Position.after_append]
        rfl
      · exact bne_eq_false_iff_eq.mp (ends c (split ▸ first))
  | @block newline ended reached used rest place comments t closes _ ih =>
      obtain ⟨more, split, position, trivia, told⟩ := ih
      obtain ⟨comment, whole, first, reached⟩ := closeComment_first closes
      dsimp only at split position whole
      obtain rfl : used = comment ++ ['*', '/'] :=
        List.append_cancel_right (whole.trans (by simp : _ = (comment ++ ['*', '/']) ++ rest))
      refine ⟨'/' :: '*' :: (comment ++ '*' :: '/' :: more), by simp [split], ?_,
        .block first trivia, by simp [told, reached, Bool.or_assoc]⟩
      rw [position, ← Position.after_append]
      simp

/-! ## The tokens of a text -/

/-- Behind the characters before it, a text is laid out in its tokens.  Each one
    begins behind blanks and comments, tells whether a line ends in them, and is
    read from the characters that it is written with. -/
inductive Lays : List Char → List Char → List Token → Prop where
  | finish {before gap : List Char} :
      Trivia gap [] →
      Lays before gap [⟨.endOfInput, .counted (before ++ gap), decide ('\n' ∈ gap)⟩]
  | token {before gap written rest : List Char} {c : Char} {bound : Nat} {read : Lexeme}
      {tokens : List Token} :
      Trivia gap (c :: written ++ rest) →
      Scan.lexeme bound c ⟨c :: written ++ rest, .counted (before ++ gap)⟩ =
        .ok (read, ⟨rest, .counted (before ++ gap ++ c :: written)⟩) →
      Lays (before ++ gap ++ c :: written) rest tokens →
      Lays before (gap ++ (c :: written ++ rest))
        (⟨read, .counted (before ++ gap), decide ('\n' ∈ gap)⟩ :: tokens)

theorem Position.counted_after {place : Position} {before : List Char} (here : place = counted before)
    (front : List Char) : place.after front = counted (before ++ front) := by
  rw [here, ← after_start, ← after_append, after_start]

theorem Scan.Layout.lays {bound : Nat} {s : Source} {pieces : List Piece} {tokens : List Token}
    (layout : Layout bound s pieces tokens) {before : List Char}
    (position : s.position = .counted before) : Lays before s.rest tokens := by
  induction layout generalizing before with
  | @finish bound newline s t comments gap ended =>
      obtain ⟨used, split, reached, trivia, rfl⟩ := gap.trivia
      rw [ended] at split trivia
      rw [split, List.append_nil, reached, Position.counted_after position, Bool.false_or]
      exact .finish trivia
  | @lexeme bound newline c rest written s t u comments read pieces tokens gap head cut whole _ ih =>
      obtain ⟨used, split, reached, trivia, rfl⟩ := gap.trivia
      rw [Position.counted_after position] at reached
      obtain ⟨front, place⟩ := t
      obtain ⟨left, further⟩ := u
      dsimp only at split reached trivia head whole cut ih ⊢
      obtain ⟨taken, same, moved, -⟩ := lexeme_steady [] (Nat.le_refl _) c _ _ _ _ cut
      obtain rfl := List.append_cancel_right (whole.symm.trans same)
      rw [Position.counted_after reached] at moved
      dsimp only at moved
      subst reached moved
      cases written with
      | nil =>
          have shorter := lexeme_shortens (head ▸ cut)
          rw [← head, whole] at shorter
          exact absurd shorter (Nat.lt_irrefl _)
      | cons d written =>
          obtain rfl : c = d := (List.cons.inj (head.symm.trans whole)).1
          rw [whole] at trivia cut split
          rw [split, Bool.false_or]
          exact .token trivia cut (ih rfl)

/-- Tokens begin at characters of the text behind those before it, or at its
    end. -/
theorem Lays.begin_behind {before text : List Char} {tokens : List Token}
    (lays : Lays before text tokens) :
    ∀ token ∈ tokens, ∃ front, token.position = .counted (before ++ front) := by
  induction lays with
  | finish => exact List.forall_mem_singleton.mpr ⟨_, rfl⟩
  | @token before gap written rest c bound read tokens _ _ _ ih =>
      refine List.forall_mem_cons.mpr ⟨⟨gap, rfl⟩, fun token member => ?_⟩
      obtain ⟨front, position⟩ := ih token member
      exact ⟨gap ++ c :: written ++ front, by rw [position]; simp⟩

/-- Each token begins behind all tokens before it. -/
theorem Lays.increasing {before text : List Char} {tokens : List Token}
    (lays : Lays before text tokens) :
    tokens.Pairwise fun token later => token.position < later.position := by
  induction lays with
  | finish => exact List.pairwise_singleton ..
  | @token before gap written rest c bound read tokens _ _ later ih =>
      refine List.pairwise_cons.mpr ⟨fun token member => ?_, ih⟩
      obtain ⟨front, position⟩ := later.begin_behind token member
      rw [position, List.append_assoc, List.cons_append]
      exact Position.counted_lt ..

/-! ## Faults -/

/-- The text is refused at one of its characters, or at its end. -/
def RefusedIn (text : List Char) (error : ScriptError) : Prop :=
  ∃ before after fault, text = before ++ after ∧ error = .syntaxFault (.counted before) fault

theorem tokenize_refusedIn {text : String} {error : ScriptError}
    (refused : tokenize text = .error error) : RefusedIn text.toList error := by
  obtain ⟨before, fault, ⟨after, whole⟩, rfl⟩ := tokenizeAt_late refused
  exact ⟨before, after, fault, whole.symm, by rw [Position.after_start]⟩

theorem Reading.refusedIn {reading : Reading} {text : String} {error : ScriptError}
    (refused : reading.parse text = .error error) : RefusedIn text.toList error := by
  cases cut : tokenize text with
  | error reason =>
      have same : reading.parse text = .error reason := by
        cases reading with
        | program =>
            change Except.map _ (tokenize text >>= Program.ofTokens) = _
            rw [cut]
            rfl
        | expression =>
            change Except.map _ (tokenize text >>= Expr.ofTokens) = _
            rw [cut]
            rfl
      cases same.symm.trans refused
      exact tokenize_refusedIn cut
  | ok tokens =>
      rw [reading.parse_eq cut] at refused
      have distant : Distant (fun p => ∃ before, before <+: text.toList ∧ p = .counted before)
          text.toList .start :=
        fun front reached => ⟨front, reached, Position.after_start front⟩
      obtain ⟨_, fault, rfl, before, ⟨after, whole⟩, rfl⟩ :=
        Fork.far_of_drifts (fun F => (reading.whole_relates F).drifts) (tokenizeAt_ended cut)
          (fun token member => (tokenizeAt_stand cut token member).beyond distant) refused
      exact ⟨before, after, fault, whole.symm, rfl⟩

/-- A text that can be cut has one end mark, behind all its other tokens; they
    are laid out in it, each at the line and the column that counting gives, and
    one behind the other.  A text that cannot be cut or parsed is refused at one
    of its characters or at its end. -/
theorem places_counted (text : String) :
    (∀ tokens, tokenize text = .ok tokens →
      Ended tokens ∧ Lays [] text.toList tokens ∧
        tokens.Pairwise fun token later => token.position < later.position) ∧
    ∀ error, (tokenize text = .error error ∨ Program.parse text = .error error ∨
      Expr.parse text = .error error) → RefusedIn text.toList error := by
  refine ⟨fun tokens cut => ?_, fun error refused => ?_⟩
  · obtain ⟨pieces, layout⟩ := exists_layout cut
    have lays : Lays [] text.toList tokens := layout.lays rfl
    exact ⟨layout.ended, lays, lays.increasing⟩
  · rcases refused with cut | program | expression
    · exact tokenize_refusedIn cut
    · have failed : Reading.program.parse text = .error error := by
        change Except.map _ (Program.parse text) = _
        rw [program]
        rfl
      exact Reading.refusedIn failed
    · have failed : Reading.expression.parse text = .error error := by
        change Except.map _ (Expr.parse text) = _
        rw [expression]
        rfl
      exact Reading.refusedIn failed

theorem places_counted_commented :
    (∃ tokens, tokenize "a /*\n*/ b" = .ok tokens ∧
      tokens.map (fun token => (token.position, token.newlineBefore)) =
        [(⟨1, 1⟩, false), (⟨2, 4⟩, true), (⟨2, 5⟩, false)] ∧
      Ended tokens ∧ Lays [] "a /*\n*/ b".toList tokens ∧
      tokens.Pairwise fun token later => token.position < later.position) ∧
    ∃ place fault, Program.parse "f(a\n" = .error (.syntaxFault place fault) ∧ place = ⟨2, 1⟩ ∧
      RefusedIn "f(a\n".toList (.syntaxFault place fault) := by
  have cut : (tokenize "a /*\n*/ b").toOption.map
      (List.map fun token => (token.position, token.newlineBefore)) =
        some [(⟨1, 1⟩, false), (⟨2, 4⟩, true), (⟨2, 5⟩, false)] := by decide +kernel
  have refused : faultAt? (Program.parse "f(a\n") = some (⟨2, 1⟩, "')' after arguments") := by
    decide +kernel
  refine ⟨?_, ?_⟩
  · cases ran : tokenize "a /*\n*/ b" with
    | error fault =>
        rw [ran] at cut
        cases cut
    | ok tokens =>
        rw [ran] at cut
        exact ⟨tokens, rfl, Option.some.inj cut, (places_counted "a /*\n*/ b").1 tokens ran⟩
  · obtain ⟨found, failed⟩ := exists_of_faultAt? refused
    exact ⟨_, _, failed, rfl, (places_counted "f(a\n").2 _ (.inr (.inl failed))⟩

end StrategyQubo.Script
