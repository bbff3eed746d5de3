import StrategyQubo.Proofs.TokenPlaces
import StrategyQubo.Script.Syntax.Parse

namespace StrategyQubo.Script

/-! # Brackets in what is parsed

Every construct takes a row of tokens in which each bracket closes what was
opened last.  Outside brackets an expression has no semicolon.
-/

/-! ## Balanced rows -/

def Mark.closing? : Mark → Option Mark
  | .openBrace => some .closeBrace
  | .openParen => some .closeParen
  | .openBracket => some .closeBracket
  | _ => none

def Mark.isBracket (mark : Mark) : Bool :=
  mark.closing?.isSome || mark == .closeBrace || mark == .closeParen || mark == .closeBracket

/-- No bracket, and no semicolon unless semicolons are allowed. -/
def Lexeme.isPlain (semicolons : Bool) : Lexeme → Bool
  | .mark sign => !sign.isBracket && (semicolons || sign != .semicolon)
  | _ => true

/-- Tokens whose brackets match.  Semicolons may stand outside brackets only if
    they are allowed. -/
inductive Balanced : Bool → List Token → Prop where
  | nil {semicolons : Bool} : Balanced semicolons []
  | plain {semicolons : Bool} {token : Token} {rest : List Token} :
      token.lexeme.isPlain semicolons = true → Balanced semicolons rest →
      Balanced semicolons (token :: rest)
  | group {semicolons : Bool} {opener closer : Token} {opening closing : Mark}
      {inner rest : List Token} :
      opener.lexeme = .mark opening → opening.closing? = some closing →
      closer.lexeme = .mark closing → Balanced true inner → Balanced semicolons rest →
      Balanced semicolons (opener :: (inner ++ closer :: rest))

theorem Lexeme.isPlain_true {semicolons : Bool} {lexeme : Lexeme}
    (plain : lexeme.isPlain semicolons = true) : lexeme.isPlain true = true := by
  cases lexeme with
  | mark sign =>
      simp only [isPlain, Bool.and_eq_true] at plain
      simp [isPlain, plain.1]
  | _ => rfl

namespace Balanced

variable {semicolons : Bool} {row more : List Token}

theorem append (first : Balanced semicolons row) (second : Balanced semicolons more) :
    Balanced semicolons (row ++ more) := by
  induction first with
  | nil => exact second
  | plain plain _ ih => exact .plain plain (ih second)
  | group opens pair closes inner _ _ ih =>
      rw [List.cons_append, List.append_assoc, List.cons_append]
      exact .group opens pair closes inner (ih second)

theorem loosen (balanced : Balanced semicolons row) : Balanced true row := by
  induction balanced with
  | nil => exact .nil
  | plain plain _ ih => exact .plain (Lexeme.isPlain_true plain) ih
  | group opens pair closes inner _ _ ih => exact .group opens pair closes inner ih

end Balanced

/-- A row with a token at least. -/
structure Phrase (semicolons : Bool) (row : List Token) : Prop where
  balanced : Balanced semicolons row
  nonempty : row ≠ []

/-- A balanced row in brackets that begin with the mark. -/
def Bracketed (opening : Mark) (row : List Token) : Prop :=
  ∃ opener inner closer closing, row = opener :: (inner ++ [closer]) ∧
    opener.lexeme = .mark opening ∧ opening.closing? = some closing ∧
    closer.lexeme = .mark closing ∧ Balanced true inner

/-- A balanced row and the mark that closes it. -/
def Closed (closing : Mark) (row : List Token) : Prop :=
  ∃ inner closer, row = inner ++ [closer] ∧ closer.lexeme = .mark closing ∧ Balanced true inner

theorem Bracketed.phrase {opening : Mark} {row : List Token} (bracketed : Bracketed opening row)
    (semicolons : Bool) : Phrase semicolons row := by
  obtain ⟨opener, inner, closer, closing, rfl, opens, pair, closes, balanced⟩ := bracketed
  exact ⟨.group opens pair closes balanced .nil, nofun⟩

theorem Closed.bracketed {opening closing : Mark} {row : List Token} (closed : Closed closing row)
    {opener : Token} (opens : opener.lexeme = .mark opening)
    (pair : opening.closing? = some closing) : Bracketed opening (opener :: row) := by
  obtain ⟨inner, closer, rfl, closes, balanced⟩ := closed
  exact ⟨opener, inner, closer, closing, rfl, opens, pair, closes, balanced⟩

theorem Phrase.append_right {semicolons : Bool} {row more : List Token}
    (phrase : Phrase semicolons row) (balanced : Balanced semicolons more) :
    Phrase semicolons (row ++ more) :=
  ⟨phrase.balanced.append balanced, by simp [phrase.nonempty]⟩

theorem Phrase.cons {semicolons : Bool} {token : Token} {more : List Token}
    (plain : token.lexeme.isPlain semicolons = true) (balanced : Balanced semicolons more) :
    Phrase semicolons (token :: more) :=
  ⟨.plain plain balanced, nofun⟩

theorem Phrase.loosen {semicolons : Bool} {row : List Token} (phrase : Phrase semicolons row) :
    Phrase true row :=
  ⟨phrase.balanced.loosen, phrase.nonempty⟩

/-! ## Cursors -/

/-- The tokens ahead go up to the end mark, and there are at most as many as the
    loops are bounded by. -/
structure Cursor.Proper (c : Cursor) : Prop where
  ended : Ended c.ahead
  last : c.last.lexeme = .endOfInput
  within : c.ahead.length ≤ c.size

/-- From one cursor to another over a row of tokens. -/
structure Cursor.Passed (c : Cursor) (row : List Token) (d : Cursor) : Prop where
  proper : d.Proper
  split : c.ahead = row ++ d.ahead
  size : d.size = c.size

theorem Cursor.Passed.trans {c d e : Cursor} {row more : List Token} (first : c.Passed row d)
    (second : d.Passed more e) : c.Passed (row ++ more) e :=
  ⟨second.proper, by rw [first.split, second.split, List.append_assoc],
    second.size.trans first.size⟩

theorem Cursor.Proper.refl {c : Cursor} (proper : c.Proper) : c.Passed [] c :=
  ⟨proper, rfl, rfl⟩

theorem Ended.proper {tokens : List Token} (ended : Ended tokens) :
    (Cursor.ofTokens tokens).Proper := by
  refine ⟨ended, ?_, Nat.le_refl _⟩
  obtain ⟨front, last, rfl, mark, -⟩ := ended
  unfold Cursor.ofTokens
  rw [List.getLastD_eq_getLast?, List.getLast?_concat]
  exact mark

theorem Cursor.Passed.length {c d : Cursor} {row : List Token} (passed : c.Passed row d) :
    c.ahead.length = row.length + d.ahead.length := by
  rw [passed.split, List.length_append]

theorem Cursor.Proper.ahead_eq {c : Cursor} (proper : c.Proper) :
    ∃ later, c.ahead = c.current :: later := by
  obtain ⟨front, last, ahead, -⟩ := proper.ended
  unfold Cursor.current
  rw [ahead]
  cases front with
  | nil => exact ⟨[], rfl⟩
  | cons token front => exact ⟨front ++ [last], rfl⟩

/-- Only the end mark has nothing behind it. -/
theorem Cursor.Proper.later_ended {c : Cursor} (proper : c.Proper) {later : List Token}
    (ahead : c.ahead = c.current :: later) (more : c.current.lexeme.isEnd = false) :
    Ended later := by
  obtain ⟨front, last, ended, mark, inner⟩ := proper.ended
  cases front with
  | nil =>
      obtain ⟨same, -⟩ := List.cons.inj (ahead.symm.trans ended)
      rw [same, mark] at more
      cases more
  | cons token front =>
      obtain ⟨-, rfl⟩ := List.cons.inj (ahead.symm.trans ended)
      exact ⟨front, last, rfl, mark, fun t member => inner t (List.mem_cons_of_mem _ member)⟩

theorem Cursor.advance_eq {c : Cursor} {token : Token} {later : List Token} (ended : Ended later)
    (ahead : c.ahead = token :: later) :
    c.advance = { c with before := some token, ahead := later } := by
  obtain ⟨front, last, rfl, -⟩ := ended
  unfold Cursor.advance
  rw [ahead]
  cases front <;> rfl

/-- Before the end mark, the next token is taken. -/
theorem Cursor.Proper.advance {c : Cursor} (proper : c.Proper)
    (more : c.current.lexeme.isEnd = false) : c.Passed [c.current] c.advance := by
  obtain ⟨later, ahead⟩ := proper.ahead_eq
  have ended := proper.later_ended ahead more
  rw [Cursor.advance_eq ended ahead]
  refine ⟨⟨ended, proper.last, ?_⟩, ahead, rfl⟩
  have within := proper.within
  rw [ahead, List.length_cons] at within
  exact Nat.le_of_succ_le within

@[simp] theorem Cursor.advance_last (c : Cursor) : c.advance.last = c.last := by
  unfold Cursor.advance
  split <;> rfl

@[simp] theorem Cursor.advance_inBarred (c : Cursor) : c.advance.inBarred = c.inBarred := by
  unfold Cursor.advance
  split <;> rfl

theorem Cursor.lookahead_zero (c : Cursor) : c.lookahead 0 = c.current.lexeme := by
  unfold Cursor.lookahead Cursor.current
  cases c.ahead <;> rfl

theorem Cursor.Proper.lookahead_succ {c : Cursor} (proper : c.Proper)
    (more : c.current.lexeme.isEnd = false) (offset : Nat) :
    c.lookahead (offset + 1) = c.advance.lookahead offset := by
  unfold Cursor.lookahead
  rw [(proper.advance more).split, Cursor.advance_last]
  rfl

theorem Cursor.Proper.ahead_eq_of_isEnd {c : Cursor} (proper : c.Proper)
    (ended : c.current.lexeme.isEnd = true) : c.ahead = [c.current] := by
  obtain ⟨front, last, ahead, mark, inner⟩ := proper.ended
  unfold Cursor.current at ended ⊢
  rw [ahead] at ended ⊢
  cases front with
  | nil => rfl
  | cons token front =>
      rw [List.cons_append, List.headD_cons, inner token List.mem_cons_self] at ended
      cases ended

theorem Cursor.Proper.advance_at_end {c : Cursor} (proper : c.Proper)
    (ended : c.current.lexeme.isEnd = true) : c.advance = c := by
  unfold Cursor.advance
  rw [proper.ahead_eq_of_isEnd ended]

namespace Parse

variable {α β : Type} {on : Token → Prop} {post : α → List Token → Prop}
  {post' : β → List Token → Prop} {f : α → Parse β}

/-! ## Spans of parsers -/

/-- From a token as expected, the parser passes over a row of tokens that is as
    its answer says. -/
def SpansFrom (on : Token → Prop) (post : α → List Token → Prop) (parse : Parse α) : Prop :=
  ∀ c a d, c.Proper → on c.current → parse c = .ok (a, d) → ∃ row, c.Passed row d ∧ post a row

/-- From any token. -/
abbrev Spans (post : α → List Token → Prop) (parse : Parse α) : Prop :=
  SpansFrom (fun _ => True) post parse

theorem Spans.from {parse : Parse α} (spans : Spans post parse) : SpansFrom on post parse :=
  fun c a d proper _ ran => spans c a d proper trivial ran

theorem SpansFrom.mono {parse : Parse α} {wanted : α → List Token → Prop}
    (spans : SpansFrom on post parse) (implies : ∀ a row, post a row → wanted a row) :
    SpansFrom on wanted parse := by
  intro c a d proper here ran
  obtain ⟨row, passed, good⟩ := spans c a d proper here ran
  exact ⟨row, passed, implies a row good⟩

theorem pure_spans {a : α} (good : post a []) : SpansFrom on post (pure a) := by
  rintro c _ _ proper - ⟨⟩
  exact ⟨[], proper.refl, good⟩

theorem spans_of_fails {parse : Parse α} {error : Cursor → ScriptError}
    (fails : ∀ c, parse c = .error (error c)) : SpansFrom on post parse := by
  intro c a d _ _ ran
  cases (fails c).symm.trans ran

theorem unexpected_spans (what : String) : SpansFrom on post (unexpected what) :=
  spans_of_fails fun _ => rfl

/-- Behind a fault nothing is run. -/
theorem unexpected_bind_spans (what : String) :
    SpansFrom on post' ((unexpected what : Parse α) >>= f) :=
  spans_of_fails fun _ => rfl

theorem unexpectedBefore_spans (what : String) : SpansFrom on post (unexpectedBefore what) :=
  spans_of_fails fun _ => rfl

theorem SpansFrom.bind {parse : Parse α} (first : SpansFrom on post parse)
    (later : ∀ a row, post a row → Spans (fun b more => post' b (row ++ more)) (f a)) :
    SpansFrom on post' (parse >>= f) := by
  intro c b e proper here ran
  obtain ⟨a, d, parsed, ran⟩ := StateT.exists_of_bind_ok ran
  obtain ⟨row, passed, good⟩ := first c a d proper here parsed
  obtain ⟨more, passed', good'⟩ := later a row good d b e passed.proper trivial ran
  exact ⟨row ++ more, passed.trans passed', good'⟩

/-- A parser that looks at the cursor and leaves it. -/
theorem still_spans {parse : Parse α} {answer : Cursor → α}
    (looks : ∀ c, parse c = .ok (answer c, c)) (later : ∀ a, SpansFrom on post' (f a)) :
    SpansFrom on post' (parse >>= f) := by
  intro c b d proper here ran
  rw [StateT.bind_ok (looks c)] at ran
  exact later _ c b d proper here ran

theorem lexeme_spans {f : Lexeme → Parse β}
    (later : ∀ l, SpansFrom (fun token => on token ∧ token.lexeme = l) post' (f l)) :
    SpansFrom on post' (lexeme >>= f) := by
  intro c b d proper here ran
  rw [StateT.bind_ok (show lexeme c = .ok (c.current.lexeme, c) from rfl)] at ran
  exact later _ c b d proper ⟨here, rfl⟩ ran

theorem peek_spans {f : Token → Parse β}
    (later : ∀ token, SpansFrom (fun here => on here ∧ here = token) post' (f token)) :
    SpansFrom on post' (peek >>= f) := by
  intro c b d proper here ran
  rw [StateT.bind_ok (show peek c = .ok (c.current, c) from rfl)] at ran
  exact later _ c b d proper ⟨here, rfl⟩ ran

theorem skip_spans {f : Unit → Parse β} (more : ∀ token, on token → token.lexeme.isEnd = false)
    (later : ∀ token, on token → Spans (fun b row => post' b (token :: row)) (f ())) :
    SpansFrom on post' (skip >>= f) := by
  intro c b d proper here ran
  rw [StateT.bind_ok (show skip c = .ok ((), c.advance) from rfl)] at ran
  have passed := proper.advance (more _ here)
  obtain ⟨row, passed', good⟩ := later _ here c.advance b d passed.proper trivial ran
  exact ⟨_, passed.trans passed', good⟩

theorem eq_of_isEnd {l : Lexeme} (ended : l.isEnd = true) : l = .endOfInput := by
  cases l with
  | endOfInput => rfl
  | _ => cases ended

/-- At the end mark nothing is taken, and nothing that needs a token goes on. -/
theorem advance_spans {f : Token → Parse β} {what : String}
    (later : ∀ token, Spans (fun b row => post' b (token :: row)) (f token))
    (ended : ∀ token, token.lexeme = .endOfInput → f token = unexpectedBefore what) :
    SpansFrom on post' (advance >>= f) := by
  intro c b d proper here ran
  rw [StateT.bind_ok (show advance c = .ok (c.current, c.advance) from rfl)] at ran
  cases mark : c.current.lexeme.isEnd with
  | true =>
      rw [ended _ (eq_of_isEnd mark)] at ran
      cases ran
  | false =>
      have passed := proper.advance mark
      obtain ⟨row, passed', good⟩ := later _ c.advance b d passed.proper trivial ran
      exact ⟨_, passed.trans passed', good⟩

theorem eq_of_isMark {l : Lexeme} {mark : Mark} (found : l.isMark mark = true) :
    l = .mark mark := by
  cases l with
  | mark other => rw [beq_iff_eq.mp (show (other == mark) = true from found)]
  | _ => cases found

theorem eq_of_isKeyword {l : Lexeme} {word : Keyword} (found : l.isKeyword word = true) :
    l = .keyword word := by
  cases l with
  | keyword other => rw [beq_iff_eq.mp (show (other == word) = true from found)]
  | _ => cases found

theorem eatMark_spans {mark : Mark} {f : Bool → Parse β}
    (yes : ∀ token, token.lexeme = .mark mark →
      Spans (fun b row => post' b (token :: row)) (f true))
    (no : SpansFrom on post' (f false)) : SpansFrom on post' (eatMark mark >>= f) := by
  intro c b d proper here ran
  cases found : c.current.lexeme.isMark mark with
  | true =>
      have spelled := eq_of_isMark found
      have passed := proper.advance (by rw [spelled]; rfl)
      rw [StateT.bind_ok (show eatMark mark c = .ok (true, c.advance) by
        rw [eatMark, found, if_pos rfl])] at ran
      obtain ⟨row, passed', good⟩ := yes _ spelled c.advance b d passed.proper trivial ran
      exact ⟨_, passed.trans passed', good⟩
  | false =>
      rw [StateT.bind_ok (show eatMark mark c = .ok (false, c) by
        rw [eatMark, found, if_neg Bool.false_ne_true])] at ran
      exact no c b d proper here ran

theorem eatKeyword_spans {word : Keyword} {f : Bool → Parse β}
    (yes : ∀ token, token.lexeme = .keyword word →
      Spans (fun b row => post' b (token :: row)) (f true))
    (no : SpansFrom on post' (f false)) : SpansFrom on post' (eatKeyword word >>= f) := by
  intro c b d proper here ran
  cases found : c.current.lexeme.isKeyword word with
  | true =>
      have spelled := eq_of_isKeyword found
      have passed := proper.advance (by rw [spelled]; rfl)
      rw [StateT.bind_ok (show eatKeyword word c = .ok (true, c.advance) by
        rw [eatKeyword, found, if_pos rfl])] at ran
      obtain ⟨row, passed', good⟩ := yes _ spelled c.advance b d passed.proper trivial ran
      exact ⟨_, passed.trans passed', good⟩
  | false =>
      rw [StateT.bind_ok (show eatKeyword word c = .ok (false, c) by
        rw [eatKeyword, found, if_neg Bool.false_ne_true])] at ran
      exact no c b d proper here ran

theorem expectMark_spans {mark : Mark} {what : String} {f : Unit → Parse β}
    (later : ∀ token, token.lexeme = .mark mark →
      Spans (fun b row => post' b (token :: row)) (f ())) :
    SpansFrom on post' (expectMark mark what >>= f) := by
  unfold expectMark
  rw [bind_assoc]
  refine eatMark_spans (fun token spelled => ?_) ?_
  · exact later token spelled
  · exact unexpected_bind_spans what

theorem takeIdentifier_spans {what : String} {f : String → Parse β}
    (later : ∀ token name, token.lexeme = .identifier name →
      Spans (fun b row => post' b (token :: row)) (f name)) :
    SpansFrom on post' (takeIdentifier what >>= f) := by
  unfold takeIdentifier
  rw [bind_assoc]
  refine lexeme_spans fun l => ?_
  split
  · next name =>
    rw [bind_assoc]
    exact skip_spans (fun token here => by rw [here.2]; rfl) fun token here =>
      later token name here.2
  · exact unexpected_bind_spans what

theorem atMark_spans {mark : Mark} {f : Bool → Parse β}
    (yes : SpansFrom (fun token => token.lexeme = .mark mark) post' (f true))
    (no : SpansFrom on post' (f false)) : SpansFrom on post' (atMark mark >>= f) := by
  intro c b d proper here ran
  cases found : c.current.lexeme.isMark mark with
  | true =>
      rw [StateT.bind_ok (show atMark mark c = .ok (true, c) by rw [atMark, found])] at ran
      exact yes c b d proper (eq_of_isMark found) ran
  | false =>
      rw [StateT.bind_ok (show atMark mark c = .ok (false, c) by rw [atMark, found])] at ran
      exact no c b d proper here ran

theorem atEnd_spans {f : Bool → Parse β} (later : ∀ ended, SpansFrom on post' (f ended)) :
    SpansFrom on post' (atEnd >>= f) :=
  still_spans (fun _ => rfl) later

theorem size_spans {f : Nat → Parse β} (later : ∀ bound, SpansFrom on post' (f bound)) :
    SpansFrom on post' (size >>= f) :=
  still_spans (fun _ => rfl) later

theorem lookahead_spans {offset : Nat} {f : Lexeme → Parse β}
    (later : ∀ l, SpansFrom on post' (f l)) : SpansFrom on post' (lookahead offset >>= f) :=
  still_spans (fun _ => rfl) later

theorem inBarred_spans {f : Bool → Parse β} (later : ∀ barred, SpansFrom on post' (f barred)) :
    SpansFrom on post' (inBarred >>= f) :=
  still_spans (fun _ => rfl) later

theorem setInBarred_spans {barred : Bool} {f : Unit → Parse β}
    (later : SpansFrom on post' (f ())) : SpansFrom on post' (setInBarred barred >>= f) := by
  intro c b d proper here ran
  rw [StateT.bind_ok (show setInBarred barred c = .ok ((), { c with inBarred := barred }) from rfl)]
    at ran
  obtain ⟨row, ⟨still, split, size⟩, good⟩ := later { c with inBarred := barred } b d
    ⟨proper.ended, proper.last, proper.within⟩ here ran
  exact ⟨row, ⟨still, split, size⟩, good⟩

theorem allowingIn_spans {parse : Parse α} (spans : Spans post parse) :
    Spans post (allowingIn parse) := by
  unfold allowingIn
  refine inBarred_spans fun saved => setInBarred_spans ?_
  refine spans.bind fun a row good => setInBarred_spans (pure_spans ?_)
  rwa [List.append_nil]

end Parse

end StrategyQubo.Script
